import TalOutline.Fold.Block
import TalOutline.Fold.CommentBlock
import TalOutline.Outline.Facts
import TalOutline.Outline.Heading
import TalOutline.Proofs.Text.Case
import TalOutline.Proofs.Declaration.Grammar

/-!
Lines in lower case. Comments stand where they stood, the keywords are the same, and a declaration or a
directive is read where one was read, with its name in lower case.
-/
namespace TalOutline

open Text

section Marks

variable {mark : Char} (hmark : mark.isAlpha = false)
include hmark

theorem beq_toLower (c : Char) : (c.toLower == mark) = (c == mark) := by
  rw [Bool.eq_iff_iff, beq_iff_eq, beq_iff_eq, toLower_eq_iff hmark]

theorem count_lower (text : List Char) : (lower text).count mark = text.count mark := by
  induction text with
  | nil => rfl
  | cons c text ih => rw [lower_cons, List.count_cons, List.count_cons, ih, beq_toLower hmark]

end Marks

theorem isPrefixOf_lower {marks : List Char} (hmarks : marks.any Char.isAlpha = false)
    (text : List Char) : marks.isPrefixOf (lower text) = marks.isPrefixOf text := by
  induction marks generalizing text with
  | nil => rfl
  | cons mark marks ih =>
    rw [List.any_cons, Bool.or_eq_false_iff] at hmarks
    obtain ⟨hmark, hmarks⟩ := hmarks
    cases text with
    | nil => rfl
    | cons c text =>
      rw [lower_cons, List.isPrefixOf_cons_cons, List.isPrefixOf_cons_cons, ih hmarks, Bool.beq_comm,
        beq_toLower hmark, Bool.beq_comm]

theorem isPrefixOf_eq_false {marks text : List Char} (h : ∀ rest, text = marks ++ rest → False) :
    marks.isPrefixOf text = false := by
  apply Bool.eq_false_iff.2
  intro hprefix
  obtain ⟨rest, hrest⟩ := List.isPrefixOf_iff_prefix.1 hprefix
  exact h rest hrest.symm

/--
Past one character, which must be the given mark. This is what a pattern with a mark in front does, said
for any mark.
-/
def past? (mark : Char) : List Char → Option (List Char)
  | [] => none
  | c :: rest => if c = mark then some rest else none

section Past

variable {mark : Char} {text : List Char}

theorem past?_self (mark : Char) (rest : List Char) : past? mark (mark :: rest) = some rest :=
  if_pos rfl

theorem past?_eq_none (h : ∀ rest, text = mark :: rest → False) : past? mark text = none := by
  cases text with
  | nil => rfl
  | cons c rest =>
    have hc : c ≠ mark := by
      rintro rfl
      exact h rest rfl
    exact if_neg hc

theorem bind_past?_eq_none {o : Option (List Char)} (h : ∀ rest, o = some (mark :: rest) → False) :
    o.bind (past? mark) = none := by
  cases o with
  | none => rfl
  | some text => exact past?_eq_none fun rest heq => h rest (congrArg some heq)

theorem past?_lower (hmark : mark.isAlpha = false) (text : List Char) :
    past? mark (lower text) = (past? mark text).map lower := by
  cases text with
  | nil => rfl
  | cons c rest =>
    rw [lower_cons, past?, past?]
    simp only [toLower_eq_iff hmark]
    split <;> rfl

end Past

/-- One reader after another does not see the case if neither does. -/
theorem bind_lower {α : Type} {f : List Char → Option α} {g : α → α}
    (h : ∀ text, f (lower text) = (f text).map g) (o : Option (List Char)) :
    (o.map lower).bind f = (o.bind f).map g := by
  cases o with
  | none => rfl
  | some text => exact h text

theorem map_trimStart_lower (o : Option (List Char)) :
    (o.map lower).map trimStart = (o.map trimStart).map lower := by
  cases o with
  | none => rfl
  | some text => exact congrArg some (trimStart_lower text)

namespace Comment

theorem opensDash_lower (text : List Char) : opensDash (lower text) = opensDash text := by
  unfold opensDash
  rw [trimStart_lower, isPrefixOf_lower (by decide)]

theorem opensBang_lower (text : List Char) : opensBang (lower text) = opensBang text := by
  unfold opensBang
  rw [trimStart_lower, isPrefixOf_lower (by decide)]

theorem dropDash_lower (inside : Bool) (text : List Char) :
    dropDash inside (lower text) = lower (dropDash inside text) := by
  induction text generalizing inside with
  | nil => rfl
  | cons c rest ih =>
    have hopens := opensDash_lower (c :: rest)
    rw [lower_cons] at hopens ⊢
    rw [dropDash, dropDash, hopens, bne, bne, beq_toLower (by decide), ih, ih]
    split <;> rfl

theorem dropBang_lower (place : Place) (text : List Char) :
    dropBang place (lower text) = lower (dropBang place text) := by
  have hbang (c : Char) : c.toLower = '!' ↔ c = '!' := toLower_eq_iff (by decide)
  fun_induction dropBang place text with
  | case1 place => cases place <;> rfl
  | case2 c rest ih =>
    rw [lower_cons, dropBang, ← ih]
    simp only [hbang]
  | case3 rest ih => exact ih
  | case4 c rest hc hblank ih =>
    rw [lower_cons, dropBang, if_neg (mt (hbang c).1 hc), isBlank_toLower, if_pos hblank, ih]
  | case5 c rest hc hblank ih =>
    rw [lower_cons, dropBang, if_neg (mt (hbang c).1 hc), isBlank_toLower, if_neg hblank, ih,
      lower_cons]
  | case6 rest ih => exact ih
  | case7 c rest hc hopens ih =>
    rw [lower_cons, dropBang, if_neg (mt (hbang c).1 hc), isBlank_toLower, opensBang_lower,
      if_pos hopens, ih]
  | case8 c rest hc hopens ih =>
    rw [lower_cons, dropBang, if_neg (mt (hbang c).1 hc), isBlank_toLower, opensBang_lower,
      if_neg hopens, ih, lower_cons]

@[simp] theorem strip_lower (line : Line) : strip (lower line) = lower (strip line) := by
  unfold strip
  rw [dropDash_lower, dropBang_lower]

end Comment

section Keywords

theorem ofWord?_lower (word : List Char) : Keyword.ofWord? (lower word) = Keyword.ofWord? word := by
  have hlower : (lower word).map Char.toLower = word.map Char.toLower := lower_lower word
  unfold Keyword.ofWord? sameAsciiCase
  rw [hlower]

theorem evenQuotes_lower (text : List Char) : evenQuotes (lower text) = evenQuotes text := by
  unfold evenQuotes
  rw [count_lower (by decide)]

theorem liveKeyword?_lower (before : Option Char) (text : List Char) :
    liveKeyword? (before.map Char.toLower) (lower text) = liveKeyword? before text := by
  have hcaret (o : Option Char) : (o.map Char.toLower == some '^') = (o == some '^') := by
    cases o with
    | none => rfl
    | some c => exact beq_toLower (by decide) c
  have hword : (before.map Char.toLower).any isWord = before.any isWord := by
    cases before with
    | none => rfl
    | some c => exact isWord_toLower c
  have hhead (after : List Char) : (lower after).head? = after.head?.map Char.toLower := List.head?_map
  unfold liveKeyword?
  simp only [hword, hcaret, takeWhile_lower isWord_toLower, dropWhile_lower isWord_toLower,
    ofWord?_lower, hhead, evenQuotes_lower]

theorem keywordsAfter_lower (before : Option Char) (text : List Char) :
    keywordsAfter (before.map Char.toLower) (lower text) = keywordsAfter before text := by
  induction text generalizing before with
  | nil => rfl
  | cons c rest ih =>
    have hlive := liveKeyword?_lower before (c :: rest)
    have hrest := ih (some c)
    rw [lower_cons] at hlive ⊢
    rw [keywordsAfter, keywordsAfter, hlive, ← hrest, Option.map_some]

@[simp] theorem keywords_lower (code : List Char) : keywords (lower code) = keywords code :=
  keywordsAfter_lower none code

@[simp] theorem blockWords_lower (line : Line) :
    Fold.blockWords (lower line) = Fold.blockWords line := by
  unfold Fold.blockWords blockKeywords
  rw [Comment.strip_lower, keywords_lower]

end Keywords

namespace Declaration

def lower (d : Declaration) : Declaration :=
  { d with name := Text.lower d.name }

theorem skipWidth?_lower (text : List Char) :
    skipWidth? (Text.lower text) = (skipWidth? text).map Text.lower := by
  cases text with
  | nil => rfl
  | cons c rest =>
    by_cases hstar : c = '*'
    · subst hstar
      rfl
    · have hstar' : c.toLower ≠ '*' := mt (toLower_eq_iff (by decide)).1 hstar
      cases hc : c.isDigit with
      | true =>
        have hc' : c.toLower.isDigit = true := (isDigit_toLower c).trans hc
        rw [lower_cons, skipWidth?_digit hc, skipWidth?_digit hc', Option.map_some]
        cases rest with
        | nil => rfl
        | cons d more =>
          have hd : d.toLower.isDigit = d.isDigit := isDigit_toLower d
          cases hdigit : d.isDigit <;> simp [hd, hdigit]
      | false =>
        have hc' : c.toLower.isDigit = false := (isDigit_toLower c).trans hc
        rw [lower_cons, skipWidth?_name hstar hc, skipWidth?_name hstar' hc', ← lower_cons,
          skipName?_lower]

theorem skipParens?_eq (text : List Char) :
    skipParens? text = (past? '(' (trimStart text)).bind fun inner =>
      ((skipWidth? (trimStart inner)).map trimStart).bind (past? ')') := by
  unfold skipParens?
  split
  · next inner hopen =>
    rw [hopen, past?_self, Option.bind_some]
    split
    · next rest hclose => rw [hclose, Option.bind_some, past?_self]
    · next hclose => rw [bind_past?_eq_none hclose]
  · next hopen => rw [past?_eq_none hopen, Option.bind_none]

theorem skipParens?_lower (text : List Char) :
    skipParens? (Text.lower text) = (skipParens? text).map Text.lower := by
  rw [skipParens?_eq, skipParens?_eq, trimStart_lower, past?_lower (by decide)]
  apply bind_lower
  intro inner
  rw [trimStart_lower, skipWidth?_lower, map_trimStart_lower, bind_lower (past?_lower (by decide))]

theorem skipLinkage_lower (text : List Char) :
    skipLinkage (Text.lower text) = Text.lower (skipLinkage text) := by
  unfold skipLinkage
  rw [skipOneOf?_lower, bind_lower skipBlanks?_lower]
  cases (skipOneOf? linkageWords text).bind skipBlanks? <;> rfl

theorem skipType_lower (text : List Char) :
    skipType (Text.lower text) = Text.lower (skipType text) := by
  unfold skipType
  rw [skipOneOf?_lower]
  cases skipOneOf? typeWords text with
  | none => rfl
  | some rest =>
    simp only [Option.map_some, skipParens?_lower]
    cases skipParens? rest <;> rfl

theorem named?_lower (routine : Routine) (text : List Char) :
    named? routine (Text.lower text) = (named? routine text).map lower := by
  unfold named?
  rw [skipWord?_lower, bind_lower skipBlanks?_lower]
  apply bind_lower
  intro rest
  rw [name?_lower, Option.map_map, Option.map_map]
  rfl

@[simp] theorem parse?_lower (code : List Char) :
    parse? (Text.lower code) = (parse? code).map lower := by
  unfold parse?
  simp only [trimStart_lower, skipLinkage_lower, skipType_lower, named?_lower]
  rw [Option.map_or]

end Declaration

namespace Toggle

def lower (t : Toggle) : Toggle :=
  { t with id := Text.lower t.id }

theorem spelled?_lower (kind : ToggleKind) (word text : List Char) :
    spelled? kind word (Text.lower text) = (spelled? kind word text).map lower := by
  unfold spelled?
  rw [skipWord?_lower, bind_lower skipBlanks?_lower]
  cases (skipWord? word text).bind skipBlanks? with
  | none => rfl
  | some rest =>
    simp only [Option.map_some, takeWhile_lower isNameChar_toLower, isEmpty_lower]
    split <;> rfl

theorem parse?_eq (line : Line) :
    parse? line = (past? '?' line).bind fun text =>
      words.findSome? fun (kind, word) => spelled? kind word text := by
  unfold parse?
  split
  · rw [past?_self, Option.bind_some]
  · next hmark => rw [past?_eq_none hmark, Option.bind_none]

@[simp] theorem parse?_lower (line : Line) : parse? (Text.lower line) = (parse? line).map lower := by
  rw [parse?_eq, parse?_eq, past?_lower (by decide)]
  apply bind_lower
  intro text
  rw [List.map_findSome?]
  congr 1
  funext ⟨kind, word⟩
  exact spelled?_lower kind word text

end Toggle

section Headings

theorem sectionName?_eq (line : Line) :
    sectionName? line = (past? '?' line).bind fun text =>
      ((skipWord? ['s', 'e', 'c', 't', 'i', 'o', 'n'] (trimStart text)).bind skipBlanks?).bind
        name? := by
  unfold sectionName?
  split
  · rw [past?_self, Option.bind_some]
  · next hmark => rw [past?_eq_none hmark, Option.bind_none]

theorem sectionName?_lower (line : Line) :
    sectionName? (lower line) = (sectionName? line).map lower := by
  rw [sectionName?_eq, sectionName?_eq, past?_lower (by decide)]
  apply bind_lower
  intro text
  rw [trimStart_lower, skipWord?_lower, bind_lower skipBlanks?_lower, bind_lower name?_lower]

theorem quoted?_lower (text : List Char) : quoted? (lower text) = (quoted? text).map lower := by
  have hquote (c : Char) : (c.toLower != '"') = (c != '"') := by
    rw [bne, bne, beq_toLower (by decide)]
  unfold quoted?
  simp only [takeWhile_lower (p := (· != '"')) hquote, dropWhile_lower (p := (· != '"')) hquote,
    isEmpty_lower]
  split <;> rfl

theorem pageTitle?_eq (line : Line) :
    pageTitle? line = (past? '?' line).bind fun text =>
      (((skipWord? ['p', 'a', 'g', 'e'] (trimStart text)).map trimStart).bind (past? '"')).bind
        quoted? := by
  unfold pageTitle?
  split
  · rw [past?_self, Option.bind_some]
    split
    · next rest hquote => rw [hquote, Option.bind_some, past?_self, Option.bind_some]
    · next hquote => rw [bind_past?_eq_none hquote, Option.bind_none]
  · next hmark => rw [past?_eq_none hmark, Option.bind_none]

theorem pageTitle?_lower (line : Line) : pageTitle? (lower line) = (pageTitle? line).map lower := by
  rw [pageTitle?_eq, pageTitle?_eq, past?_lower (by decide)]
  apply bind_lower
  intro text
  rw [trimStart_lower, skipWord?_lower, map_trimStart_lower, bind_lower (past?_lower (by decide)),
    bind_lower quoted?_lower]

end Headings

namespace Fold

/-- The two marks of comments are looked for in the same way. -/
theorem isCommentLine_eq (line : Line) :
    isCommentLine line = (decide ((line.takeWhile isBlank).length ≤ maxCommentIndent) &&
      (Comment.opensDash line ||
        Comment.opensBang line && (trimStart (Comment.strip line)).isEmpty)) := by
  unfold isCommentLine Comment.opensDash Comment.opensBang
  congr 1
  split
  · next h =>
    rw [h]
    rfl
  · next h =>
    rw [h]
    rfl
  · next hdash hbang =>
    have hnodash : ['-', '-'].isPrefixOf (trimStart line) = false := isPrefixOf_eq_false hdash
    have hnobang : ['!'].isPrefixOf (trimStart line) = false := isPrefixOf_eq_false hbang
    rw [hnodash, hnobang]
    rfl

@[simp] theorem isCommentLine_lower (line : Line) :
    isCommentLine (lower line) = isCommentLine line := by
  have hindent : ((lower line).takeWhile isBlank).length = (line.takeWhile isBlank).length := by
    rw [takeWhile_lower isBlank_toLower]
    exact List.length_map _
  rw [isCommentLine_eq, isCommentLine_eq, hindent, Comment.opensDash_lower, Comment.opensBang_lower,
    Comment.strip_lower, trimStart_lower, isEmpty_lower]

end Fold

end TalOutline
