import TalOutline.Outline.Heading
import TalOutline.Proofs.Text.Spelling

/-!
The grammar of directives. The word of a toggle ends where white space begins, so a shorter word is not
taken for the beginning of a longer one. The words of toggles, sections and pages begin differently, and
no line is a directive of two sorts.
-/
namespace TalOutline

open Text

/-- The question mark, the word of the toggle, white space and the id, as long as it can be. -/
inductive Toggle.Written (t : Toggle) (line : Line) : Prop
  | mk {word spelling gap rest : List Char}
    (split : line = '?' :: (spelling ++ (gap ++ (t.id ++ rest)))) (mem : (t.kind, word) ∈ words)
    (spells : Spells spelling word) (blank : AllBlank gap) (gap_ne : gap ≠ []) (id_ne : t.id ≠ [])
    (id_chars : ∀ c ∈ t.id, NameChar c) (ends : EndsName rest)

/-- The question mark, perhaps white space, the word, white space and a name, as long as it can be. -/
inductive SectionLine (name : List Char) (line : Line) : Prop
  | mk {indent spelling gap rest : List Char}
    (split : line = '?' :: (indent ++ (spelling ++ (gap ++ (name ++ rest)))))
    (indent_blank : AllBlank indent) (spells : Spells spelling ['s', 'e', 'c', 't', 'i', 'o', 'n'])
    (blank : AllBlank gap) (gap_ne : gap ≠ []) (isName : IsName name) (ends : EndsName rest)

/-- The question mark, the word with perhaps white space around it, and a heading in quotes. -/
inductive PageLine (title : List Char) (line : Line) : Prop
  | mk {indent spelling gap rest : List Char}
    (split : line = '?' :: (indent ++ (spelling ++ (gap ++ '"' :: (title ++ '"' :: rest)))))
    (indent_blank : AllBlank indent) (spells : Spells spelling ['p', 'a', 'g', 'e'])
    (blank : AllBlank gap) (title_ne : title ≠ []) (unquoted : '"' ∉ title)

namespace Toggle

variable {t t' : Toggle} {kind : ToggleKind} {word text : List Char} {line : Line}

theorem spelled?_eq_some_iff :
    spelled? kind word text = some t ↔ t.kind = kind ∧ t.id ≠ [] ∧ (∀ c ∈ t.id, NameChar c) ∧
      ∃ spelling gap rest, Spells spelling word ∧ AllBlank gap ∧ gap ≠ [] ∧ EndsName rest ∧
        text = spelling ++ (gap ++ (t.id ++ rest)) := by
  unfold spelled?
  constructor
  · intro h
    split at h
    · cases h
    · next behind hskip =>
      obtain ⟨spelling, gap, hspells, hgap, hne, -, rfl⟩ := skipWord?_bind_eq_some_iff.1 hskip
      obtain ⟨id, rest, rfl, hid, hrest⟩ := exists_run isNameChar behind
      rw [takeWhile_run hid hrest] at h
      dsimp only at h
      split at h
      · cases h
      · next hempty =>
        obtain rfl := Option.some.inj h
        refine ⟨rfl, ?_, ?_, spelling, gap, rest, hspells, hgap, hne, endsName_iff.2 hrest, rfl⟩
        · exact mt List.isEmpty_iff.2 hempty
        · intro c hc
          exact isNameChar_iff.1 (hid c hc)
  · intro h
    obtain ⟨rfl, hne, hid, spelling, gap, rest, hspells, hgap, hgapne, hrest, rfl⟩ := h
    have hskip := skipWord?_bind_eq_some_iff.2
      ⟨spelling, gap, hspells, hgap, hgapne, head?_of_nameChars hne hid rest, rfl⟩
    have hread : (t.id ++ rest).takeWhile isNameChar = t.id :=
      takeWhile_run (fun c hc => isNameChar_iff.2 (hid c hc)) (endsName_iff.1 hrest)
    rw [hskip]
    dsimp only
    rw [hread, if_neg (mt List.isEmpty_iff.1 hne)]

/-- The word ends with the letters, the white space with the blanks, and the id with the name. -/
theorem Written.unique (h : t.Written line) (h' : t'.Written line) : t = t' := by
  obtain ⟨hsplit, hmem, hspells, hgap, hgapne, hne, hid, hrest⟩ := h
  obtain ⟨hsplit', hmem', hspells', hgap', hgapne', hne', hid', hrest'⟩ := h'
  have hlower : ∀ a ∈ words, a.2.all Char.isLower = true := by decide
  have hkinds : ∀ a ∈ words, ∀ b ∈ words, a.2 = b.2 → a = b := by decide
  obtain ⟨-, htext⟩ := List.cons.inj (hsplit.symm.trans hsplit')
  obtain ⟨rfl, hbehind⟩ := eq_of_run_append (fun c hc => hspells.isLetter (hlower _ hmem) hc)
    (not_letter_of_gap hgap hgapne _) (fun c hc => hspells'.isLetter (hlower _ hmem') hc)
    (not_letter_of_gap hgap' hgapne' _) htext
  obtain ⟨-, hnamed⟩ := eq_of_run_append hgap (head?_of_nameChars hne hid _) hgap'
    (head?_of_nameChars hne' hid' _) hbehind
  obtain ⟨hids, -⟩ := eq_of_run_append (fun c hc => isNameChar_iff.2 (hid c hc))
    (endsName_iff.1 hrest) (fun c hc => isNameChar_iff.2 (hid' c hc)) (endsName_iff.1 hrest') hnamed
  have hkind := congrArg Prod.fst (hkinds _ hmem _ hmem' (hspells.symm.trans hspells'))
  obtain ⟨kind, id⟩ := t
  obtain ⟨kind', id'⟩ := t'
  exact congrArg₂ Toggle.mk hkind hids

theorem parse?_eq_some_iff : parse? line = some t ↔ t.Written line := by
  have hsound {u : Toggle} (h : parse? line = some u) : u.Written line := by
    unfold parse? at h
    split at h
    · next text =>
      obtain ⟨⟨kind, word⟩, hmem, hread⟩ := List.exists_of_findSome?_eq_some h
      obtain ⟨rfl, hne, hid, spelling, gap, rest, hspells, hgap, hgapne, hrest, rfl⟩ :=
        spelled?_eq_some_iff.1 hread
      exact ⟨rfl, hmem, hspells, hgap, hgapne, hne, hid, hrest⟩
    · cases h
  constructor
  · exact hsound
  · intro h
    cases hparse : parse? line with
    | some u => rw [(hsound hparse).unique h]
    | none =>
      -- The word that is written there is one of those tried.
      obtain ⟨hsplit, hmem, hspells, hgap, hgapne, hne, hid, hrest⟩ := h
      subst hsplit
      have hnone := List.findSome?_eq_none_iff.1 hparse _ hmem
      have hread := spelled?_eq_some_iff.2 ⟨rfl, hne, hid, _, _, _, hspells, hgap, hgapne, hrest, rfl⟩
      cases hnone.symm.trans hread

end Toggle

section Headings

variable {name title text : List Char} {line : Line}

theorem sectionName?_eq_some_iff : sectionName? line = some name ↔ SectionLine name line := by
  constructor
  · intro h
    unfold sectionName? at h
    split at h
    · next text =>
      obtain ⟨behind, hword, hname⟩ := Option.bind_eq_some_iff.1 h
      obtain ⟨indent, hindent, htext⟩ := exists_gap text
      obtain ⟨spelling, gap, hspells, hgap, hne, -, htrim⟩ := skipWord?_bind_eq_some_iff.1 hword
      obtain ⟨hn, rest, hrest, rfl⟩ := name?_eq_some_iff.1 hname
      rw [htrim] at htext
      exact ⟨congrArg _ htext, hindent, hspells, hgap, hne, hn, hrest⟩
    · cases h
  · intro h
    obtain @⟨indent, spelling, gap, rest, rfl, hindent, hspells, hgap, hne, hn, hrest⟩ := h
    have hletter := hspells.head? (by decide) (by decide) (gap ++ (name ++ rest))
    have hword := skipWord?_bind_eq_some_iff.2
      ⟨spelling, gap, hspells, hgap, hne, hn.head? rest, rfl⟩
    rw [sectionName?, trimStart_gap hindent (not_blank_of_head hletter), hword, Option.bind_some,
      hn.name? hrest]

theorem quoted?_eq_some_iff :
    quoted? text = some title ↔ title ≠ [] ∧ '"' ∉ title ∧ ∃ rest, text = title ++ '"' :: rest := by
  have hplain (s : List Char) : (∀ c ∈ s, (c != '"') = true) ↔ '"' ∉ s := by
    simp only [bne_iff_ne]
    exact List.forall_mem_ne'
  obtain ⟨run, behind, rfl, hrun, hstop⟩ := exists_run (· != '"') text
  unfold quoted?
  rw [takeWhile_run hrun hstop, dropWhile_run hrun hstop]
  dsimp only
  constructor
  · intro h
    split at h
    · cases h
    · next hboth =>
      obtain rfl := Option.some.inj h
      rw [Bool.or_eq_true, List.isEmpty_iff, List.isEmpty_iff, not_or] at hboth
      obtain ⟨c, rest, rfl⟩ := List.exists_cons_of_ne_nil hboth.2
      obtain rfl : c = '"' := by simpa using hstop
      exact ⟨hboth.1, (hplain run).1 hrun, rest, rfl⟩
  · intro h
    obtain ⟨hne, htitle, rest, heq⟩ := h
    obtain ⟨rfl, rfl⟩ := eq_of_run_append hrun hstop ((hplain title).2 htitle) rfl heq
    simp [hne]

theorem pageTitle?_eq_some_iff : pageTitle? line = some title ↔ PageLine title line := by
  constructor
  · intro h
    unfold pageTitle? at h
    split at h
    · next text =>
      split at h
      · next inner hword =>
        obtain ⟨behind, hskip, hquote⟩ := Option.map_eq_some_iff.1 hword
        obtain ⟨indent, hindent, htext⟩ := exists_gap text
        obtain ⟨spelling, hspells, htrim⟩ := skipWord?_eq_some_iff.1 hskip
        obtain ⟨gap, hgap, hbehind⟩ := exists_gap behind
        obtain ⟨hne, hplain, rest, rfl⟩ := quoted?_eq_some_iff.1 h
        rw [htrim, hbehind, hquote] at htext
        exact ⟨congrArg _ htext, hindent, hspells, hgap, hne, hplain⟩
      · cases h
    · cases h
  · intro h
    obtain @⟨indent, spelling, gap, rest, rfl, hindent, hspells, hgap, hne, hplain⟩ := h
    have hletter := hspells.head? (by decide) (by decide) (gap ++ '"' :: (title ++ '"' :: rest))
    have hopen : trimStart (gap ++ '"' :: (title ++ '"' :: rest)) = '"' :: (title ++ '"' :: rest) :=
      trimStart_gap hgap rfl
    unfold pageTitle?
    simp only [trimStart_gap hindent (not_blank_of_head hletter), hspells.skipWord?, Option.map_some,
      hopen]
    exact quoted?_eq_some_iff.2 ⟨hne, hplain, rest, rfl⟩

end Headings

/-- The word that stands behind the question mark, perhaps with white space between them. -/
def FirstWord (word : List Char) (line : Line) : Prop :=
  ∃ indent spelling rest, AllBlank indent ∧ Spells spelling word ∧
    line = '?' :: (indent ++ (spelling ++ rest))

/-- The words of toggles, sections and pages. -/
def directiveWords : List (List Char) :=
  Toggle.words.map Prod.snd ++ [['s', 'e', 'c', 't', 'i', 'o', 'n'], ['p', 'a', 'g', 'e']]

section FirstWord

variable {v w : List Char} {line : Line}

theorem FirstWord.not_apart (hv : v ∈ directiveWords) (hw : w ∈ directiveWords)
    (h : FirstWord v line) (h' : FirstWord w line) : ¬ Apart v w := by
  have hall : ∀ u ∈ directiveWords, u.all Char.isLower = true ∧ u ≠ [] := by decide
  obtain ⟨indent, spelling, rest, hindent, hspells, rfl⟩ := h
  obtain ⟨indent', spelling', rest', hindent', hspells', heq⟩ := h'
  have htrim : trimStart (indent ++ (spelling ++ rest)) = spelling ++ rest :=
    trimStart_gap hindent (not_blank_of_head (hspells.head? (hall v hv).1 (hall v hv).2 rest))
  have htrim' : trimStart (indent' ++ (spelling' ++ rest')) = spelling' ++ rest' :=
    trimStart_gap hindent' (not_blank_of_head (hspells'.head? (hall w hw).1 (hall w hw).2 rest'))
  rw [(List.cons.inj heq).2, htrim'] at htrim
  exact fun hapart => not_or.2 hapart (hspells.comparable hspells' htrim.symm)

theorem Toggle.Written.firstWord {t : Toggle} (h : t.Written line) :
    ∃ word ∈ Toggle.words.map Prod.snd, FirstWord word line := by
  obtain ⟨hsplit, hmem, hspells, -⟩ := h
  exact ⟨_, List.mem_map_of_mem hmem, [], _, _, nofun, hspells, hsplit⟩

theorem SectionLine.firstWord {name : List Char} (h : SectionLine name line) :
    FirstWord ['s', 'e', 'c', 't', 'i', 'o', 'n'] line := by
  obtain ⟨hsplit, hindent, hspells, -⟩ := h
  exact ⟨_, _, _, hindent, hspells, hsplit⟩

theorem PageLine.firstWord {title : List Char} (h : PageLine title line) :
    FirstWord ['p', 'a', 'g', 'e'] line := by
  obtain ⟨hsplit, hindent, hspells, -⟩ := h
  exact ⟨_, _, _, hindent, hspells, hsplit⟩

/-- A toggle is neither a section nor a page. -/
theorem Toggle.Written.not_heading {t : Toggle} (h : t.Written line) :
    (∀ name, ¬ SectionLine name line) ∧ ∀ title, ¬ PageLine title line := by
  have hapart : ∀ v ∈ Toggle.words.map Prod.snd, v ∈ directiveWords ∧
      Apart v ['s', 'e', 'c', 't', 'i', 'o', 'n'] ∧ Apart v ['p', 'a', 'g', 'e'] := by
    decide
  obtain ⟨word, hmem, hfirst⟩ := h.firstWord
  obtain ⟨hword, hsection, hpage⟩ := hapart word hmem
  constructor
  · intro name hname
    exact hfirst.not_apart hword (by decide) hname.firstWord hsection
  · intro title htitle
    exact hfirst.not_apart hword (by decide) htitle.firstWord hpage

theorem SectionLine.not_page {name title : List Char} (h : SectionLine name line) :
    ¬ PageLine title line := by
  intro hpage
  exact h.firstWord.not_apart (by decide) (by decide +kernel) hpage.firstWord
    (by decide)

end FirstWord

/--
Each sort of directive is read just from the lines that have its form, with the id, the name or the
heading that the form has there. No line is a directive of two sorts, so a line that counts for the
folds does not count for the outline.
-/
theorem directives_exact (line : Line) :
    (∀ t, Toggle.parse? line = some t ↔ t.Written line) ∧
    (∀ name, sectionName? line = some name ↔ SectionLine name line) ∧
    (∀ title, pageTitle? line = some title ↔ PageLine title line) ∧
    ((Toggle.parse? line).isSome = true → sectionName? line = none ∧ pageTitle? line = none ∧
      ∀ n, Heading.ofLine? n line = none) ∧
    ((sectionName? line).isSome = true → pageTitle? line = none) := by
  refine ⟨fun t => Toggle.parse?_eq_some_iff, fun name => sectionName?_eq_some_iff,
    fun title => pageTitle?_eq_some_iff, ?_, ?_⟩
  · intro h
    obtain ⟨t, ht⟩ := Option.isSome_iff_exists.1 h
    obtain ⟨hsection, hpage⟩ := (Toggle.parse?_eq_some_iff.1 ht).not_heading
    have hname : sectionName? line = none := Option.eq_none_iff_forall_ne_some.2
      fun name hname => hsection name (sectionName?_eq_some_iff.1 hname)
    have htitle : pageTitle? line = none := Option.eq_none_iff_forall_ne_some.2
      fun title htitle => hpage title (pageTitle?_eq_some_iff.1 htitle)
    refine ⟨hname, htitle, ?_⟩
    intro n
    rw [Heading.ofLine?, hname, htitle]
    rfl
  · intro h
    obtain ⟨name, hname⟩ := Option.isSome_iff_exists.1 h
    exact Option.eq_none_iff_forall_ne_some.2 fun title htitle =>
      (sectionName?_eq_some_iff.1 hname).not_page (pageTitle?_eq_some_iff.1 htitle)

example : Toggle.parse? "?IF not a".toList = some ⟨.ifSet, "not".toList⟩ := by decide

/-- A toggle whose id goes on behind a caret, and a heading with white space before its quote. -/
theorem directives_exact_ids :
    Toggle.Written ⟨.ifNot, "a^1".toList⟩ "?ifnot  a^1-b".toList ∧
    (∀ n, Heading.ofLine? n "?ifnot  a^1-b".toList = none) ∧
    PageLine "b c".toList "? Page \t\"b c\" d".toList := by
  obtain ⟨htoggle, -, -, hapart, -⟩ := directives_exact "?ifnot  a^1-b".toList
  obtain ⟨-, -, hpage, -, -⟩ := directives_exact "? Page \t\"b c\" d".toList
  have hread : Toggle.parse? "?ifnot  a^1-b".toList = some ⟨.ifNot, "a^1".toList⟩ := by
    decide
  have htitle : pageTitle? "? Page \t\"b c\" d".toList = some "b c".toList := by decide
  have hsome : (Toggle.parse? "?ifnot  a^1-b".toList).isSome = true := by rw [hread]; rfl
  exact ⟨(htoggle _).1 hread, (hapart hsome).2.2, (hpage _).1 htitle⟩

end TalOutline
