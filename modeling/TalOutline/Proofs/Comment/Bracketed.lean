import Mathlib.Data.List.DropRight
import TalOutline.Comment
import TalOutline.Proofs.Keyword.Junction

/-!
A comment between two texts goes away with the white space around it, so the texts are written together.
The keywords are those of the texts with a blank in place of the comment, unless the words on its two
sides then cling to each other and one of them, or both together, are a keyword.
-/
namespace TalOutline

open Text

namespace Comment

/-- A text of one line without comment marks. -/
structure Plain (text : List Char) : Prop where
  noNewline : '\n' ∉ text
  noBang : '!' ∉ text
  noDash : ¬ ['-', '-'] <:+: text

/-- Two texts with a bang comment between them. -/
def commented (a c b : List Char) : Line :=
  a ++ [' ', '!'] ++ c ++ ['!', ' '] ++ b

section Dash

theorem dropDash_eq_self {text : List Char} (h : ¬ ['-', '-'] <:+: text) :
    dropDash false text = text := by
  induction text with
  | nil => rfl
  | cons c rest ih =>
    have hopens : opensDash (c :: rest) = false := by
      apply Bool.eq_false_iff.2
      intro hdash
      apply h
      have hstarts : ['-', '-'] <+: trimStart (c :: rest) := List.isPrefixOf_iff_prefix.1 hdash
      exact hstarts.isInfix.trans (List.dropWhile_suffix isBlank).isInfix
    have hrest : ¬ ['-', '-'] <:+: rest := mt List.infix_cons h
    rw [dropDash, hopens, ih hrest]
    rfl

theorem not_dashes_append {s t : List Char} {d : Char} (hs : ¬ ['-', '-'] <:+: s)
    (ht : ¬ ['-', '-'] <:+: t) (hd : d ≠ '-') : ¬ ['-', '-'] <:+: s ++ d :: t := by
  induction s with
  | nil =>
    rw [List.nil_append, List.infix_cons_iff]
    rintro (hstarts | hdashes)
    · exact hd (List.cons_prefix_cons.1 hstarts).1.symm
    · exact ht hdashes
  | cons e s ih =>
    have hrest : ¬ ['-', '-'] <:+: s := mt List.infix_cons hs
    rw [List.cons_append, List.infix_cons_iff]
    rintro (hstarts | hdashes)
    · obtain ⟨rfl, hnext⟩ := List.cons_prefix_cons.1 hstarts
      cases s with
      | nil => exact hd (List.cons_prefix_cons.1 hnext).1.symm
      | cons f s =>
        obtain ⟨rfl, -⟩ := List.cons_prefix_cons.1 hnext
        exact hs ⟨[], s, rfl⟩
    · exact ih hrest hdashes

end Dash

section Bang

variable {p : List Char}

theorem trimEnd_of_blank (hp : ∀ c ∈ p, isBlank c = true) : trimEnd p = [] :=
  List.rdropWhile_eq_nil_iff.2 hp

theorem trimEnd_cons (c : Char) (p : List Char) :
    trimEnd (c :: p) = if isBlank c && p.all isBlank then [] else c :: trimEnd p := by
  have hempty : (p.reverse.dropWhile isBlank).isEmpty = p.all isBlank := by
    rw [Bool.eq_iff_iff, List.isEmpty_iff, List.dropWhile_eq_nil_iff, List.all_eq_true]
    simp
  unfold trimEnd
  rw [List.reverse_cons, List.dropWhile_append, hempty]
  cases hall : p.all isBlank with
  | false => simp
  | true =>
    have hnil : p.reverse.dropWhile isBlank = [] := by
      rw [← List.isEmpty_iff, hempty, hall]
    cases hc : isBlank c <;> simp [hc, hnil]

theorem opensBang_append (hp : '!' ∉ p) (q : List Char) :
    opensBang (p ++ '!' :: q) = p.all isBlank := by
  induction p with
  | nil => rfl
  | cons c p ih =>
    obtain ⟨hc, hp⟩ := not_or.1 (mt List.mem_cons.2 hp)
    have hrest := ih hp
    unfold opensBang trimStart at hrest ⊢
    cases hblank : isBlank c with
    | true =>
      rw [List.cons_append, List.dropWhile_cons_of_pos hblank, hrest, List.all_cons, hblank]
      rfl
    | false =>
      rw [List.cons_append, List.dropWhile_cons_of_neg (by simp [hblank]), List.all_cons, hblank]
      simp [List.isPrefixOf, hc]

theorem opensBang_eq_false (hp : '!' ∉ p) : opensBang p = false := by
  apply Bool.eq_false_iff.2
  intro hopens
  have hstarts : ['!'] <+: trimStart p := List.isPrefixOf_iff_prefix.1 hopens
  exact hp ((List.dropWhile_suffix isBlank).subset (hstarts.subset List.mem_cons_self))

theorem dropBang_code_eq_self (hp : '!' ∉ p) : dropBang .code p = p := by
  induction p with
  | nil => rfl
  | cons c p ih =>
    obtain ⟨hc, hp⟩ := not_or.1 (mt List.mem_cons.2 hp)
    rw [dropBang, if_neg (Ne.symm hc), opensBang_eq_false hp, Bool.and_false, ih hp]
    rfl

/-- Code before a comment loses the white space at its end. -/
theorem dropBang_code_append (hp : '!' ∉ p) (q : List Char) :
    dropBang .code (p ++ '!' :: q) = trimEnd p ++ dropBang .inside q := by
  induction p with
  | nil => rfl
  | cons c p ih =>
    obtain ⟨hc, hp⟩ := not_or.1 (mt List.mem_cons.2 hp)
    rw [List.cons_append, dropBang, if_neg (Ne.symm hc), opensBang_append hp, ih hp, trimEnd_cons]
    split
    · next hblank =>
      rw [Bool.and_eq_true, List.all_eq_true] at hblank
      rw [trimEnd_of_blank hblank.2]
    · rfl

theorem dropBang_inside_skip (hp : '!' ∉ p) (q : List Char) :
    dropBang .inside (p ++ q) = dropBang .inside q := by
  induction p with
  | nil => rfl
  | cons c p ih =>
    obtain ⟨hc, hp⟩ := not_or.1 (mt List.mem_cons.2 hp)
    rw [List.cons_append, dropBang, if_neg (Ne.symm hc), ih hp]

theorem dropBang_inside_append (hp : '!' ∉ p) (q : List Char) :
    dropBang .inside (p ++ '!' :: q) = dropBang .behind q := by
  rw [dropBang_inside_skip hp, dropBang, if_pos rfl]

theorem dropBang_behind (q : List Char) : dropBang .behind q = dropBang .code (trimStart q) := by
  induction q with
  | nil => rfl
  | cons c q ih =>
    unfold trimStart at ih ⊢
    cases hblank : isBlank c with
    | true =>
      have hc : c ≠ '!' := by
        rintro rfl
        cases hblank
      rw [List.dropWhile_cons_of_pos hblank, ← ih, dropBang, if_neg hc, if_pos hblank]
    | false =>
      rw [List.dropWhile_cons_of_neg (by simp [hblank]), dropBang, dropBang, hblank]
      simp

end Bang

section Commented

variable {a b c : List Char}

theorem trimEnd_append_blank (a : List Char) : trimEnd (a ++ [' ']) = trimEnd a :=
  List.rdropWhile_concat_pos isBlank a ' ' (by decide)

/-- A comment goes away with the white space around it. -/
theorem strip_commented (ha : Plain a) (hb : Plain b) (hc : Plain c) :
    strip (commented a c b) = trimEnd a ++ trimStart b := by
  have hline : commented a c b = (a ++ [' ']) ++ '!' :: (c ++ '!' :: (' ' :: b)) := by
    simp [commented]
  have hdash : ¬ ['-', '-'] <:+: commented a c b := by
    have hnil : ¬ ['-', '-'] <:+: ([] : List Char) := by simp
    have hb := not_dashes_append hnil hb.noDash (d := ' ') (by decide)
    have hcb := not_dashes_append hnil (not_dashes_append hc.noDash hb (d := '!') (by decide))
      (d := '!') (by decide)
    have hall := not_dashes_append ha.noDash hcb (d := ' ') (by decide)
    simpa [commented] using hall
  have hbefore : '!' ∉ a ++ [' '] := by simp [ha.noBang]
  have hafter : '!' ∉ trimStart b := fun h => hb.noBang ((List.dropWhile_suffix isBlank).subset h)
  have hspace : trimStart (' ' :: b) = trimStart b := rfl
  unfold strip
  rw [dropDash_eq_self hdash, hline, dropBang_code_append hbefore, dropBang_inside_append hc.noBang,
    dropBang_behind, hspace, dropBang_code_eq_self hafter, trimEnd_append_blank]

theorem gap_of_blank {gap : List Char} (hblank : ∀ c ∈ gap, isBlank c = true) (hne : gap ≠ []) :
    Gap gap where
  ne_nil := hne
  loose := by
    have hall : (blanks.all fun c => !clings c) = true := by decide +kernel
    intro c hc
    have hnot := List.all_eq_true.1 hall c (isBlank_iff.1 (hblank c hc))
    simpa using hnot
  unquoted := by
    intro hquote
    exact absurd (hblank '"' hquote) (by decide)

/-- Any white space between two texts is as good as one blank. -/
theorem keywords_trim (a b : List Char) :
    keywords (trimEnd a ++ ' ' :: trimStart b) = keywords (a ++ ' ' :: b) := by
  have ha : trimEnd a ++ a.rtakeWhile isBlank = a := List.rdropWhile_append_rtakeWhile
  have hb : b.takeWhile isBlank ++ trimStart b = b := List.takeWhile_append_dropWhile
  have hblank : ∀ c ∈ a.rtakeWhile isBlank ++ ' ' :: b.takeWhile isBlank, isBlank c = true := by
    intro c hc
    rw [List.mem_append, List.mem_cons] at hc
    rcases hc with hc | rfl | hc
    · exact List.mem_rtakeWhile_imp hc
    · rfl
    · exact List.mem_takeWhile_imp hc
  have hgap := gap_of_blank hblank (by simp)
  have heq := Gap.space.keywords_eq hgap (trimEnd a) (trimStart b)
  have hline : trimEnd a ++ (a.rtakeWhile isBlank ++ ' ' :: b.takeWhile isBlank ++ trimStart b) =
      a ++ ' ' :: b := by
    rw [List.append_assoc, List.cons_append, hb, ← List.append_assoc, ha]
  rw [hline] at heq
  exact heq

/--
A comment between two texts goes away with the white space around it. The keywords are those of the two
texts with a blank between them, except exactly where the texts written together get or lose one.
-/
theorem keywords_commented_iff (ha : Plain a) (hb : Plain b) (hc : Plain c) :
    strip (commented a c b) = trimEnd a ++ trimStart b ∧
    (keywords (strip (commented a c b)) = keywords (a ++ ' ' :: b) ↔
      ¬ Altered (trimEnd a) (trimStart b)) := by
  have hstrip := strip_commented ha hb hc
  refine ⟨hstrip, ?_⟩
  rw [hstrip, ← keywords_trim]
  constructor
  · intro heq haltered
    exact haltered.keywords_ne heq
  · intro h
    exact keywords_meet_of_not_altered h

example : strip "a ! begin ! b".toList = "ab".toList := by decide +kernel

theorem keywords_commented_iff_punctuation :
    Plain "begin x;".toList ∧ Plain "end".toList ∧ Plain " old begin ".toList ∧
    keywords (strip (commented "begin x;".toList " old begin ".toList "end".toList)) =
      keywords ("begin x;".toList ++ ' ' :: "end".toList) := by
  have ha : Plain "begin x;".toList :=
    ⟨by decide +kernel, by decide +kernel, by decide +kernel⟩
  have hb : Plain "end".toList :=
    ⟨by decide +kernel, by decide +kernel, by decide +kernel⟩
  have hc : Plain " old begin ".toList :=
    ⟨by decide +kernel, by decide +kernel, by decide +kernel⟩
  have hloose : (trimEnd "begin x;".toList).getLast?.any clings = false := by decide +kernel
  obtain ⟨-, hiff⟩ := keywords_commented_iff ha hb hc
  exact ⟨ha, hb, hc, hiff.2 (not_altered_of_loose (.inl hloose))⟩

/-- A comment between two words may take a keyword away. -/
theorem not_keywords_commented :
    ¬ ∀ a b c : List Char, Plain a → Plain b → Plain c →
      keywords (strip (commented a c b)) = keywords (a ++ ' ' :: b) := by
  intro h
  have ha : Plain "x".toList := ⟨by decide +kernel, by decide +kernel, by decide +kernel⟩
  have hb : Plain "end".toList := ⟨by decide +kernel, by decide +kernel, by decide +kernel⟩
  have hc : Plain "c".toList := ⟨by decide +kernel, by decide +kernel, by decide +kernel⟩
  have heq := h "x".toList "end".toList "c".toList ha hb hc
  have hstripped : keywords (strip (commented "x".toList "c".toList "end".toList)) = [] := by
    decide +kernel
  have hblank : keywords ("x".toList ++ ' ' :: "end".toList) = [.blockEnd] := by
    decide +kernel
  rw [hstripped, hblank] at heq
  cases heq

end Commented

end Comment

end TalOutline
