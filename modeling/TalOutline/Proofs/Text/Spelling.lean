import TalOutline.Proofs.Text.Case
import TalOutline.Proofs.Text.Split

/-!
What stands at the start of a text: white space, fixed words in any case, and names. Each reader accepts
just the texts that begin with something of its kind, and leaves over what follows it.
-/
namespace TalOutline.Text

/-- White space, or nothing. -/
def AllBlank (gap : List Char) : Prop :=
  ∀ c ∈ gap, isBlank c = true

/-- A fixed word as it is written, in any case. -/
def Spells (spelling word : List Char) : Prop :=
  spelling.map foldCase = word

/-- A letter, a caret or an underscore. Long s and the Kelvin sign fold to ASCII letters. -/
def NameStart (c : Char) : Prop :=
  c.isAlpha = true ∨ c = '\u017f' ∨ c = '\u212a' ∨ c = '^' ∨ c = '_'

def NameChar (c : Char) : Prop :=
  NameStart c ∨ c.isDigit = true

inductive IsName : List Char → Prop
  | mk {c : Char} {rest : List Char} (start : NameStart c) (more : ∀ d ∈ rest, NameChar d) :
    IsName (c :: rest)

/-- A text that does not carry on a name in front of it. -/
def EndsName (rest : List Char) : Prop :=
  ∀ c ∈ rest.head?, ¬ NameChar c

section Characters

variable {c : Char}

theorem isLetter_iff : isLetter c = true ↔ c.isAlpha = true ∨ c = '\u017f' ∨ c = '\u212a' := by
  unfold isLetter foldCase
  by_cases hlong : c = '\u017f'
  · subst hlong
    decide
  · by_cases hkelvin : c = '\u212a'
    · subst hkelvin
      decide
    · rw [if_neg hlong, if_neg hkelvin, isLower_toLower]
      simp only [hlong, hkelvin, or_false]

theorem isNameStart_iff : isNameStart c = true ↔ NameStart c := by
  unfold isNameStart NameStart
  rw [Bool.or_eq_true, Bool.or_eq_true, isLetter_iff, beq_iff_eq, beq_iff_eq]
  simp only [or_assoc]

theorem isNameChar_iff : isNameChar c = true ↔ NameChar c := by
  unfold isNameChar NameChar
  rw [Bool.or_eq_true, isNameStart_iff]

theorem isBlank_of_isNameChar (h : isNameChar c = true) : isBlank c = false := by
  apply Bool.eq_false_iff.2
  intro hblank
  have hall : (blanks.all fun d => !isNameChar d) = true := by decide
  have hnot := List.all_eq_true.1 hall c (isBlank_iff.1 hblank)
  rw [h] at hnot
  cases hnot

theorem isNameChar_of_isLetter (h : isLetter c = true) : isNameChar c = true := by
  unfold isNameChar isNameStart
  rw [h]
  rfl

end Characters

theorem endsName_iff {rest : List Char} : EndsName rest ↔ rest.head?.any isNameChar = false := by
  unfold EndsName
  cases rest with
  | nil => simp
  | cons c rest => simp [← isNameChar_iff]

section Blanks

variable {gap text rest : List Char}

theorem trimStart_append_of_blank (hgap : AllBlank gap) (text : List Char) :
    trimStart (gap ++ text) = trimStart text :=
  List.dropWhile_append_of_pos hgap

theorem trimStart_gap (hgap : AllBlank gap) (h : text.head?.any isBlank = false) :
    trimStart (gap ++ text) = text :=
  dropWhile_run hgap h

theorem trimStart_of_head (h : text.head?.any isBlank = false) : trimStart text = text := by
  have hnil : AllBlank [] := nofun
  exact trimStart_gap hnil h

theorem head?_trimStart (text : List Char) : (trimStart text).head?.any isBlank = false :=
  any_head?_dropWhile isBlank text

theorem exists_gap (text : List Char) : ∃ gap, AllBlank gap ∧ text = gap ++ trimStart text :=
  ⟨text.takeWhile isBlank, fun _ hc => List.mem_takeWhile_imp hc,
    List.takeWhile_append_dropWhile.symm⟩

theorem skipBlanks?_append (hgap : AllBlank gap) (hne : gap ≠ []) (text : List Char) :
    skipBlanks? (gap ++ text) = some (trimStart text) := by
  obtain ⟨c, gap, rfl⟩ := List.exists_cons_of_ne_nil hne
  obtain ⟨hc, hgap⟩ := List.forall_mem_cons.1 hgap
  rw [List.cons_append, skipBlanks?, if_pos hc, trimStart_append_of_blank hgap]

theorem skipBlanks?_eq_some_iff :
    skipBlanks? text = some rest ↔
      ∃ gap, AllBlank gap ∧ gap ≠ [] ∧ text = gap ++ rest ∧ rest.head?.any isBlank = false := by
  constructor
  · intro h
    cases text with
    | nil => cases h
    | cons c text =>
      rw [skipBlanks?] at h
      split at h
      · next hc =>
        obtain rfl := Option.some.inj h
        obtain ⟨gap, hgap, htext⟩ := exists_gap text
        refine ⟨c :: gap, List.forall_mem_cons.2 ⟨hc, hgap⟩, List.cons_ne_nil c gap, ?_,
          head?_trimStart text⟩
        rw [List.cons_append, ← htext]
      · cases h
  · intro h
    obtain ⟨gap, hgap, hne, rfl, hrest⟩ := h
    rw [skipBlanks?_append hgap hne, trimStart_of_head hrest]

theorem endsName_append (hgap : AllBlank gap) (h : EndsName rest) : EndsName (gap ++ rest) := by
  cases gap with
  | nil => exact h
  | cons c gap =>
    have hblank : isBlank c = true := hgap c List.mem_cons_self
    apply endsName_iff.2
    apply Bool.eq_false_iff.2
    intro hname
    have hname : isNameChar c = true := hname
    rw [isBlank_of_isNameChar hname] at hblank
    cases hblank

end Blanks

section Words

variable {word spelling text rest : List Char}

theorem skipWord?_eq_some_iff :
    skipWord? word text = some rest ↔ ∃ spelling, Spells spelling word ∧ text = spelling ++ rest := by
  unfold Spells
  fun_induction skipWord? word text with
  | case1 text => simp [eq_comm]
  | case2 w word => simp
  | case3 word c text ih =>
    rw [ih]
    constructor
    · intro h
      obtain ⟨spelling, hspelling, htext⟩ := h
      exact ⟨c :: spelling, by rw [List.map_cons, hspelling], by rw [htext, List.cons_append]⟩
    · intro h
      obtain ⟨spelling, hspelling, htext⟩ := h
      obtain ⟨d, spelling, rfl, -, hspelling⟩ := List.map_eq_cons_iff.1 hspelling
      obtain ⟨-, htext⟩ := List.cons.inj htext
      exact ⟨spelling, hspelling, htext⟩
  | case4 w word c text hne =>
    constructor
    · intro h
      cases h
    · intro h
      obtain ⟨spelling, hspelling, htext⟩ := h
      obtain ⟨d, spelling, rfl, hd, -⟩ := List.map_eq_cons_iff.1 hspelling
      obtain ⟨rfl, -⟩ := List.cons.inj htext
      exact absurd hd hne

theorem Spells.length_eq (h : Spells spelling word) : spelling.length = word.length := by
  rw [← h, List.length_map]

theorem Spells.skipWord? (h : Spells spelling word) (rest : List Char) :
    skipWord? word (spelling ++ rest) = some rest :=
  skipWord?_eq_some_iff.2 ⟨spelling, h, rfl⟩

/-- A word and the white space behind it. -/
theorem skipWord?_bind_eq_some_iff :
    (skipWord? word text).bind skipBlanks? = some rest ↔
      ∃ spelling gap, Spells spelling word ∧ AllBlank gap ∧ gap ≠ [] ∧
        rest.head?.any isBlank = false ∧ text = spelling ++ (gap ++ rest) := by
  constructor
  · intro h
    obtain ⟨left, hword, hblanks⟩ := Option.bind_eq_some_iff.1 h
    obtain ⟨spelling, hspells, rfl⟩ := skipWord?_eq_some_iff.1 hword
    obtain ⟨gap, hgap, hne, rfl, hrest⟩ := skipBlanks?_eq_some_iff.1 hblanks
    exact ⟨spelling, gap, hspells, hgap, hne, hrest, rfl⟩
  · intro h
    obtain ⟨spelling, gap, hspells, hgap, hne, hrest, rfl⟩ := h
    rw [hspells.skipWord?, Option.bind_some, skipBlanks?_append hgap hne, trimStart_of_head hrest]

/-- Of two words that a text begins with, the shorter is the beginning of the longer. -/
theorem Spells.comparable {spelling' word' rest' : List Char} (h : Spells spelling word)
    (h' : Spells spelling' word') (heq : spelling ++ rest = spelling' ++ rest') :
    word <+: word' ∨ word' <+: word := by
  have hfold : word ++ rest.map foldCase = word' ++ rest'.map foldCase := by
    unfold Spells at h h'
    rw [← h, ← h', ← List.map_append, ← List.map_append, heq]
  have hprefix : word' <+: word ++ rest.map foldCase := hfold ▸ List.prefix_append _ _
  exact List.prefix_or_prefix_of_prefix (List.prefix_append _ _) hprefix

/-- A word of letters is written in letters. -/
theorem Spells.isLetter (h : Spells spelling word) (hword : word.all Char.isLower = true) {c : Char}
    (hc : c ∈ spelling) : Text.isLetter c = true := by
  have hmem : foldCase c ∈ word := h ▸ List.mem_map_of_mem hc
  exact List.all_eq_true.1 hword _ hmem

theorem Spells.head? (h : Spells spelling word) (hword : word.all Char.isLower = true)
    (hne : word ≠ []) (rest : List Char) : (spelling ++ rest).head?.any Text.isLetter = true := by
  cases spelling with
  | nil => exact absurd h.symm hne
  | cons c spelling => exact h.isLetter hword List.mem_cons_self

theorem not_letter_of_gap {gap : List Char} (hgap : AllBlank gap) (hne : gap ≠ []) (text : List Char) :
    (gap ++ text).head?.any isLetter = false := by
  obtain ⟨c, gap, rfl⟩ := List.exists_cons_of_ne_nil hne
  apply Bool.eq_false_iff.2
  intro hletter
  have hblank := hgap c List.mem_cons_self
  rw [isBlank_of_isNameChar (isNameChar_of_isLetter hletter)] at hblank
  cases hblank

theorem not_blank_of_head (h : text.head?.any isLetter = true) : text.head?.any isBlank = false := by
  cases text with
  | nil => cases h
  | cons c text => exact isBlank_of_isNameChar (isNameChar_of_isLetter h)

/-- Neither word is the beginning of the other, so no text begins with both. -/
def Apart (v w : List Char) : Prop :=
  ¬ v <+: w ∧ ¬ w <+: v

instance (v w : List Char) : Decidable (Apart v w) :=
  inferInstanceAs (Decidable (¬ v <+: w ∧ ¬ w <+: v))

theorem exists_spelling_of_skipOneOf? {words : List (List Char)}
    (h : skipOneOf? words text = some rest) :
    ∃ word ∈ words, ∃ spelling, Spells spelling word ∧ text = spelling ++ rest := by
  obtain ⟨word, hword, hskip⟩ := List.exists_of_findSome?_eq_some h
  exact ⟨word, hword, skipWord?_eq_some_iff.1 hskip⟩

/-- Among words that are apart, the one that stands in front is found if it is looked for. -/
theorem Spells.skipOneOf? (h : Spells spelling word) {words : List (List Char)}
    (hapart : ∀ w ∈ words, w = word ∨ Apart w word) (rest : List Char) :
    skipOneOf? words (spelling ++ rest) = if word ∈ words then some rest else none := by
  have hfound (r : List Char) (hr : Text.skipOneOf? words (spelling ++ rest) = some r) :
      word ∈ words ∧ r = rest := by
    obtain ⟨w, hw, hskip⟩ := List.exists_of_findSome?_eq_some hr
    rcases hapart w hw with rfl | hw
    · rw [h.skipWord?] at hskip
      exact ⟨hw, (Option.some.inj hskip).symm⟩
    · obtain ⟨spelling', h', heq⟩ := skipWord?_eq_some_iff.1 hskip
      exact absurd (h'.comparable h heq.symm) (not_or.2 hw)
  cases hskip : Text.skipOneOf? words (spelling ++ rest) with
  | some r =>
    obtain ⟨hmem, rfl⟩ := hfound r hskip
    rw [if_pos hmem]
  | none =>
    rw [if_neg]
    intro hmem
    have hnone := List.findSome?_eq_none_iff.1 hskip word hmem
    rw [h.skipWord?] at hnone
    cases hnone

end Words

section Names

variable {n text rest : List Char}

theorem IsName.name? (h : IsName n) (hrest : EndsName rest) : name? (n ++ rest) = some n := by
  obtain ⟨hstart, hmore⟩ := h
  have htake : (_ ++ rest).takeWhile isNameChar = _ :=
    takeWhile_run (fun d hd => isNameChar_iff.2 (hmore d hd)) (endsName_iff.1 hrest)
  rw [List.cons_append, Text.name?, if_pos (isNameStart_iff.2 hstart), htake]

theorem IsName.skipName? (h : IsName n) (hrest : EndsName rest) :
    skipName? (n ++ rest) = some rest := by
  obtain ⟨hstart, hmore⟩ := h
  have hdrop : (_ ++ rest).dropWhile isNameChar = _ :=
    dropWhile_run (fun d hd => isNameChar_iff.2 (hmore d hd)) (endsName_iff.1 hrest)
  rw [List.cons_append, Text.skipName?, if_pos (isNameStart_iff.2 hstart), hdrop]

theorem head?_of_nameChars (hne : n ≠ []) (hn : ∀ c ∈ n, NameChar c) (rest : List Char) :
    (n ++ rest).head?.any isBlank = false := by
  obtain ⟨c, n, rfl⟩ := List.exists_cons_of_ne_nil hne
  exact isBlank_of_isNameChar (isNameChar_iff.2 (hn c List.mem_cons_self))

theorem IsName.ne_nil (h : IsName n) : n ≠ [] := by
  cases h
  exact List.cons_ne_nil _ _

theorem IsName.chars (h : IsName n) : ∀ c ∈ n, NameChar c := by
  cases h with
  | mk start more => exact List.forall_mem_cons.2 ⟨.inl start, more⟩

theorem IsName.head? (h : IsName n) (rest : List Char) : (n ++ rest).head?.any isBlank = false :=
  head?_of_nameChars h.ne_nil h.chars rest

theorem exists_name_or (text : List Char) :
    (∃ n rest, IsName n ∧ EndsName rest ∧ text = n ++ rest) ∨
      name? text = none ∧ skipName? text = none := by
  cases text with
  | nil => exact .inr ⟨rfl, rfl⟩
  | cons c text =>
    by_cases hc : isNameStart c = true
    · left
      refine ⟨c :: text.takeWhile isNameChar, text.dropWhile isNameChar, ?_, ?_, ?_⟩
      · apply IsName.mk (isNameStart_iff.1 hc)
        intro d hd
        exact isNameChar_iff.1 (List.mem_takeWhile_imp hd)
      · exact endsName_iff.2 (any_head?_dropWhile isNameChar text)
      · rw [List.cons_append, List.takeWhile_append_dropWhile]
    · right
      rw [name?, skipName?, if_neg hc, if_neg hc]
      exact ⟨rfl, rfl⟩

theorem name?_eq_some_iff :
    name? text = some n ↔ IsName n ∧ ∃ rest, EndsName rest ∧ text = n ++ rest := by
  constructor
  · intro h
    rcases exists_name_or text with ⟨m, rest, hm, hrest, rfl⟩ | ⟨hnone, -⟩
    · rw [hm.name? hrest] at h
      obtain rfl := Option.some.inj h
      exact ⟨hm, rest, hrest, rfl⟩
    · rw [hnone] at h
      cases h
  · intro h
    obtain ⟨hn, rest, hrest, rfl⟩ := h
    exact hn.name? hrest

theorem exists_name_of_skipName? (h : skipName? text = some rest) :
    ∃ n, IsName n ∧ text = n ++ rest := by
  rcases exists_name_or text with ⟨n, rest', hn, hrest, rfl⟩ | ⟨-, hnone⟩
  · rw [hn.skipName? hrest] at h
    obtain rfl := Option.some.inj h
    exact ⟨n, hn, rfl⟩
  · rw [hnone] at h
    cases h

end Names

end TalOutline.Text
