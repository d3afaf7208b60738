import TalOutline.Proofs.Keyword.Junction
import TalOutline.Proofs.Text.Split

/-!
Keywords and string literals. No word clings to a quote and a quote changes the parity for all that
stands before it, so the keywords of a text are those of every other part between its quotes, each
part taken for itself, and the part behind the last quote is always one of them.
-/
namespace TalOutline

open Text

/-- The parts of a text before, between and behind its double quotes. -/
def segments (text : List Char) : List (List Char) :=
  text.splitOn '"'

theorem segments_ne_nil (text : List Char) : segments text ≠ [] :=
  List.splitOn_ne_nil '"' text

section Quote

variable {part : List Char}

theorem segments_of_unquoted (h : '"' ∉ part) : segments part = [part] :=
  List.splitOn_eq_singleton h

theorem segments_append_quote (h : '"' ∉ part) (rest : List Char) :
    segments (part ++ '"' :: rest) = part :: segments rest :=
  List.splitOn_append_cons_self_of_not_mem h rest

theorem evenQuotes_quote (rest : List Char) : evenQuotes ('"' :: rest) = !evenQuotes rest := by
  unfold evenQuotes
  rw [List.count_cons_self, Bool.eq_iff_iff, Bool.not_eq_true', beq_iff_eq, beq_eq_false_iff_ne]
  omega

theorem evenQuotes_append_quote (h : '"' ∉ part) (rest : List Char) :
    evenQuotes (part ++ '"' :: rest) = !evenQuotes rest := by
  rw [evenQuotes_append_of_unquoted h, evenQuotes_quote]

theorem evenQuotes_of_unquoted (h : '"' ∉ part) : evenQuotes part = true := by
  unfold evenQuotes
  rw [List.count_eq_zero.2 h]
  rfl

theorem quote_mem_of_odd (h : evenQuotes part = false) : '"' ∈ part := by
  by_contra hnot
  rw [evenQuotes_of_unquoted hnot] at h
  cases h

/-- In a text with an odd number of quotes behind it, no keyword is live. -/
theorem keywordsIn_of_odd {before : Option Char} {after : List Char} (h : '"' ∉ part)
    (hodd : evenQuotes after = false) : keywordsIn before part after = [] := by
  induction part generalizing before with
  | nil => rfl
  | cons c part ih =>
    have hpart : '"' ∉ part := fun hmem => h (List.mem_cons_of_mem c hmem)
    have hnone : liveKeyword? before (c :: part ++ after) = none := by
      apply liveKeyword?_eq_none
      intro k word rest hsplit hlive
      have heven := hlive.evenQuotes_append
      rw [← hsplit, evenQuotes_append_of_unquoted h, hodd] at heven
      cases heven
    rw [keywordsIn, hnone, ih hpart]
    rfl

/-- Before a quote, a text has its keywords for itself if the number of quotes behind it is even. -/
theorem keywordsIn_quote (h : '"' ∉ part) (rest : List Char) :
    keywordsIn none part ('"' :: rest) = if evenQuotes rest then [] else keywords part := by
  have hflip := evenQuotes_quote rest
  cases heven : evenQuotes rest with
  | true =>
    rw [heven] at hflip
    exact keywordsIn_of_odd h hflip
  | false =>
    rw [heven] at hflip
    have hloose : (some '"').any clings = false := by decide
    have halone : keywordsIn none part ('"' :: rest) = keywordsIn none part [] :=
      keywordsIn_congr hflip fun _ => ⟨hloose, rfl⟩
    have hwhole : keywords part = keywordsIn none part [] := by
      have := keywords_append part []
      simpa [keywordsAfter] using this
    rw [halone, hwhole]
    rfl

/-- The keywords of the first part count if it stands outside strings, those of the rest as they are. -/
theorem keywords_append_quote (h : '"' ∉ part) (rest : List Char) :
    keywords (part ++ '"' :: rest) =
      (if evenQuotes rest then [] else keywords part) ++ keywords rest := by
  have hrest : keywordsAfter part.getLast? ('"' :: rest) = keywords rest :=
    keywordsAfter_cons_of_loose (by decide) part.getLast? rest
  rw [keywords_append, keywordsIn_quote h, hrest]

/-- What begins inside a string has no keywords up to the next quote. -/
theorem keywords_append_of_odd {rest : List Char} (h : '"' ∉ part) (hodd : evenQuotes rest = false) :
    keywords (part ++ rest) = keywords rest := by
  obtain ⟨text, later, rfl, htext⟩ := List.eq_append_cons_of_mem (quote_mem_of_odd hodd)
  have hboth : '"' ∉ part ++ text := by
    rw [List.mem_append, not_or]
    exact ⟨h, htext⟩
  rw [evenQuotes_append_quote htext, Bool.not_eq_false'] at hodd
  rw [← List.append_assoc, keywords_append_quote hboth, keywords_append_quote htext, hodd]
  rfl

end Quote

theorem keywords_eq_flatMap (code : List Char) :
    keywords code = (sameParity (code.count '"') (segments code)).flatMap keywords := by
  induction code using split_induction '"' with
  | last part hpart =>
    rw [segments_of_unquoted hpart, List.count_eq_zero.2 hpart, sameParity_cons]
    simp [sameParity]
  | step part rest hpart ih =>
    rw [segments_append_quote hpart, count_append_mark hpart, sameParity_cons, List.flatMap_append,
      sameParity_congr (Nat.add_mod_right (rest.count '"') 2), ← ih, keywords_append_quote hpart]
    congr 1
    unfold evenQuotes
    by_cases heven : rest.count '"' % 2 = 0
    · have hodd : (rest.count '"' + 1) % 2 ≠ 0 := by omega
      simp [heven, hodd]
    · have hnext : (rest.count '"' + 1) % 2 = 0 := by omega
      simp [heven, hnext]

theorem keywords_getLast_suffix (code : List Char) :
    keywords ((segments code).getLast (segments_ne_nil code)) <:+ keywords code := by
  induction code using split_induction '"' with
  | last part hpart =>
    have hlast : (segments part).getLast (segments_ne_nil part) = part := by
      simp [segments_of_unquoted hpart]
    exact ⟨[], congrArg keywords hlast⟩
  | step part rest hpart ih =>
    have hlast : (segments (part ++ '"' :: rest)).getLast (segments_ne_nil _) =
        (segments rest).getLast (segments_ne_nil rest) := by
      simp [segments_append_quote hpart, List.getLast_cons (segments_ne_nil rest)]
    rw [hlast, keywords_append_quote hpart]
    exact ih.trans (List.suffix_append _ _)

/--
The keywords of a text are those of the parts with an even number of quotes behind them, each part taken
for itself. Where all quotes pair up these are the parts outside string literals, and in any text the
last part is one of them.
-/
theorem keywords_eq_segments (code : List Char) :
    (segments code).length = code.count '"' + 1 ∧
    keywords code = (sameParity (code.count '"') (segments code)).flatMap keywords ∧
    (evenQuotes code = true → keywords code = (sameParity 0 (segments code)).flatMap keywords) ∧
    keywords ((segments code).getLast (segments_ne_nil code)) <:+ keywords code := by
  refine ⟨length_splitOn '"' code, keywords_eq_flatMap code, ?_, keywords_getLast_suffix code⟩
  intro heven
  have hparity : code.count '"' % 2 = 0 % 2 := beq_iff_eq.1 heven
  rw [keywords_eq_flatMap, sameParity_congr hparity]

/-- Words that touch a quote on either side, and a caret behind one. -/
theorem keywords_eq_segments_touching :
    evenQuotes "end\"begin^\"begin".toList = true ∧
    segments "end\"begin^\"begin".toList = ["end".toList, "begin^".toList, "begin".toList] ∧
    keywords "end\"begin^\"begin".toList =
      (sameParity 0 (segments "end\"begin^\"begin".toList)).flatMap keywords := by
  have heven : evenQuotes "end\"begin^\"begin".toList = true := by decide +kernel
  obtain ⟨-, -, houtside, -⟩ := keywords_eq_segments "end\"begin^\"begin".toList
  exact ⟨heven, by decide +kernel, houtside heven⟩

end TalOutline
