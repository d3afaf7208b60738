import TalOutline.Proofs.Declaration.Live
import TalOutline.Proofs.Pattern.Basic

/-!
The pattern of keywords. It finds the whole words that fold to a keyword, and of these the ones count that
are code: no caret stands on either side, an even number of quotes follows, and the letters are ASCII.
-/
namespace TalOutline

open Text

namespace Pattern

/-- The pattern `(?i)\b(?:begin|end|proc|subproc|forward|external)\b`. -/
def keyword : Pattern :=
  seq boundary (seq (oneOf (Keyword.all.map Keyword.letters)) boundary)

/-- Whether the match stands in code. -/
def Hit.isCode (h : Hit) : Bool :=
  h.before.getLast? != some '^' && h.after.head? != some '^' && evenQuotes h.after

def Hit.keyword? (h : Hit) : Option Keyword :=
  if h.isCode then Keyword.ofWord? h.text else none

section First

variable {s t : Spot} {hits : List Hit} {kept passed text : List Char}

theorem mem_boundary_iff :
    t ∈ boundary.ends s ↔
      t = s ∧ s.passed.getLast?.any isWord ≠ s.rest.head?.any isWord := by
  unfold ends
  split
  · next h => simp [h]
  · next h => simp [h]

theorem isWord_of_spells {spelling : List Char} {k : Keyword} (h : Spells spelling k.letters) :
    ∀ c ∈ spelling, isWord c = true := by
  intro c hc
  have hlower : k.letters.all Char.isLower = true := by cases k <;> decide
  exact isWord_of_isLetter (h.isLetter hlower hc)

theorem ne_nil_of_spells {spelling : List Char} {k : Keyword} (h : Spells spelling k.letters) :
    spelling ≠ [] := by
  intro hnil
  subst hnil
  cases k <;> cases h

theorem head?_of_word {word : List Char} (hne : word ≠ []) (hword : ∀ c ∈ word, isWord c = true)
    (rest : List Char) : (word ++ rest).head?.any isWord = true := by
  cases word with
  | nil => exact absurd rfl hne
  | cons c word => exact hword c List.mem_cons_self

theorem getLast?_of_word {word : List Char} (hne : word ≠ []) (hword : ∀ c ∈ word, isWord c = true)
    (passed : List Char) : (passed ++ word).getLast?.any isWord = true := by
  rw [List.getLast?_append_of_ne_nil passed hne, List.getLast?_eq_some_getLast hne]
  exact hword _ (List.getLast_mem hne)

/-- A whole word is matched if it spells a keyword, and nothing else is. -/
theorem mem_keyword_iff :
    t ∈ keyword.ends s ↔ ∃ word rest k, Spells word (Keyword.letters k) ∧
      s.passed.getLast?.any isWord = false ∧ rest.head?.any isWord = false ∧
      s.rest = word ++ rest ∧ t = ⟨s.passed ++ word, rest, s.groups⟩ := by
  unfold keyword
  rw [mem_seq_iff]
  constructor
  · intro h
    obtain ⟨u, hu, h⟩ := h
    obtain ⟨v, hv, h⟩ := mem_seq_iff.1 h
    obtain ⟨rfl, hstart⟩ := mem_boundary_iff.1 hu
    obtain ⟨rfl, hstop⟩ := mem_boundary_iff.1 h
    obtain ⟨word, rest, ⟨w, hmem, hspells⟩, hsplit, rfl⟩ := (reads_oneOf _ u t).1 hv
    obtain ⟨k, -, rfl⟩ := List.mem_map.1 hmem
    have hword := isWord_of_spells hspells
    rw [hsplit, head?_of_word (ne_nil_of_spells hspells) hword] at hstart
    rw [getLast?_of_word (ne_nil_of_spells hspells) hword] at hstop
    exact ⟨word, rest, k, hspells, by simpa using hstart, by simpa using hstop.symm, hsplit, rfl⟩
  · intro h
    obtain ⟨word, rest, k, hspells, hstart, hstop, hsplit, rfl⟩ := h
    have hword := isWord_of_spells hspells
    refine ⟨s, mem_boundary_iff.2 ⟨rfl, ?_⟩, mem_seq_iff.2 ⟨_, ?_, mem_boundary_iff.2 ⟨rfl, ?_⟩⟩⟩
    · rw [hsplit, hstart, head?_of_word (ne_nil_of_spells hspells) hword]
      decide
    · exact (reads_oneOf _ s _).2
        ⟨word, rest, ⟨_, List.mem_map_of_mem k.mem_all, hspells⟩, hsplit, rfl⟩
    · rw [getLast?_of_word (ne_nil_of_spells hspells) hword, hstop]
      decide

/-- Of a whole word, the character before it and the text behind it are looked at in the same way. -/
theorem liveKeyword?_eq_keyword? {word rest : List Char} (hword : ∀ c ∈ word, isWord c = true)
    (hstart : passed.getLast?.any isWord = false) (hstop : rest.head?.any isWord = false) :
    liveKeyword? passed.getLast? (word ++ rest) = Hit.keyword? ⟨passed, word, rest⟩ := by
  unfold liveKeyword? Hit.keyword? Hit.isCode
  rw [hstart, takeWhile_run hword hstop, dropWhile_run hword hstop]
  by_cases hbefore : passed.getLast? = some '^'
  · simp [hbefore]
  · cases Keyword.ofWord? word with
    | none => simp
    | some k =>
      by_cases hafter : rest.head? = some '^'
      · simp [hafter]
      · cases heven : evenQuotes rest <;> simp [hbefore, hafter, heven]

theorem keywordsAfter_of_first? (h : keyword.first? s = some t) :
    keywordsAfter s.passed.getLast? s.rest =
      (Hit.keyword? ⟨s.passed, t.passed.drop s.passed.length, t.rest⟩).toList ++
        keywordsAfter t.passed.getLast? t.rest := by
  obtain ⟨word, rest, k, hspells, hstart, hstop, hsplit, rfl⟩ := mem_keyword_iff.1 (mem_of_first? h)
  have hword := isWord_of_spells hspells
  rw [hsplit, keywordsAfter_append, keywordsIn_word hword (ne_nil_of_spells hspells),
    liveKeyword?_eq_keyword? hword hstart hstop, List.drop_left, List.getLast?_append]

theorem liveKeyword?_of_first? (h : keyword.first? s = none) :
    liveKeyword? s.passed.getLast? s.rest = none := by
  apply liveKeyword?_eq_none
  intro k word after hsplit hlive
  have hspells : Spells word k.letters := map_foldCase_of_letters (ofWord?_eq_some_iff.1 hlive.spelled)
  exact first?_eq_none_iff.1 h _ (mem_keyword_iff.2 ⟨word, after, k, hspells,
    not_any_isWord hlive.start, not_any_isWord hlive.stop, hsplit, rfl⟩)

theorem keywordsAfter_of_cuts (h : Cuts keyword passed text hits kept) :
    keywordsAfter passed.getLast? text = hits.filterMap Hit.keyword? := by
  induction h with
  | done => rfl
  | hit first shorter later ih =>
    rw [keywordsAfter_of_first? first, ih, List.filterMap_cons]
    cases Hit.keyword? _ <;> rfl
  | @miss passed rest c hits kept missing later ih =>
    have hlast : (passed ++ [c]).getLast? = some c := List.getLast?_concat
    rw [hlast] at ih
    rw [keywordsAfter, liveKeyword?_of_first? missing, ih]
    rfl

end First

/-- The keywords of a code are the words that the pattern finds, those that are code and in ASCII. -/
theorem finds_keyword (code : List Char) :
    (∃ hits, keyword.Finds code hits) ∧
      ∀ hits, keyword.Finds code hits → keywords code = hits.filterMap Hit.keyword? := by
  constructor
  · have hends (s t : Spot) (h : t ∈ keyword.ends s) : t.rest.length < s.rest.length := by
      obtain ⟨word, rest, k, hspells, -, -, hsplit, rfl⟩ := mem_keyword_iff.1 h
      have hpos := List.length_pos_iff.2 (ne_nil_of_spells hspells)
      rw [hsplit, List.length_append]
      show rest.length < word.length + rest.length
      omega
    obtain ⟨hits, kept, hcuts⟩ := exists_cuts hends [] code
    exact ⟨hits, kept, hcuts⟩
  · intro hits h
    obtain ⟨kept, hcuts⟩ := h
    exact keywordsAfter_of_cuts hcuts

end Pattern

end TalOutline
