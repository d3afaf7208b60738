import TalOutline.Fold.Block

/-!
Folds of blocks are those of a bracket matching. An `end` belongs to a `begin` exactly if the
keywords between them form a balanced word, however unbalanced the document is around them.
-/
namespace TalOutline.Fold

/-- The words in which every `begin` has its `end` and every `end` its `begin`. -/
inductive Balanced : List Keyword → Prop
  | nil : Balanced []
  | block {inner rest : List Keyword} : Balanced inner → Balanced rest →
    Balanced (.blockBegin :: (inner ++ .blockEnd :: rest))

/-- The live block keywords of a document with their lines, in order. -/
def tokens (lines : List Line) : List (Keyword × Nat) :=
  lines.zipIdx.flatMap fun (line, n) => (blockWords line).map (·, n)

def lineAt (ts : List (Keyword × Nat)) (i : Nat) : Nat :=
  (ts[i]?.map Prod.snd).getD 0

/-- An `end` and the `begin` before it that it belongs to, by their places in the word. -/
structure Matched (word : List Keyword) (i j : Nat) : Prop where
  lt : i < j
  first : word[i]? = some .blockBegin
  last : word[j]? = some .blockEnd
  between : Balanced ((word.take j).drop (i + 1))

/-- How many more `begin` than `end` keywords a word has. -/
def net (word : List Keyword) : Int :=
  word.count .blockBegin - word.count .blockEnd

@[simp] theorem net_nil : net [] = 0 := rfl

@[simp] theorem net_begin (word : List Keyword) : net (.blockBegin :: word) = net word + 1 := by
  simp [net]
  omega

@[simp] theorem net_end (word : List Keyword) : net (.blockEnd :: word) = net word - 1 := by
  simp [net]
  omega

@[simp] theorem net_append (u v : List Keyword) : net (u ++ v) = net u + net v := by
  simp [net]
  omega

private theorem suffix_append_cases {s u v : List Keyword} (h : s <:+ u ++ v) :
    s <:+ v ∨ ∃ t, t <:+ u ∧ s = t ++ v := by
  obtain ⟨p, hp⟩ := h
  rcases List.append_eq_append_iff.1 hp with ⟨t, hu, hs⟩ | ⟨t, -, hv⟩
  · exact .inr ⟨t, ⟨p, hu.symm⟩, hs⟩
  · exact .inl ⟨t, hv.symm⟩

namespace Balanced

variable {u v s : List Keyword}

theorem append (hu : Balanced u) (hv : Balanced v) : Balanced (u ++ v) := by
  induction hu with
  | nil => exact hv
  | block hinner _ _ ih =>
    have := Balanced.block hinner ih
    simpa using this

theorem net_eq_zero (h : Balanced u) : net u = 0 := by
  induction h with
  | nil => rfl
  | block _ _ hinner hrest =>
    simp only [net_begin, net_append, net_end]
    omega

/-- Read from behind, a balanced word never has more `begin` than `end` keywords. -/
theorem net_suffix_le (h : Balanced u) (hs : s <:+ u) : net s ≤ 0 := by
  induction h generalizing s with
  | nil =>
    rw [List.suffix_nil.1 hs]
    exact Int.le_refl 0
  | block hinner hrest ihinner ihrest =>
    have hi := hinner.net_eq_zero
    have hr := hrest.net_eq_zero
    rcases List.suffix_cons_iff.1 hs with rfl | hs
    · simp only [net_begin, net_append, net_end]
      omega
    · rcases suffix_append_cases hs with hs | ⟨t, ht, rfl⟩
      · rcases List.suffix_cons_iff.1 hs with rfl | hs
        · simp only [net_end]
          omega
        · exact ihrest hs
      · have := ihinner ht
        simp only [net_append, net_end]
        omega

end Balanced

/-- The place of a `begin` with nothing but a balanced word after it. -/
def Open (word : List Keyword) (i : Nat) : Prop :=
  ∃ before inner, word = before ++ .blockBegin :: inner ∧ before.length = i ∧ Balanced inner

/-- The `begin` keywords of a word that wait for their `end`, given by their places, the last first. -/
def Pending : List Keyword → List Nat → Prop
  | word, [] => ∀ s, s <:+ word → net s ≤ 0
  | word, i :: opened =>
    ∃ before inner, word = before ++ .blockBegin :: inner ∧ before.length = i ∧ Balanced inner ∧
      Pending before opened

theorem matched_end_iff {word rest : List Keyword} {i : Nat} :
    Matched (word ++ .blockEnd :: rest) i word.length ↔ Open word i := by
  constructor
  · rintro ⟨hlt, hfirst, -, hbetween⟩
    rw [List.take_left] at hbetween
    rw [List.getElem?_append_left hlt, List.getElem?_eq_getElem hlt] at hfirst
    refine ⟨word.take i, word.drop (i + 1), ?_, by simp; omega, hbetween⟩
    rw [← Option.some.inj hfirst, List.getElem_cons_drop, List.take_append_drop]
  · rintro ⟨before, inner, rfl, rfl, hinner⟩
    refine ⟨by simp, by simp, by simp, ?_⟩
    rw [List.take_left]
    simpa using hinner

/-- At most one `begin` has a balanced word after it. -/
theorem Open.unique {word : List Keyword} {i j : Nat} (hi : Open word i) (hj : Open word j) :
    i = j := by
  obtain ⟨p, u, rfl, rfl, hu⟩ := hi
  obtain ⟨q, v, hw, rfl, hv⟩ := hj
  have hzu := hu.net_eq_zero
  have hzv := hv.net_eq_zero
  -- The later `begin`, if there were one, would start an end part of the earlier balanced word.
  rcases List.append_eq_append_iff.1 hw with ⟨t, rfl, ht⟩ | ⟨t, rfl, ht⟩
  · cases t with
    | nil => simp
    | cons k t =>
      obtain ⟨-, rfl⟩ := List.cons.inj ht
      have := hu.net_suffix_le ⟨t, rfl⟩
      simp only [net_begin] at this
      omega
  · cases t with
    | nil => simp
    | cons k t =>
      obtain ⟨-, rfl⟩ := List.cons.inj ht
      have := hv.net_suffix_le ⟨t, rfl⟩
      simp only [net_begin] at this
      omega

namespace Pending

variable {word : List Keyword} {opened : List Nat} {i : Nat}

theorem nil : Pending [] [] := by
  intro s hs
  rw [List.suffix_nil.1 hs]
  exact Int.le_refl 0

theorem not_open (h : Pending word []) (i : Nat) : ¬ Open word i := by
  rintro ⟨before, inner, rfl, -, hinner⟩
  have hnet := h (.blockBegin :: inner) ⟨before, rfl⟩
  have hzero := hinner.net_eq_zero
  simp only [net_begin] at hnet
  omega

theorem open_iff (h : Pending word (i :: opened)) (j : Nat) : Open word j ↔ j = i := by
  obtain ⟨before, inner, hw, hi, hinner, -⟩ := h
  have ho : Open word i := ⟨before, inner, hw, hi, hinner⟩
  exact ⟨fun hj => hj.unique ho, fun hj => hj ▸ ho⟩

theorem append_balanced (h : Pending word opened) {inner : List Keyword} (hb : Balanced inner) :
    Pending (word ++ inner) opened := by
  cases opened with
  | nil =>
    intro s hs
    rcases suffix_append_cases hs with hs | ⟨t, ht, rfl⟩
    · exact hb.net_suffix_le hs
    · have hnet := h t ht
      have hzero := hb.net_eq_zero
      simp only [net_append]
      omega
  | cons i opened =>
    obtain ⟨before, rest, rfl, hi, hrest, hp⟩ := h
    exact ⟨before, rest ++ inner, by simp, hi, hrest.append hb, hp⟩

theorem append_begin (h : Pending word opened) :
    Pending (word ++ [.blockBegin]) (word.length :: opened) :=
  ⟨word, [], rfl, rfl, .nil, h⟩

theorem append_end (h : Pending word (i :: opened)) : Pending (word ++ [.blockEnd]) opened := by
  obtain ⟨before, inner, rfl, -, hinner, hp⟩ := h
  have := hp.append_balanced (.block hinner .nil)
  simpa using this

theorem append_stray (h : Pending word []) : Pending (word ++ [.blockEnd]) [] := by
  intro s hs
  rcases suffix_append_cases hs with hs | ⟨t, ht, rfl⟩
  · rcases List.suffix_cons_iff.1 hs with rfl | hs
    · simp
    · rw [List.suffix_nil.1 hs]
      exact Int.le_refl 0
  · have hnet := h t ht
    simp only [net_append, net_end, net_nil]
    omega

end Pending

/-- Matches labelled keywords with a stack of labels. -/
def pairUp {α : Type} : List α → List (Keyword × α) → List (α × α)
  | _, [] => []
  | opened, (.blockBegin, a) :: rest => pairUp (a :: opened) rest
  | first :: opened, (.blockEnd, a) :: rest => (first, a) :: pairUp opened rest
  | opened, _ :: rest => pairUp opened rest

/-- The labels play no part in the matching. -/
theorem pairUp_map {α β : Type} (f : α → β) (opened : List α) (ts : List (Keyword × α)) :
    pairUp (opened.map f) (ts.map (Prod.map id f)) = (pairUp opened ts).map (Prod.map f f) := by
  induction ts generalizing opened with
  | nil => simp [pairUp]
  | cons t rest ih =>
    obtain ⟨k, a⟩ := t
    cases k with
    | blockBegin => exact ih (a :: opened)
    | blockEnd =>
      cases opened with
      | nil => exact ih []
      | cons first opened => exact congrArg _ (ih opened)
    | proc | subproc | forward | external => cases opened <;> exact ih _

def ofPair (pair : Nat × Nat) : Option Fold :=
  upTo? .region pair.1 pair.2

theorem pairUp_stepBlocks (n : Nat) (opened : List Nat) (words : List Keyword)
    (later : List (Keyword × Nat)) :
    (pairUp opened (words.map (·, n) ++ later)).filterMap ofPair =
      (stepBlocks n opened words).2 ++
        (pairUp (stepBlocks n opened words).1 later).filterMap ofPair := by
  induction words generalizing opened with
  | nil => cases opened <;> rfl
  | cons k rest ih =>
    cases k with
    | blockBegin => cases opened <;> exact ih _
    | blockEnd =>
      cases opened with
      | nil => exact ih []
      | cons first opened =>
        simp only [List.map_cons, List.cons_append, pairUp, stepBlocks, List.filterMap_cons,
          List.append_assoc, ← ih opened]
        simp only [ofPair]
        cases upTo? .region first n <;> rfl
    | proc | subproc | forward | external => cases opened <;> exact ih _

theorem run_blockTracker (opened : List Nat) (n : Nat) (lines : List Line) :
    blockTracker.run opened n lines =
      (pairUp opened ((lines.zipIdx n).flatMap fun (line, n) =>
        (blockWords line).map (·, n))).filterMap ofPair := by
  induction lines generalizing opened n with
  | nil => rfl
  | cons line rest ih =>
    rw [List.zipIdx_cons, List.flatMap_cons, pairUp_stepBlocks, Tracker.run, ih]
    rfl

section Places

variable {word rest : List Keyword} {opened : List Nat}

theorem pairUp_pairwise (opened : List Nat) (n : Nat) (rest : List Keyword) :
    (pairUp opened (rest.zipIdx n)).Pairwise (·.2 < ·.2) ∧
      ∀ pair ∈ pairUp opened (rest.zipIdx n), n ≤ pair.2 := by
  induction rest generalizing opened n with
  | nil => simp [pairUp]
  | cons k rest ih =>
    rw [List.zipIdx_cons]
    have hnext (opened : List Nat) : (pairUp opened (rest.zipIdx (n + 1))).Pairwise (·.2 < ·.2) ∧
        ∀ pair ∈ pairUp opened (rest.zipIdx (n + 1)), n ≤ pair.2 :=
      ⟨(ih opened (n + 1)).1, fun pair h => Nat.le_of_succ_le ((ih opened (n + 1)).2 pair h)⟩
    cases k with
    | blockBegin => exact hnext (n :: opened)
    | blockEnd =>
      cases opened with
      | nil => exact hnext []
      | cons first opened =>
        rw [pairUp]
        refine ⟨.cons (fun pair h => (ih opened (n + 1)).2 pair h) (hnext opened).1, ?_⟩
        intro pair h
        rcases List.mem_cons.1 h with rfl | h
        · exact Nat.le_refl n
        · exact (hnext opened).2 pair h
    | proc | subproc | forward | external => cases opened <;> exact hnext _

theorem matched_begin_ne {i j : Nat} (h : Matched (word ++ .blockBegin :: rest) i j)
    (hj : word.length ≤ j) : word.length + 1 ≤ j := by
  refine Nat.lt_of_le_of_ne hj ?_
  rintro rfl
  have := h.last
  simp at this

/-- The stack finds exactly the matched pairs whose `end` is still to come. -/
theorem mem_pairUp_iff (hp : Pending word opened)
    (hrest : ∀ k ∈ rest, k = .blockBegin ∨ k = .blockEnd) (i j : Nat) :
    (i, j) ∈ pairUp opened (rest.zipIdx word.length) ↔
      word.length ≤ j ∧ Matched (word ++ rest) i j := by
  induction rest generalizing word opened with
  | nil =>
    simp only [List.zipIdx_nil, pairUp, List.not_mem_nil, List.append_nil, false_iff]
    rintro ⟨hj, h⟩
    have := h.last
    rw [List.getElem?_eq_none hj] at this
    cases this
  | cons k rest ih =>
    have hlater := fun k' hk' => hrest k' (List.mem_cons_of_mem k hk')
    have happend : word ++ k :: rest = word ++ [k] ++ rest := by simp
    have hlength : word.length + 1 = (word ++ [k]).length := by simp
    rw [List.zipIdx_cons, happend]
    rcases hrest k List.mem_cons_self with rfl | rfl
    · rw [pairUp, hlength, ih hp.append_begin hlater, ← hlength, ← happend]
      constructor
      · rintro ⟨hj, h⟩
        exact ⟨Nat.le_of_succ_le hj, h⟩
      · rintro ⟨hj, h⟩
        exact ⟨matched_begin_ne h hj, h⟩
    · -- Either the pair ends on this keyword, or it is one of the later ones.
      have hsplit : (word.length ≤ j ∧ Matched (word ++ [.blockEnd] ++ rest) i j) ↔
          (j = word.length ∧ Open word i) ∨
            (word.length + 1 ≤ j ∧ Matched (word ++ [.blockEnd] ++ rest) i j) := by
        constructor
        · rintro ⟨hj, h⟩
          rcases Nat.lt_or_eq_of_le hj with hlt | rfl
          · exact .inr ⟨hlt, h⟩
          · rw [← happend, matched_end_iff] at h
            exact .inl ⟨rfl, h⟩
        · rintro (⟨rfl, h⟩ | ⟨hj, h⟩)
          · rw [← happend, matched_end_iff]
            exact ⟨Nat.le_refl _, h⟩
          · exact ⟨Nat.le_of_succ_le hj, h⟩
      rw [hsplit, hlength]
      cases opened with
      | nil =>
        rw [pairUp, ih hp.append_stray hlater]
        · simp [hp.not_open i]
        · nofun
        · nofun
      | cons first opened =>
        rw [pairUp, List.mem_cons, ih hp.append_end hlater, hp.open_iff, Prod.mk.injEq,
          and_comm (a := i = first)]

end Places

theorem zipIdx_map_lineAt (ts : List (Keyword × Nat)) :
    (ts.map Prod.fst).zipIdx.map (Prod.map id (lineAt ts)) = ts := by
  refine List.ext_getElem? fun i => ?_
  cases h : ts[i]? with
  | none => simp [h]
  | some t => simp [h, lineAt]

theorem keyword_tokens (lines : List Line) (k : Keyword) (h : k ∈ (tokens lines).map Prod.fst) :
    k = .blockBegin ∨ k = .blockEnd := by
  obtain ⟨⟨_, n⟩, ht, rfl⟩ := List.mem_map.1 h
  obtain ⟨⟨line, m⟩, -, hw⟩ := List.mem_flatMap.1 ht
  obtain ⟨k, hk, hkt⟩ := List.mem_map.1 hw
  have hb := (List.mem_filter.1 hk).2
  simp only [Prod.mk.injEq] at hkt
  simpa [Keyword.isBlock, hkt.1] using hb

/--
The folds of blocks come from exactly the matched pairs of tokens, in the order of their `end`
tokens. A pair gives the lines from its `begin` up to its `end`, unless they are fewer than two.
-/
theorem blocks_eq_matching (lines : List Line) :
    ∃ pairs : List (Nat × Nat),
      (∀ i j, (i, j) ∈ pairs ↔ Matched ((tokens lines).map Prod.fst) i j) ∧
      pairs.Pairwise (·.2 < ·.2) ∧
      blocks lines = pairs.filterMap fun (i, j) =>
        if 1 < lineAt (tokens lines) j - lineAt (tokens lines) i then
          some ⟨lineAt (tokens lines) i, lineAt (tokens lines) j - 1, .region⟩
        else none := by
  refine ⟨pairUp [] ((tokens lines).map Prod.fst).zipIdx, ?_, (pairUp_pairwise [] 0 _).1, ?_⟩
  · intro i j
    simpa using mem_pairUp_iff .nil (keyword_tokens lines) i j
  · have hmap := pairUp_map (lineAt (tokens lines)) [] ((tokens lines).map Prod.fst).zipIdx
    rw [zipIdx_map_lineAt, List.map_nil] at hmap
    have hrun := run_blockTracker [] 0 lines
    change blocks lines = (pairUp [] (tokens lines)).filterMap ofPair at hrun
    rw [hrun, hmap, List.filterMap_map]
    congr 1
    funext ⟨i, j⟩
    have hspan : lineAt (tokens lines) i + 1 < lineAt (tokens lines) j ↔
        1 < lineAt (tokens lines) j - lineAt (tokens lines) i := by omega
    simp only [Function.comp_apply, Prod.map_apply, ofPair, upTo?, hspan]

end TalOutline.Fold
