import TalOutline.Proofs.Keyword.Junction

/-!
Keywords as runs of word characters. The text is cut into its maximal runs, in order, and each is judged
by its letters, the characters next to it and the quotes behind it; the keywords are those of the runs
that pass. The case of ASCII letters is ignored and no other: a word that the folding of declarations and
directives would take for a keyword may be none.
-/
namespace TalOutline

open Text

section Spelling

theorem map_toLower_letters (k : Keyword) : k.letters.map Char.toLower = k.letters := by
  cases k <;> decide

theorem Keyword.eq_of_letters {k k' : Keyword} (h : k.letters = k'.letters) : k = k' := by
  revert h
  cases k <;> cases k' <;> decide

theorem Keyword.mem_all (k : Keyword) : k ∈ Keyword.all := by
  cases k <;> decide

theorem Keyword.find?_all_eq_some_iff {p : Keyword → Bool}
    (hunique : ∀ k k', p k = true → p k' = true → k = k') {k : Keyword} :
    Keyword.all.find? p = some k ↔ p k = true := by
  constructor
  · exact List.find?_some
  · intro hk
    cases hfind : Keyword.all.find? p with
    | none => exact absurd hk (List.find?_eq_none.1 hfind k k.mem_all)
    | some k' => rw [hunique k' k (List.find?_some hfind) hk]

theorem ofWord?_eq_some_iff {word : List Char} {k : Keyword} :
    Keyword.ofWord? word = some k ↔ word.map Char.toLower = k.letters := by
  have hsame (k : Keyword) :
      sameAsciiCase k.letters word = true ↔ word.map Char.toLower = k.letters := by
    unfold sameAsciiCase
    rw [beq_iff_eq, map_toLower_letters, eq_comm]
  unfold Keyword.ofWord?
  rw [Keyword.find?_all_eq_some_iff, hsame]
  intro k k' hk hk'
  exact Keyword.eq_of_letters (((hsame k).1 hk).symm.trans ((hsame k').1 hk'))

/-- A character whose lower case is a letter of a keyword folds to its lower case. -/
theorem foldCase_eq_toLower {c : Char} {k : Keyword} (h : c.toLower ∈ k.letters) :
    foldCase c = c.toLower := by
  have hlong : '\u017f'.toLower ∉ k.letters := by cases k <;> decide
  have hkelvin : '\u212a'.toLower ∉ k.letters := by cases k <;> decide
  unfold foldCase
  rw [if_neg (by rintro rfl; exact hlong h), if_neg (by rintro rfl; exact hkelvin h)]

theorem map_foldCase_of_letters {word : List Char} {k : Keyword}
    (h : word.map Char.toLower = k.letters) : word.map foldCase = k.letters := by
  rw [← h]
  apply List.map_congr_left
  intro c hc
  have hmem : c.toLower ∈ k.letters := h ▸ List.mem_map_of_mem hc
  exact foldCase_eq_toLower hmem

end Spelling

theorem any_clings_eq_false_iff {o : Option Char} (h : o.any isWord = false) :
    o.any clings = false ↔ o ≠ some '^' := by
  cases o with
  | none => simp
  | some c =>
    have hc : isWord c = false := h
    simp [clings, hc]

/-- Some characters of a text, with what stands before and after them. -/
structure WordRun where
  before : List Char
  word : List Char
  after : List Char
  deriving DecidableEq, Repr

namespace WordRun

/-- A maximal run of word characters in the text. -/
structure Maximal (r : WordRun) (text : List Char) : Prop where
  split : text = r.before ++ (r.word ++ r.after)
  ne_nil : r.word ≠ []
  letters : ∀ c ∈ r.word, isWord c = true
  start : r.before.getLast?.any isWord = false
  stop : r.after.head?.any isWord = false

/--
The run is the keyword up to the case of ASCII letters, with no caret on either side and an even number of
quotes behind it.
-/
structure Is (r : WordRun) (k : Keyword) : Prop where
  letters : r.word.map Char.toLower = k.letters
  noCaretBefore : r.before.getLast? ≠ some '^'
  noCaretAfter : r.after.head? ≠ some '^'
  even : r.after.count '"' % 2 = 0

instance (r : WordRun) (k : Keyword) : Decidable (r.Is k) :=
  decidable_of_iff (r.word.map Char.toLower = k.letters ∧ r.before.getLast? ≠ some '^' ∧
      r.after.head? ≠ some '^' ∧ r.after.count '"' % 2 = 0)
    ⟨fun ⟨h, hb, ha, he⟩ => ⟨h, hb, ha, he⟩, fun ⟨h, hb, ha, he⟩ => ⟨h, hb, ha, he⟩⟩

def keyword? (r : WordRun) : Option Keyword :=
  Keyword.all.find? fun k => decide (r.Is k)

variable {r : WordRun} {k : Keyword} {text : List Char}

theorem keyword?_eq_some_iff : r.keyword? = some k ↔ r.Is k := by
  unfold keyword?
  rw [Keyword.find?_all_eq_some_iff, decide_eq_true_iff]
  intro k k' hk hk'
  exact Keyword.eq_of_letters
    ((of_decide_eq_true hk).letters.symm.trans (of_decide_eq_true hk').letters)

/-- A run that is a keyword only under the wider folding is none. -/
theorem keyword?_eq_none_of_fold (hfold : r.word.map foldCase = k.letters)
    (hne : r.word.map Char.toLower ≠ k.letters) : r.keyword? = none := by
  apply Option.eq_none_iff_forall_ne_some.2
  intro k' hk'
  have hletters := (keyword?_eq_some_iff.1 hk').letters
  have hsame : k = k' := Keyword.eq_of_letters (hfold.symm.trans (map_foldCase_of_letters hletters))
  exact hne (hsame ▸ hletters)

theorem Maximal.live_iff (h : r.Maximal text) :
    Live k r.before.getLast? r.word r.after ↔ r.Is k := by
  have hstart := any_clings_eq_false_iff h.start
  have hstop := any_clings_eq_false_iff h.stop
  have heven : evenQuotes r.after = true ↔ r.after.count '"' % 2 = 0 := beq_iff_eq
  constructor
  · intro hlive
    exact ⟨ofWord?_eq_some_iff.1 hlive.spelled, hstart.1 hlive.start, hstop.1 hlive.stop,
      heven.1 hlive.even⟩
  · intro his
    exact ⟨ofWord?_eq_some_iff.2 his.letters, h.letters, hstart.2 his.noCaretBefore,
      hstop.2 his.noCaretAfter, heven.2 his.even⟩

theorem Maximal.liveKeyword?_eq (h : r.Maximal text) :
    liveKeyword? r.before.getLast? (r.word ++ r.after) = r.keyword? := by
  apply Option.ext
  intro k
  rw [liveKeyword?_append h.letters h.stop, h.live_iff, keyword?_eq_some_iff]

end WordRun

/-- The runs of word characters that begin in a text, behind what stands before it. -/
def runsFrom (before : List Char) : List Char → List WordRun
  | [] => []
  | c :: rest =>
    if isWord c && !before.getLast?.any isWord then
      ⟨before, (c :: rest).takeWhile isWord, (c :: rest).dropWhile isWord⟩ ::
        runsFrom (before ++ [c]) rest
    else runsFrom (before ++ [c]) rest

def runs (text : List Char) : List WordRun :=
  runsFrom [] text

section Runs

variable {before rest text : List Char} {c : Char} {r : WordRun}

theorem maximal_first (hc : isWord c = true) (hbefore : before.getLast?.any isWord = false)
    (rest : List Char) :
    WordRun.Maximal ⟨before, (c :: rest).takeWhile isWord, (c :: rest).dropWhile isWord⟩
      (before ++ c :: rest) where
  split := by rw [List.takeWhile_append_dropWhile]
  ne_nil := by simp [hc]
  letters := fun d hd => List.mem_takeWhile_imp hd
  start := hbefore
  stop := any_head?_dropWhile isWord (c :: rest)

/-- The run that begins with the text is known from what stands before it. -/
theorem WordRun.Maximal.eq_first (h : r.Maximal (before ++ c :: rest))
    (hlength : r.before.length = before.length) :
    isWord c = true ∧ before.getLast?.any isWord = false ∧
      r = ⟨before, (c :: rest).takeWhile isWord, (c :: rest).dropWhile isWord⟩ := by
  obtain ⟨rbefore, word, after⟩ := r
  obtain ⟨rfl, hrest⟩ := List.append_inj h.split hlength.symm
  have hword : isWord c = true := by
    obtain ⟨d, word, rfl⟩ := List.exists_cons_of_ne_nil h.ne_nil
    obtain ⟨rfl, -⟩ := List.cons.inj hrest
    exact h.letters c List.mem_cons_self
  refine ⟨hword, h.start, ?_⟩
  rw [hrest, takeWhile_run h.letters h.stop, dropWhile_run h.letters h.stop]

theorem mem_runsFrom_iff :
    r ∈ runsFrom before text ↔ r.Maximal (before ++ text) ∧ before.length ≤ r.before.length := by
  induction text generalizing before with
  | nil =>
    have hnot : ¬ (r.Maximal (before ++ []) ∧ before.length ≤ r.before.length) := by
      rintro ⟨h, hle⟩
      have hlength := congrArg List.length h.split
      have hpos := List.length_pos_iff.2 h.ne_nil
      simp only [List.length_append, List.append_nil] at hlength
      omega
    simpa [runsFrom] using hnot
  | cons c rest ih =>
    have hlater : r ∈ runsFrom (before ++ [c]) rest ↔
        r.Maximal (before ++ c :: rest) ∧ before.length < r.before.length := by
      rw [ih, List.append_assoc, List.singleton_append, List.length_append]
      rfl
    have hfirst : r.Maximal (before ++ c :: rest) ∧ r.before.length = before.length ↔
        (isWord c && !before.getLast?.any isWord) = true ∧
          r = ⟨before, (c :: rest).takeWhile isWord, (c :: rest).dropWhile isWord⟩ := by
      rw [Bool.and_eq_true, Bool.not_eq_true']
      constructor
      · rintro ⟨h, hlength⟩
        obtain ⟨hc, hbefore, hr⟩ := h.eq_first hlength
        exact ⟨⟨hc, hbefore⟩, hr⟩
      · rintro ⟨⟨hc, hbefore⟩, rfl⟩
        exact ⟨maximal_first hc hbefore rest, rfl⟩
    have hsplit : r ∈ runsFrom before (c :: rest) ↔
        ((isWord c && !before.getLast?.any isWord) = true ∧
          r = ⟨before, (c :: rest).takeWhile isWord, (c :: rest).dropWhile isWord⟩) ∨
        r ∈ runsFrom (before ++ [c]) rest := by
      rw [runsFrom]
      split
      · next hstart => simp [hstart]
      · next hstart => simp [hstart]
    rw [hsplit, hlater, ← hfirst, ← and_or_left, Nat.le_iff_lt_or_eq, eq_comm (a := before.length),
      or_comm]

theorem runsFrom_pairwise (before text : List Char) :
    (runsFrom before text).Pairwise fun r s => r.before.length < s.before.length := by
  induction text generalizing before with
  | nil => exact List.Pairwise.nil
  | cons c rest ih =>
    rw [runsFrom]
    split
    · refine List.Pairwise.cons ?_ (ih (before ++ [c]))
      intro s hs
      have hle := (mem_runsFrom_iff.1 hs).2
      rw [List.length_append] at hle
      exact hle
    · exact ih (before ++ [c])

/-- A keyword starts where a run does, and nowhere else. -/
theorem keywordsAfter_eq_runsFrom (before text : List Char) :
    keywordsAfter before.getLast? text = (runsFrom before text).filterMap WordRun.keyword? := by
  induction text generalizing before with
  | nil => rfl
  | cons c rest ih =>
    have hlast : (before ++ [c]).getLast? = some c := List.getLast?_concat
    have hrest := ih (before ++ [c])
    rw [hlast] at hrest
    rw [keywordsAfter, hrest, runsFrom]
    cases hc : isWord c with
    | false =>
      have hhead : (c :: rest).head?.any isWord = false := hc
      rw [liveKeyword?_of_head hhead]
      rfl
    | true =>
      cases hbefore : before.getLast?.any isWord with
      | true =>
        rw [liveKeyword?_of_clings (any_clings_of_any_isWord hbefore)]
        rfl
      | false =>
        have heq := (maximal_first hc hbefore rest).liveKeyword?_eq
        rw [List.takeWhile_append_dropWhile] at heq
        simp only [Bool.not_false, Bool.and_self, if_true]
        rw [List.filterMap_cons, heq]
        cases WordRun.keyword? _ <;> rfl

end Runs

/--
The keywords of a text are those of its maximal runs of word characters, in order, and a run is a keyword
by its ASCII letters, the carets next to it and the quotes behind it.
-/
theorem keywords_eq_runs (code : List Char) :
    keywords code = (runs code).filterMap WordRun.keyword? ∧
    (∀ r, r ∈ runs code ↔ r.Maximal code) ∧
    (runs code).Pairwise (fun r s => r.before.length < s.before.length) ∧
    (∀ (r : WordRun) (k : Keyword), r.keyword? = some k ↔ r.Is k) ∧
    ∀ (r : WordRun) (k : Keyword), r.word.map foldCase = k.letters →
      r.word.map Char.toLower ≠ k.letters → r.keyword? = none := by
  refine ⟨keywordsAfter_eq_runsFrom [] code, ?_, runsFrom_pairwise [] code,
    fun r k => WordRun.keyword?_eq_some_iff, fun r k => WordRun.keyword?_eq_none_of_fold⟩
  intro r
  have hmem : r ∈ runs code ↔ r.Maximal code ∧ 0 ≤ r.before.length := mem_runsFrom_iff
  rw [hmem, and_iff_left (Nat.zero_le _)]

theorem keywords_eq_runs_longS :
    "\u017fubproc".toList.map foldCase = Keyword.subproc.letters ∧
    "\u017fubproc".toList.map Char.toLower ≠ Keyword.subproc.letters ∧
    ⟨[], "\u017fubproc".toList, " END".toList⟩ ∈ runs "\u017fubproc END".toList ∧
    WordRun.keyword? ⟨[], "\u017fubproc".toList, " END".toList⟩ = none ∧
    keywords "\u017fubproc END".toList = [.blockEnd] := by
  obtain ⟨hall, -, -, -, hfolded⟩ := keywords_eq_runs "\u017fubproc END".toList
  have hfold : "\u017fubproc".toList.map foldCase = Keyword.subproc.letters := by decide +kernel
  have hne : "\u017fubproc".toList.map Char.toLower ≠ Keyword.subproc.letters := by decide +kernel
  have hkeywords : keywords "\u017fubproc END".toList = [.blockEnd] := by
    rw [hall]
    decide +kernel
  exact ⟨hfold, hne, by decide +kernel, hfolded _ .subproc hfold hne, hkeywords⟩

end TalOutline
