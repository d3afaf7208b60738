import Mathlib.Data.List.TakeWhile
import TalOutline.Fold.CommentBlock

/-!
Folds of comments are the maximal runs of comment lines with more than one line. The run that the tracker
keeps reaches up to the line before the next one, so its test for a gap always passes.
-/
namespace TalOutline.Fold

open Text

/--
A comment line has at most seventy white-space characters in front of `--`, or in front of a `!` where
white space is all that is left without comments.
-/
def CommentLine (line : Line) : Prop :=
  ∃ indent rest, line = indent ++ rest ∧ (∀ c ∈ indent, isBlank c = true) ∧ indent.length ≤ 70 ∧
    (['-', '-'] <+: rest ∨ ['!'] <+: rest ∧ ∀ c ∈ Comment.strip line, isBlank c = true)

theorem isCommentLine_append {indent : List Char} (hblank : ∀ c ∈ indent, isBlank c = true)
    {mark : Char} (hmark : isBlank mark = false) (rest : List Char) :
    isCommentLine (indent ++ mark :: rest) = true ↔ indent.length ≤ 70 ∧
      (['-', '-'] <+: mark :: rest ∨
        ['!'] <+: mark :: rest ∧ ∀ c ∈ Comment.strip (indent ++ mark :: rest), isBlank c = true) := by
  have htake : (indent ++ mark :: rest).takeWhile isBlank = indent := by
    rw [List.takeWhile_append_of_pos hblank, List.takeWhile_cons_of_neg (by simp [hmark]),
      List.append_nil]
  have hdrop : trimStart (indent ++ mark :: rest) = mark :: rest := by
    unfold trimStart
    rw [List.dropWhile_append_of_pos hblank, List.dropWhile_cons_of_neg (by simp [hmark])]
  unfold isCommentLine
  rw [htake, hdrop, Bool.and_eq_true, decide_eq_true_iff, maxCommentIndent]
  apply and_congr_right
  intro _
  split
  · next h =>
    obtain ⟨rfl, rfl⟩ := List.cons.inj h
    simp
  · next h =>
    obtain ⟨rfl, rfl⟩ := List.cons.inj h
    simp [trimStart, List.dropWhile_eq_nil_iff]
  · next hdash hbang =>
    have hnodash : ¬ ['-', '-'] <+: mark :: rest := by
      intro h
      obtain ⟨tail, htail⟩ := h
      exact hdash tail htail.symm
    have hnobang : ¬ ['!'] <+: mark :: rest := by
      intro h
      obtain ⟨tail, htail⟩ := h
      exact hbang tail htail.symm
    simp [hnodash, hnobang]

theorem isCommentLine_iff (line : Line) : isCommentLine line = true ↔ CommentLine line := by
  constructor
  · intro h
    have hblank : ∀ c ∈ line.takeWhile isBlank, isBlank c = true := fun c hc =>
      List.mem_takeWhile_imp hc
    have hsplit : line.takeWhile isBlank ++ line.dropWhile isBlank = line :=
      List.takeWhile_append_dropWhile
    cases hrest : line.dropWhile isBlank with
    | nil =>
      unfold isCommentLine trimStart at h
      rw [hrest] at h
      simp at h
    | cons mark rest =>
      have hmark : isBlank mark = false := by
        have := List.head?_dropWhile_not isBlank line
        simpa [hrest] using this
      rw [hrest] at hsplit
      rw [← hsplit, isCommentLine_append hblank hmark, hsplit] at h
      exact ⟨_, _, hsplit.symm, hblank, h⟩
  · intro h
    obtain ⟨indent, rest, hline, hblank, hmarked⟩ := h
    have hmark : ∃ mark tail, rest = mark :: tail ∧ isBlank mark = false := by
      rcases hmarked.2 with ⟨tail, rfl⟩ | ⟨⟨tail, rfl⟩, -⟩
      · exact ⟨'-', '-' :: tail, rfl, by decide⟩
      · exact ⟨'!', tail, rfl, by decide⟩
    obtain ⟨mark, tail, rfl, hmark⟩ := hmark
    subst hline
    exact (isCommentLine_append hblank hmark tail).2 hmarked

def CommentAt (lines : List Line) (n : Nat) : Prop :=
  ∃ line, lines[n]? = some line ∧ CommentLine line

/-- Two or more consecutive comment lines, with no comment line right before or right after them. -/
structure MaximalRun (lines : List Line) (s e : Nat) : Prop where
  lt : s < e
  inside : ∀ n, s ≤ n → n ≤ e → CommentAt lines n
  before : ∀ n, n + 1 = s → ¬ CommentAt lines n
  after : ¬ CommentAt lines (e + 1)

section Lines

variable {lines : List Line} {s e n : Nat}

theorem CommentAt.lt_length (h : CommentAt lines n) : n < lines.length := by
  obtain ⟨line, hline, -⟩ := h
  exact (List.getElem?_eq_some_iff.1 hline).1

theorem commentAt_length_iff (read : List Line) (line : Line) (rest : List Line) :
    CommentAt (read ++ line :: rest) read.length ↔ isCommentLine line = true := by
  unfold CommentAt
  rw [isCommentLine_iff]
  simp

theorem MaximalRun.lt_first {s' e' : Nat} (h : MaximalRun lines s e) (h' : MaximalRun lines s' e')
    (hlt : e < e') : e < s' := by
  apply Nat.lt_of_not_le
  intro hle
  exact h.after (h'.inside (e + 1) (Nat.le_succ_of_le hle) hlt)

/-- The comment lines from the first number up to the second, as far back as they go. -/
structure Leading (lines : List Line) (s n : Nat) : Prop where
  le : s ≤ n
  inside : ∀ k, s ≤ k → k < n → CommentAt lines k
  before : ∀ k, k + 1 = s → ¬ CommentAt lines k

namespace Leading

theorem zero (lines : List Line) : Leading lines 0 0 where
  le := Nat.le_refl 0
  inside := by omega
  before := by omega

theorem extend (h : Leading lines s n) (hn : CommentAt lines n) : Leading lines s (n + 1) where
  le := Nat.le_succ_of_le h.le
  inside := by
    intro k hk hlt
    rcases Nat.lt_succ_iff_lt_or_eq.1 hlt with hlt | rfl
    · exact h.inside k hk hlt
    · exact hn
  before := h.before

theorem restart (hn : ¬ CommentAt lines n) : Leading lines (n + 1) (n + 1) where
  le := Nat.le_refl _
  inside := by omega
  before := by
    intro k hk
    rw [Nat.add_right_cancel hk]
    exact hn

/-- Where comment lines come to their end, the maximal run that ends there is all of them. -/
theorem upTo?_eq_some_iff (h : Leading lines s n) (hn : ¬ CommentAt lines n) {fold : Fold} :
    upTo? .comment s n = some fold ↔
      (fold.kind = .comment ∧ MaximalRun lines fold.first fold.last) ∧ fold.last + 1 = n := by
  rw [Fold.upTo?_eq_some_iff]
  constructor
  · intro hfold
    obtain ⟨hkind, hlt, rfl, rfl⟩ := hfold
    refine ⟨⟨hkind, hlt, ?_, h.before, hn⟩, rfl⟩
    intro k hk hle
    exact h.inside k hk (Nat.lt_succ_of_le hle)
  · intro hfold
    obtain ⟨⟨hkind, hrun⟩, rfl⟩ := hfold
    refine ⟨hkind, hrun.lt, ?_, rfl⟩
    have hle := h.le
    rcases Nat.lt_trichotomy fold.first s with hlt | heq | hgt
    · -- The line before `s` would be in the run.
      have hmem := hrun.inside (s - 1) (by omega) (by omega)
      exact absurd hmem (h.before (s - 1) (by omega))
    · exact heq
    · have hrunlt := hrun.lt
      have hmem := h.inside (fold.first - 1) (by omega) (by omega)
      exact absurd hmem (hrun.before (fold.first - 1) (by omega))

end Leading

end Lines

section Run

variable {run : Option CommentRun} {n : Nat}

/-- A run that may go on reaches up to the line before the next one. -/
def Reaches (run : Option CommentRun) (n : Nat) : Prop :=
  ∀ r ∈ run, r.first ≤ r.last ∧ r.last + 1 = n

def runStart (run : Option CommentRun) (n : Nat) : Nat :=
  match run with
  | none => n
  | some r => r.first

/-- No line is passed over, so the tracker never finds a gap behind its run. -/
theorem Reaches.step_eq (h : Reaches run n) (line : Line) :
    commentTracker.step run n line =
      if isCommentLine line then (some ⟨runStart run n, n⟩, []) else (none, closeRun run) := by
  cases run with
  | none => rfl
  | some r =>
    have hlast : r.last + 1 = n := (h r rfl).2
    simp only [commentTracker, runStart, if_pos hlast]

theorem Reaches.step (h : Reaches run n) (line : Line) :
    Reaches (commentTracker.step run n line).1 (n + 1) := by
  rw [h.step_eq]
  intro r hr
  split at hr
  · have hrun : CommentRun.mk (runStart run n) n = r := Option.some.inj hr
    subst hrun
    refine ⟨?_, rfl⟩
    show runStart run n ≤ n
    cases run with
    | none => exact Nat.le_refl n
    | some r =>
      obtain ⟨hle, hlast⟩ := h r rfl
      show r.first ≤ n
      omega
  · cases hr

theorem Reaches.closeRun_eq (h : Reaches run n) :
    closeRun run = (upTo? .comment (runStart run n) n).toList := by
  cases run with
  | none =>
    have hshort : ¬ n + 1 < n := by omega
    show [] = (upTo? .comment n n).toList
    rw [upTo?, if_neg hshort, Option.toList_none]
  | some r =>
    have hlast : r.last + 1 = n := (h r rfl).2
    subst hlast
    simp only [closeRun, runStart, upTo?, Nat.add_lt_add_iff_right, Nat.add_sub_cancel]
    split <;> rfl

/-- The state of the tracker in line with what has been read. -/
structure Current (lines : List Line) (run : Option CommentRun) (n : Nat) : Prop where
  reaches : Reaches run n
  leading : Leading lines (runStart run n) n

namespace Current

theorem start (lines : List Line) : Current lines none 0 where
  reaches := by
    intro r hr
    cases hr
  leading := Leading.zero lines

variable {read : List Line} {line : Line} {rest : List Line}

theorem step (h : Current (read ++ line :: rest) run read.length) :
    Current (read ++ line :: rest) (commentTracker.step run read.length line).1
      (read.length + 1) where
  reaches := h.reaches.step line
  leading := by
    have hat := commentAt_length_iff read line rest
    rw [h.reaches.step_eq]
    split
    · next hline => exact h.leading.extend (hat.2 hline)
    · next hline => exact Leading.restart fun hcomment => hline (hat.1 hcomment)

theorem mem_step_iff (h : Current (read ++ line :: rest) run read.length) (fold : Fold) :
    fold ∈ (commentTracker.step run read.length line).2 ↔
      (fold.kind = .comment ∧ MaximalRun (read ++ line :: rest) fold.first fold.last) ∧
        fold.last + 1 = read.length := by
  have hat := commentAt_length_iff read line rest
  rw [h.reaches.step_eq]
  split
  · next hline =>
    simp only [List.not_mem_nil, false_iff]
    intro hrun
    have hafter := hrun.1.2.after
    rw [hrun.2] at hafter
    exact hafter (hat.2 hline)
  · next hline =>
    have hcomment : ¬ CommentAt (read ++ line :: rest) read.length := fun hc => hline (hat.1 hc)
    rw [h.reaches.closeRun_eq, Option.mem_toList, h.leading.upTo?_eq_some_iff hcomment]

theorem mem_finish_iff (h : Current read run read.length) (fold : Fold) :
    fold ∈ commentTracker.finish run read.length ↔
      (fold.kind = .comment ∧ MaximalRun read fold.first fold.last) ∧
        fold.last + 1 = read.length := by
  have hend : ¬ CommentAt read read.length := fun hat => Nat.lt_irrefl _ hat.lt_length
  show fold ∈ closeRun run ↔ _
  rw [h.reaches.closeRun_eq, Option.mem_toList, h.leading.upTo?_eq_some_iff hend]

/-- What the tracker finds from a line on are the maximal runs that do not end earlier. -/
theorem mem_run_iff (h : Current (read ++ rest) run read.length) (fold : Fold) :
    fold ∈ commentTracker.run run read.length rest ↔
      (fold.kind = .comment ∧ MaximalRun (read ++ rest) fold.first fold.last) ∧
        read.length ≤ fold.last + 1 := by
  induction rest generalizing read run with
  | nil =>
    rw [List.append_nil] at h ⊢
    rw [Tracker.run, h.mem_finish_iff]
    apply and_congr_right
    intro hrun
    have hlast := (hrun.2.inside fold.last (Nat.le_of_lt hrun.2.lt) (Nat.le_refl _)).lt_length
    omega
  | cons line rest ih =>
    have hlength : (read ++ [line]).length = read.length + 1 := by simp
    have hnext := h.step
    rw [← hlength, List.append_cons] at hnext
    have hrest := ih hnext
    rw [hlength, ← List.append_cons] at hrest
    rw [Tracker.run, List.mem_append, h.mem_step_iff, hrest, ← and_or_left]
    apply and_congr_right
    intro _
    omega

end Current

theorem closeRun_pairwise (run : Option CommentRun) :
    (closeRun run).Pairwise (·.last < ·.first) := by
  cases run with
  | none => exact .nil
  | some r =>
    unfold closeRun
    dsimp only
    split
    · exact List.pairwise_singleton _ _
    · exact .nil

theorem Current.run_pairwise {read rest : List Line}
    (h : Current (read ++ rest) run read.length) :
    (commentTracker.run run read.length rest).Pairwise (·.last < ·.first) := by
  induction rest generalizing read run with
  | nil => exact closeRun_pairwise run
  | cons line rest ih =>
    have hlength : (read ++ [line]).length = read.length + 1 := by simp
    have hnext := h.step
    rw [← hlength, List.append_cons] at hnext
    have hmem := hnext.mem_run_iff
    have hrest := ih hnext
    rw [hlength] at hmem hrest
    have hstep : (commentTracker.step run read.length line).2.Pairwise (·.last < ·.first) := by
      rw [h.reaches.step_eq]
      split
      · exact .nil
      · exact closeRun_pairwise run
    rw [Tracker.run, List.pairwise_append]
    refine ⟨hstep, hrest, ?_⟩
    intro fold hfold later hlater
    rw [h.mem_step_iff, List.append_cons] at hfold
    rw [hmem] at hlater
    obtain ⟨⟨-, hrun⟩, hlast⟩ := hfold
    obtain ⟨⟨-, hrun'⟩, hlast'⟩ := hlater
    exact hrun.lt_first hrun' (by omega)

theorem mem_comments_iff (lines : List Line) (fold : Fold) :
    fold ∈ comments lines ↔ fold.kind = .comment ∧ MaximalRun lines fold.first fold.last := by
  have hstart : Current ([] ++ lines) none ([] : List Line).length := .start lines
  have hmem := hstart.mem_run_iff fold
  rw [List.nil_append, List.length_nil, and_iff_left (Nat.zero_le _)] at hmem
  exact hmem

end Run

/--
The folds of comments are exactly the maximal runs of two or more comment lines, in the order of their
lines.
-/
theorem comments_maximal (lines : List Line) :
    (∀ fold, fold ∈ comments lines ↔
      fold.kind = .comment ∧ MaximalRun lines fold.first fold.last) ∧
    (comments lines).Pairwise (·.last < ·.first) := by
  have hstart : Current ([] ++ lines) none ([] : List Line).length := .start lines
  exact ⟨mem_comments_iff lines, hstart.run_pairwise⟩

/-- Code behind a comment breaks a run. -/
example : comments (["-- a", "-- b", "! note ! int x;", "  ! c !", "-- d"].map String.toList) =
    [⟨0, 1, .comment⟩, ⟨3, 4, .comment⟩] := by decide +kernel

end TalOutline.Fold
