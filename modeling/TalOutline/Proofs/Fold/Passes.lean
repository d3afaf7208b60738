import Mathlib.Data.List.Forall2
import TalOutline.Fold.All
import TalOutline.Proofs.Fold.CommentRuns

/-!
One pass over a document finds what three passes find, and its folds lie within the document. Its
arithmetic is safe: done again with every difference of line numbers checked, and every line number that
goes into a fold held to 32 bits, it gives the same folds and does not fail.
-/
namespace TalOutline

/-- A fold of a kind, with more than one line, that ends right before a line. -/
def Fold.EndsBefore (kind : FoldKind) (n : Nat) (fold : Fold) : Prop :=
  fold.kind = kind ∧ fold.first < fold.last ∧ fold.last + 1 = n

theorem Fold.endsBefore_of_upTo? {kind : FoldKind} {first n : Nat} {fold : Fold}
    (h : upTo? kind first n = some fold) : fold.EndsBefore kind n := by
  obtain ⟨hkind, hlt, -, hlast⟩ := upTo?_eq_some_iff.1 h
  exact ⟨hkind, hlt, hlast⟩

/-- A fold comes of a line of the document or of its end. -/
theorem Tracker.mem_run_cases {σ : Type} {t : Tracker σ} {s : σ} {n : Nat} {lines : List Line}
    {fold : Fold} (h : fold ∈ t.run s n lines) :
    (∃ s' m line, m < n + lines.length ∧ fold ∈ (t.step s' m line).2) ∨
      ∃ s', fold ∈ t.finish s' (n + lines.length) := by
  induction lines generalizing s n with
  | nil => exact .inr ⟨s, h⟩
  | cons line rest ih =>
    have hlength : n + (line :: rest).length = n + 1 + rest.length := by
      rw [List.length_cons]
      omega
    rw [hlength]
    rw [run, List.mem_append] at h
    rcases h with h | h
    · exact .inl ⟨s, n, line, by omega, h⟩
    · exact ih h

/-- Two documents give the same folds if line by line they do, in states that stay related. -/
theorem Tracker.run_eq_of_related {σ : Type} {t : Tracker σ} {R : σ → σ → Prop}
    {L : Line → Line → Prop}
    (hstep : ∀ s s' n line line', R s s' → L line line' →
      R (t.step s n line).1 (t.step s' n line').1 ∧ (t.step s n line).2 = (t.step s' n line').2)
    (hfinish : ∀ s s' n, R s s' → t.finish s n = t.finish s' n) {lines lines' : List Line}
    (h : List.Forall₂ L lines lines') {s s' : σ} (hs : R s s') (n : Nat) :
    t.run s n lines = t.run s' n lines' := by
  induction h generalizing s s' n with
  | nil => exact hfinish s s' n hs
  | cons hline hrest ih =>
    obtain ⟨hnext, hfolds⟩ := hstep s s' n _ _ hs hline
    rw [run, run, hfolds, ih hnext]

namespace Fold

/-- What a document has of blocks depends on the `begin` and `end` keywords of its lines. -/
theorem blocks_congr {lines lines' : List Line}
    (h : List.Forall₂ (fun line line' => blockWords line = blockWords line') lines lines') :
    blocks lines = blocks lines' := by
  refine Tracker.run_eq_of_related (R := Eq) ?_ (fun _ _ _ _ => rfl) h rfl 0
  intro s s' n line line' hs hline
  subst hs
  simp only [blockTracker, hline, and_self]

/-- The common pass is the three trackers side by side. -/
theorem scanFrom_eq (opened : List OpenToggle) (run : Option CommentRun) (stack : List Nat)
    (n : Nat) (lines : List Line) :
    (scanFrom opened run stack n lines).toggles = toggleTracker.run opened n lines ∧
      (scanFrom opened run stack n lines).comments = commentTracker.run run n lines ∧
      (scanFrom opened run stack n lines).blocks = blockTracker.run stack n lines := by
  induction lines generalizing opened run stack n with
  | nil => exact ⟨rfl, rfl, rfl⟩
  | cons line rest ih =>
    obtain ⟨htoggles, hcomments, hblocks⟩ := ih (toggleTracker.step opened n line).1
      (commentTracker.step run n line).1 (blockTracker.step stack n line).1 (n + 1)
    simp only [scanFrom, Found.cons, Tracker.run]
    exact ⟨congrArg _ htoggles, congrArg _ hcomments, congrArg _ hblocks⟩

theorem all_eq (lines : List Line) :
    all lines = toggles lines ++ comments lines ++ blocks lines := by
  obtain ⟨htoggles, hcomments, hblocks⟩ := scanFrom_eq [] none [] 0 lines
  unfold all Found.all scan
  simp only [htoggles, hcomments, hblocks]
  rfl

section Bounds

variable {n : Nat} {fold : Fold}

theorem endsBefore_stepToggle {opened : List OpenToggle} {line : Line}
    (h : fold ∈ (toggleTracker.step opened n line).2) : fold.EndsBefore .region n := by
  simp only [toggleTracker] at h
  cases ht : Toggle.parse? line with
  | none => simp [ht] at h
  | some t =>
    rw [ht] at h
    obtain ⟨e, -, hfold⟩ := Option.bind_eq_some_iff.1 (Option.mem_toList.1 h)
    exact endsBefore_of_upTo? hfold

theorem endsBefore_stepBlocks {opened : List Nat} {words : List Keyword}
    (h : fold ∈ (stepBlocks n opened words).2) : fold.EndsBefore .region n := by
  fun_induction stepBlocks n opened words with
  | case1 opened => cases h
  | case2 opened rest ih => exact ih h
  | case3 rest first opened later ih =>
    rcases List.mem_append.1 h with h | h
    · exact endsBefore_of_upTo? (Option.mem_toList.1 h)
    · exact ih h
  | case4 opened k rest hbegin hend ih => exact ih h

/-- A region is closed by a line of the document, which is not part of it. -/
theorem last_lt_of_region {lines : List Line} (h : fold ∈ toggles lines ∨ fold ∈ blocks lines) :
    fold.first < fold.last ∧ fold.last + 1 < lines.length := by
  have hends : ∃ m, m < 0 + lines.length ∧ fold.EndsBefore .region m := by
    rcases h with h | h
    · rcases Tracker.mem_run_cases h with ⟨s, m, line, hm, hstep⟩ | ⟨s, hfinish⟩
      · exact ⟨m, hm, endsBefore_stepToggle hstep⟩
      · cases hfinish
    · rcases Tracker.mem_run_cases h with ⟨s, m, line, hm, hstep⟩ | ⟨s, hfinish⟩
      · exact ⟨m, hm, endsBefore_stepBlocks hstep⟩
      · cases hfinish
  obtain ⟨m, hm, -, hlt, hlast⟩ := hends
  exact ⟨hlt, by omega⟩

/-- A run of comment lines may go on to the end of the document. -/
theorem last_lt_of_comment {lines : List Line} (h : fold ∈ comments lines) :
    fold.kind = .comment ∧ fold.first < fold.last ∧ fold.last < lines.length := by
  obtain ⟨hkind, hrun⟩ := (mem_comments_iff lines fold).1 h
  have hlast := hrun.inside fold.last (Nat.le_of_lt hrun.lt) (Nat.le_refl _)
  exact ⟨hkind, hrun.lt, hlast.lt_length⟩

theorem bounds_of_mem_all {lines : List Line} (h : fold ∈ all lines) :
    fold.first < fold.last ∧ fold.last < lines.length ∧
      (fold.kind = .region → fold.last < lines.length - 1) := by
  rw [all_eq, List.mem_append, List.mem_append, or_right_comm] at h
  rcases h with h | h
  · obtain ⟨hlt, hlast⟩ := last_lt_of_region h
    exact ⟨hlt, by omega, fun _ => by omega⟩
  · obtain ⟨hkind, hlt, hlast⟩ := last_lt_of_comment h
    refine ⟨hlt, hlast, ?_⟩
    intro hregion
    rw [hkind] at hregion
    cases hregion

end Bounds

end Fold

/-- The difference of two numbers, where it is not negative. -/
def minus? (a b : Nat) : Option Nat :=
  if b ≤ a then some (a - b) else none

/-- A number that fits 32 bits. -/
def word? (n : Nat) : Option Nat :=
  if n < UInt32.size then some n else none

/-- A tracker whose arithmetic may fail. -/
structure CheckedTracker (σ : Type) where
  step : σ → Nat → Line → Option (σ × List Fold)
  finish : σ → Nat → Option (List Fold)

namespace CheckedTracker

variable {σ : Type}

def run (c : CheckedTracker σ) : σ → Nat → List Line → Option (List Fold)
  | s, n, [] => c.finish s n
  | s, n, line :: rest => do
    let (s', folds) ← c.step s n line
    let later ← c.run s' (n + 1) rest
    return folds ++ later

/-- In good states a checked tracker does what a tracker does, which leads to good states only. -/
structure Follows (c : CheckedTracker σ) (t : Tracker σ) (Good : σ → Nat → Prop) : Prop where
  step : ∀ s n line, Good s n → n < UInt32.size → c.step s n line = some (t.step s n line)
  good : ∀ s n line, Good s n → Good (t.step s n line).1 (n + 1)
  finish : ∀ s n, Good s n → n < UInt32.size → c.finish s n = some (t.finish s n)

theorem Follows.run_eq {c : CheckedTracker σ} {t : Tracker σ} {Good : σ → Nat → Prop}
    (h : c.Follows t Good) {s : σ} {n : Nat} (hgood : Good s n) {lines : List Line}
    (hlength : n + lines.length < UInt32.size) : c.run s n lines = some (t.run s n lines) := by
  induction lines generalizing s n with
  | nil => exact h.finish s n hgood hlength
  | cons line rest ih =>
    rw [List.length_cons] at hlength
    have hstep := h.step s n line hgood (by omega)
    have hrest := ih (h.good s n line hgood) (by omega)
    rw [run, hstep]
    simp only [Option.bind_eq_bind, Option.bind_some, hrest]
    rfl

end CheckedTracker

namespace Fold

/-- The fold that ends right before a line, by checked arithmetic. -/
def checkedUpTo? (kind : FoldKind) (first next : Nat) : Option (List Fold) := do
  let height ← minus? next first
  if 1 < height then
    let last ← minus? next 1
    return [⟨← word? first, ← word? last, kind⟩]
  else
    return []

/-- Nothing goes wrong where a fold is closed on a later line than it was opened, or the same. -/
theorem checkedUpTo?_eq {kind : FoldKind} {first next : Nat} (hle : first ≤ next)
    (hnext : next < UInt32.size) :
    checkedUpTo? kind first next = some (upTo? kind first next).toList := by
  have hheight : minus? next first = some (next - first) := if_pos hle
  unfold checkedUpTo? upTo?
  rw [hheight]
  simp only [Option.bind_eq_bind, Option.bind_some]
  by_cases hlt : first + 1 < next
  · have hspan : 1 < next - first := by omega
    have hlast : minus? next 1 = some (next - 1) := if_pos (by omega)
    have hfirst : word? first = some first := if_pos (by omega)
    have hword : word? (next - 1) = some (next - 1) := if_pos (by omega)
    rw [if_pos hlt, if_pos hspan, hlast, hfirst]
    simp only [Option.bind_some, hword]
    rfl
  · have hspan : ¬ 1 < next - first := by omega
    rw [if_neg hlt, if_neg hspan]
    rfl

def checkedToggleTracker : CheckedTracker (List OpenToggle) where
  step opened n line :=
    match Toggle.parse? line with
    | none => some (opened, [])
    | some t =>
      match opened.find? (t.closes ·.toggle) with
      | none => some ((stepToggle opened n t).1, [])
      | some e => (checkedUpTo? .region e.line n).map ((stepToggle opened n t).1, ·)
  finish _ _ := some []

def checkedCloseRun (run : Option CommentRun) : Option (List Fold) :=
  match run with
  | none => some []
  | some r => do
    if r.first < r.last then
      return [⟨← word? r.first, ← word? r.last, .comment⟩]
    else
      return []

def checkedCommentTracker : CheckedTracker (Option CommentRun) where
  step run n line :=
    if isCommentLine line then
      match run with
      | none => some (some ⟨n, n⟩, [])
      | some r =>
        if r.last + 1 = n then some (some ⟨r.first, n⟩, [])
        else (checkedCloseRun run).map (some ⟨n, n⟩, ·)
    else (checkedCloseRun run).map (none, ·)
  finish run _ := checkedCloseRun run

def checkedStepBlocks (n : Nat) : List Nat → List Keyword → Option (List Nat × List Fold)
  | opened, [] => some (opened, [])
  | opened, .blockBegin :: rest => checkedStepBlocks n (n :: opened) rest
  | first :: opened, .blockEnd :: rest => do
    let folds ← checkedUpTo? .region first n
    let later ← checkedStepBlocks n opened rest
    return (later.1, folds ++ later.2)
  | opened, _ :: rest => checkedStepBlocks n opened rest

def checkedBlockTracker : CheckedTracker (List Nat) where
  step opened n line := checkedStepBlocks n opened (blockWords line)
  finish _ _ := some []

/-- All folds of a document by checked arithmetic. -/
def checkedAll? (lines : List Line) : Option (List Fold) := do
  let toggles ← checkedToggleTracker.run [] 0 lines
  let comments ← checkedCommentTracker.run none 0 lines
  let blocks ← checkedBlockTracker.run [] 0 lines
  return toggles ++ comments ++ blocks

theorem line_le_of_mem_stepToggle {opened : List OpenToggle} {n : Nat}
    (hopened : ∀ e ∈ opened, e.line ≤ n) (t : Toggle) :
    ∀ e ∈ (stepToggle opened n t).1, e.line ≤ n := by
  intro e he
  unfold stepToggle at he
  simp only at he
  split at he
  · exact hopened e (List.mem_of_mem_eraseP he)
  · rcases List.mem_cons.1 he with rfl | he
    · exact Nat.le_refl n
    · exact hopened e (List.mem_of_mem_eraseP he)

theorem checkedToggleTracker_follows :
    checkedToggleTracker.Follows toggleTracker fun opened n => ∀ e ∈ opened, e.line ≤ n where
  step := by
    intro opened n line hopened hn
    simp only [checkedToggleTracker, toggleTracker]
    cases Toggle.parse? line with
    | none => rfl
    | some t =>
      simp only
      cases hfind : opened.find? (t.closes ·.toggle) with
      | none =>
        unfold stepToggle
        simp only [hfind]
        rfl
      | some e =>
        have hle := hopened e (List.mem_of_find?_eq_some hfind)
        unfold stepToggle
        simp only [hfind, checkedUpTo?_eq hle hn]
        rfl
  good := by
    intro opened n line hopened e he
    simp only [toggleTracker] at he
    apply Nat.le_succ_of_le
    cases ht : Toggle.parse? line with
    | none =>
      rw [ht] at he
      exact hopened e he
    | some t =>
      rw [ht] at he
      exact line_le_of_mem_stepToggle hopened t e he
  finish _ _ _ _ := rfl

theorem checkedCloseRun_eq {run : Option CommentRun} {n : Nat} (hrun : Reaches run n)
    (hn : n < UInt32.size) : checkedCloseRun run = some (closeRun run) := by
  cases run with
  | none => rfl
  | some r =>
    obtain ⟨hle, hlast⟩ := hrun r rfl
    have hfirst : word? r.first = some r.first := if_pos (by omega)
    have hword : word? r.last = some r.last := if_pos (by omega)
    unfold checkedCloseRun closeRun
    dsimp only
    rw [hfirst, hword]
    split <;> rfl

theorem checkedCommentTracker_follows : checkedCommentTracker.Follows commentTracker Reaches where
  step := by
    intro run n line hrun hn
    have hclose := checkedCloseRun_eq hrun hn
    simp only [checkedCommentTracker, commentTracker, hclose]
    split
    · cases run with
      | none => rfl
      | some r => simp only [if_pos (hrun r rfl).2]
    · rfl
  good _ _ line hrun := hrun.step line
  finish _ _ hrun hn := checkedCloseRun_eq hrun hn

theorem le_of_mem_stepBlocks {n : Nat} {opened : List Nat} (hopened : ∀ first ∈ opened, first ≤ n)
    (words : List Keyword) : ∀ first ∈ (stepBlocks n opened words).1, first ≤ n := by
  fun_induction stepBlocks n opened words with
  | case1 opened => exact hopened
  | case2 opened rest ih => exact ih (List.forall_mem_cons.2 ⟨Nat.le_refl n, hopened⟩)
  | case3 rest first opened later ih => exact ih (List.forall_mem_cons.1 hopened).2
  | case4 opened k rest hbegin hend ih => exact ih hopened

theorem checkedStepBlocks_eq {n : Nat} (hn : n < UInt32.size) {opened : List Nat}
    (hopened : ∀ first ∈ opened, first ≤ n) (words : List Keyword) :
    checkedStepBlocks n opened words = some (stepBlocks n opened words) := by
  fun_induction stepBlocks n opened words with
  | case1 opened => cases opened <;> rfl
  | case2 opened rest ih =>
    have hpush : ∀ first ∈ n :: opened, first ≤ n :=
      List.forall_mem_cons.2 ⟨Nat.le_refl n, hopened⟩
    cases opened <;> exact ih hpush
  | case3 rest first opened later ih =>
    obtain ⟨hfirst, hrest⟩ := List.forall_mem_cons.1 hopened
    rw [checkedStepBlocks, checkedUpTo?_eq hfirst hn]
    simp only [Option.bind_eq_bind, Option.bind_some, ih hrest]
    rfl
  | case4 opened k rest hbegin hend ih =>
    rw [checkedStepBlocks]
    · exact ih hopened
    · exact hbegin
    · exact hend

theorem checkedBlockTracker_follows :
    checkedBlockTracker.Follows blockTracker fun opened n => ∀ first ∈ opened, first ≤ n where
  step _ _ line hopened hn := checkedStepBlocks_eq hn hopened (blockWords line)
  good := by
    intro opened n line hopened first hfirst
    exact Nat.le_succ_of_le (le_of_mem_stepBlocks hopened (blockWords line) first hfirst)
  finish _ _ _ _ := rfl

theorem checkedAll?_eq {lines : List Line} (hlength : lines.length < UInt32.size) :
    checkedAll? lines = some (all lines) := by
  have hcount : 0 + lines.length < UInt32.size := by omega
  have htoggles := checkedToggleTracker_follows.run_eq (s := []) (by simp) hcount
  have hcomments :=
    checkedCommentTracker_follows.run_eq (s := none) (fun _ hr => nomatch hr) hcount
  have hblocks := checkedBlockTracker_follows.run_eq (s := []) (by simp) hcount
  unfold checkedAll?
  rw [htoggles, hcomments, hblocks, all_eq]
  rfl

/--
The folds of a document with fewer than 2 ^ 32 lines: one pass gives what three passes give, every fold
has more than one line and lies within the document, a region ends before the last line, and no
difference of line numbers is negative on the way.
-/
theorem all_fused {lines : List Line} (hlength : lines.length < UInt32.size) :
    all lines = toggles lines ++ comments lines ++ blocks lines ∧
    (∀ fold ∈ all lines, fold.first < fold.last ∧ fold.last < lines.length ∧
      (fold.kind = .region → fold.last < lines.length - 1)) ∧
    checkedAll? lines = some (all lines) :=
  ⟨all_eq lines, fun _ hfold => bounds_of_mem_all hfold, checkedAll?_eq hlength⟩

/-- A document with a fold of each sort, the block first and the toggles last. -/
def oneOfEach : List Line :=
  ["begin", "  x;", "end;", "-- a", "-- b", "?if t", "y;", "?endif t"].map String.toList

theorem all_fused_oneOfEach :
    oneOfEach.length < UInt32.size ∧
    checkedAll? oneOfEach = some [⟨5, 6, .region⟩, ⟨3, 4, .comment⟩, ⟨0, 1, .region⟩] := by
  have hlength : oneOfEach.length < UInt32.size := by decide
  have hall : all oneOfEach = [⟨5, 6, .region⟩, ⟨3, 4, .comment⟩, ⟨0, 1, .region⟩] := by
    decide +kernel
  obtain ⟨-, -, hchecked⟩ := all_fused hlength
  rw [hall] at hchecked
  exact ⟨hlength, hchecked⟩

end Fold

end TalOutline
