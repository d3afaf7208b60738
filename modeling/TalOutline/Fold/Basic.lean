import TalOutline.Line

/-! Folds, and trackers that find them in one pass over the lines. -/
namespace TalOutline

inductive FoldKind where
  | region
  | comment
  deriving DecidableEq, Repr

def FoldKind.text : FoldKind → String
  | .region => "region"
  | .comment => "comment"

/-- Lines that can be hidden together, both ends included and counted from zero. -/
structure Fold where
  first : Nat
  last : Nat
  kind : FoldKind
  deriving DecidableEq, Repr

def Fold.upTo? (kind : FoldKind) (first next : Nat) : Option Fold :=
  if first + 1 < next then some ⟨first, next - 1, kind⟩ else none

theorem Fold.upTo?_eq_some_iff {kind : FoldKind} {s c : Nat} {fold : Fold} :
    upTo? kind s c = some fold ↔
      fold.kind = kind ∧ fold.first < fold.last ∧ fold.first = s ∧ fold.last + 1 = c := by
  unfold upTo?
  obtain ⟨first, last, k⟩ := fold
  split
  · simp only [Option.some.injEq, Fold.mk.injEq]
    constructor
    · intro h
      obtain ⟨rfl, rfl, rfl⟩ := h
      exact ⟨rfl, by omega, rfl, by omega⟩
    · intro h
      obtain ⟨rfl, -, rfl, rfl⟩ := h
      exact ⟨rfl, rfl, rfl⟩
  · simp only [reduceCtorEq, false_iff]
    omega

/-- A tracker is fed line by line. It gives the folds that a line, or the end, brings to a close. -/
structure Tracker (σ : Type) where
  start : σ
  step : σ → Nat → Line → σ × List Fold
  finish : σ → Nat → List Fold

def Tracker.run {σ : Type} (t : Tracker σ) : σ → Nat → List Line → List Fold
  | s, n, [] => t.finish s n
  | s, n, line :: rest => (t.step s n line).2 ++ t.run (t.step s n line).1 (n + 1) rest

end TalOutline
