import TalOutline.Directive
import TalOutline.Fold.Basic

/-! Folds between toggles with the same id. -/
namespace TalOutline.Fold

structure OpenToggle where
  toggle : Toggle
  line : Nat
  deriving DecidableEq, Repr

/-- Takes in a toggle. It closes the latest open one it can, and opens its own unless it ends one. -/
def stepToggle (opened : List OpenToggle) (n : Nat) (t : Toggle) : List OpenToggle × List Fold :=
  let closed := opened.find? (t.closes ·.toggle)
  let kept := opened.eraseP (t.closes ·.toggle)
  (if t.kind = .endIf then kept else ⟨t, n⟩ :: kept,
    (closed.bind (upTo? .region ·.line n)).toList)

def toggleTracker : Tracker (List OpenToggle) where
  start := []
  step opened n line :=
    match Toggle.parse? line with
    | none => (opened, [])
    | some t => stepToggle opened n t
  -- A region that is still open has no fold.
  finish _ _ := []

def toggles (lines : List Line) : List Fold :=
  toggleTracker.run [] 0 lines

end TalOutline.Fold
