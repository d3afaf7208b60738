import TalOutline.Cancel
import TalOutline.Fold.All

/-! The pass for folds as it is made when it may be cancelled. -/
namespace TalOutline.Fold

/-- The pass over the lines, which asks before each of them. -/
def scanPolling (opened : List OpenToggle) (run : Option CommentRun) (stack : List Nat) (n : Nat) :
    List Line → Polling Found
  | [] => return scanFrom opened run stack n []
  | line :: rest => do
    Polling.ask n
    let toggles := toggleTracker.step opened n line
    let comments := commentTracker.step run n line
    let blocks := blockTracker.step stack n line
    let later ← scanPolling toggles.1 comments.1 blocks.1 (n + 1) rest
    return later.cons n toggles.2 comments.2 blocks.2

def scanUntil (point : CancelPoint) (lines : List Line) : Except Error (List Fold) :=
  (Found.all <$> scanPolling [] none [] 0 lines).run' point

end TalOutline.Fold
