import TalOutline.Fold.Block
import TalOutline.Fold.CommentBlock
import TalOutline.Fold.Toggle

/-! All folds of a document, found in one pass that feeds each line to three trackers. -/
namespace TalOutline.Fold

structure Found where
  toggles : List Fold
  comments : List Fold
  blocks : List Fold
  visits : List Nat
  deriving DecidableEq, Repr

def Found.cons (n : Nat) (toggles comments blocks : List Fold) (later : Found) : Found where
  toggles := toggles ++ later.toggles
  comments := comments ++ later.comments
  blocks := blocks ++ later.blocks
  visits := n :: later.visits

/-- One pass over the lines with the state of each tracker. -/
def scanFrom (opened : List OpenToggle) (run : Option CommentRun) (stack : List Nat) (n : Nat) :
    List Line → Found
  | [] =>
    { toggles := toggleTracker.finish opened n
      comments := commentTracker.finish run n
      blocks := blockTracker.finish stack n
      visits := [] }
  | line :: rest =>
    let toggles := toggleTracker.step opened n line
    let comments := commentTracker.step run n line
    let blocks := blockTracker.step stack n line
    (scanFrom toggles.1 comments.1 blocks.1 (n + 1) rest).cons n toggles.2 comments.2 blocks.2

def scan (lines : List Line) : Found :=
  scanFrom [] none [] 0 lines

/-- The folds found: first those of toggles, then of comments, then of blocks. -/
def Found.all (found : Found) : List Fold :=
  found.toggles ++ found.comments ++ found.blocks

def all (lines : List Line) : List Fold :=
  (scan lines).all

end TalOutline.Fold
