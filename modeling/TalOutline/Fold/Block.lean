import TalOutline.Comment
import TalOutline.Fold.Basic
import TalOutline.Keyword

/-! Folds between matching `begin` and `end` keywords. -/
namespace TalOutline.Fold

def blockWords (line : Line) : List Keyword :=
  blockKeywords (Comment.strip line)

/-- Takes in the keywords of one line. The stack holds the lines of the open `begin` keywords. -/
def stepBlocks (n : Nat) : List Nat → List Keyword → List Nat × List Fold
  | opened, [] => (opened, [])
  | opened, .blockBegin :: rest => stepBlocks n (n :: opened) rest
  | first :: opened, .blockEnd :: rest =>
    let later := stepBlocks n opened rest
    (later.1, (upTo? .region first n).toList ++ later.2)
  | opened, _ :: rest => stepBlocks n opened rest

def blockTracker : Tracker (List Nat) where
  start := []
  step opened n line := stepBlocks n opened (blockWords line)
  -- A keyword that is still open has no fold.
  finish _ _ := []

def blocks (lines : List Line) : List Fold :=
  blockTracker.run [] 0 lines

end TalOutline.Fold
