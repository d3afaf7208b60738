import TalOutline.Comment
import TalOutline.Fold.Basic

/-! Folds over runs of comment lines. -/
namespace TalOutline.Fold

open Text

def maxCommentIndent : Nat := 70

/--
Whether a line counts as a comment: after its indent stands `--`, or `!` when nothing but comments
is on the line.
-/
def isCommentLine (line : Line) : Bool :=
  (line.takeWhile isBlank).length ≤ maxCommentIndent &&
    match trimStart line with
    | '-' :: '-' :: _ => true
    | '!' :: _ => (trimStart (Comment.strip line)).isEmpty
    | _ => false

structure CommentRun where
  first : Nat
  last : Nat
  deriving DecidableEq, Repr

def closeRun (run : Option CommentRun) : List Fold :=
  match run with
  | none => []
  | some r => if r.first < r.last then [⟨r.first, r.last, .comment⟩] else []

/-- The state is the current run. A comment line carries it on if it comes right behind it. -/
def commentTracker : Tracker (Option CommentRun) where
  start := none
  step run n line :=
    if isCommentLine line then
      match run with
      | none => (some ⟨n, n⟩, [])
      | some r => if r.last + 1 = n then (some ⟨r.first, n⟩, []) else (some ⟨n, n⟩, closeRun run)
    else (none, closeRun run)
  finish run _ := closeRun run

def comments (lines : List Line) : List Fold :=
  commentTracker.run none 0 lines

end TalOutline.Fold
