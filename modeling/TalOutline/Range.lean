import TalOutline.Line
import TalOutline.Text.Units

/-! Positions and ranges in a document. Lines and characters count from zero. -/
namespace TalOutline

/-- A place in a document. Characters are UTF-16 code units. -/
structure Position where
  line : Nat
  character : Nat
  deriving DecidableEq, Repr

structure Range where
  start : Position
  stop : Position
  deriving DecidableEq, Repr

/-- The width of a line, which is zero past the end of the document. -/
def widthAt (lines : List Line) (n : Nat) : Nat :=
  (lines[n]?.map Text.units).getD 0

namespace Range

def spanning (lines : List Line) (first last : Nat) : Range :=
  ⟨⟨first, 0⟩, ⟨last, widthAt lines last⟩⟩

def line (lines : List Line) (n : Nat) : Range :=
  spanning lines n n

def containsLine (r : Range) (n : Nat) : Bool :=
  r.start.line ≤ n && n ≤ r.stop.line

def lineCount (r : Range) : Nat :=
  r.stop.line - r.start.line + 1

end Range

end TalOutline
