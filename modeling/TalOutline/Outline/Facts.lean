import TalOutline.Comment
import TalOutline.Declaration
import TalOutline.Outline.Basic

/-! What the outline needs to know of a line. -/
namespace TalOutline

structure Facts where
  begins : Nat
  ends : Nat
  linkage : Option Linkage
  declared : Option Declaration
  deriving DecidableEq, Repr

namespace Facts

def ofCode (code : List Char) : Facts where
  begins := TalOutline.begins code
  ends := TalOutline.ends code
  linkage := linkage? code
  declared := Declaration.parse? code

def ofLine (line : Line) : Facts :=
  ofCode (Comment.strip line)

def declares? (f : Facts) (routine : Routine) : Option (List Char) :=
  match f.declared with
  | none => none
  | some d => if d.routine = routine then some d.name else none

/-- The linkage, which counts only before a body has begun. -/
def linkageAt (f : Facts) (depth : Nat) : Option Linkage :=
  if depth = 0 then f.linkage else none

/-- Whether a body at the given block depth ends on the line. Only a line with an `end` can do so. -/
def closes (f : Facts) (depth : Nat) : Bool :=
  0 < f.ends && depth + f.begins ≤ f.ends

def depthAfter (f : Facts) (depth : Nat) : Nat :=
  depth + f.begins - f.ends

end Facts

end TalOutline
