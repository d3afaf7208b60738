import TalOutline.Text.Blank
import TalOutline.Text.Letter

/-!
Declarations of procs and subprocs: an optional `forward` or `external`, an optional type with an
optional width in parentheses, the keyword and the name.
-/
namespace TalOutline

open Text

inductive Routine where
  | proc
  | subproc
  deriving DecidableEq, Repr

def Routine.letters : Routine → List Char
  | .proc => ['p', 'r', 'o', 'c']
  | .subproc => ['s', 'u', 'b', 'p', 'r', 'o', 'c']

structure Declaration where
  routine : Routine
  name : List Char
  deriving DecidableEq, Repr

namespace Declaration

def linkageWords : List (List Char) :=
  [['f', 'o', 'r', 'w', 'a', 'r', 'd'], ['e', 'x', 't', 'e', 'r', 'n', 'a', 'l']]

def typeWords : List (List Char) :=
  [['s', 't', 'r', 'i', 'n', 'g'], ['i', 'n', 't'], ['u', 'n', 's', 'i', 'g', 'n', 'e', 'd'],
    ['f', 'i', 'x', 'e', 'd'], ['r', 'e', 'a', 'l']]

/-- Past the width of a type: one or two digits, `*` or a name. -/
def skipWidth? : List Char → Option (List Char)
  | [] => none
  | '*' :: rest => some rest
  | c :: rest =>
    if c.isDigit then
      match rest with
      | d :: more => if d.isDigit then some more else some rest
      | [] => some []
    else skipName? (c :: rest)

/-- Past a width in parentheses, white space allowed throughout. -/
def skipParens? (text : List Char) : Option (List Char) :=
  match trimStart text with
  | '(' :: inner =>
    match (skipWidth? (trimStart inner)).map trimStart with
    | some (')' :: rest) => some rest
    | _ => none
  | _ => none

def skipLinkage (text : List Char) : List Char :=
  ((skipOneOf? linkageWords text).bind skipBlanks?).getD text

def skipType (text : List Char) : List Char :=
  match skipOneOf? typeWords text with
  | some rest => (skipParens? rest).getD rest
  | none => text

/-- The name after the keyword of a routine, if the text starts with these. -/
def named? (routine : Routine) (text : List Char) : Option Declaration :=
  ((skipWord? routine.letters text).bind skipBlanks?).bind fun rest =>
    (name? rest).map (⟨routine, ·⟩)

def parse? (code : List Char) : Option Declaration :=
  let text := trimStart (skipType (skipLinkage (trimStart code)))
  (named? .proc text).or (named? .subproc text)

end Declaration

end TalOutline
