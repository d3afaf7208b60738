import TalOutline.Line
import TalOutline.Text.Blank

/-!
Comments. A dash comment runs from `--` to the end of the line, a bang comment from one `!` to the
next or to the end of the text. Each takes the white space before it along, and a closed bang
comment also the white space after it.
-/
namespace TalOutline

open Text

namespace Comment

def opensDash (text : List Char) : Bool :=
  ['-', '-'].isPrefixOf (trimStart text)

/-- Drops the dash comments of a text. The flag tells whether the text begins inside one. -/
def dropDash (inside : Bool) : List Char → List Char
  | [] => []
  | c :: rest =>
    if opensDash (c :: rest) || (inside && c != '\n') then dropDash true rest
    else c :: dropDash false rest

inductive Place where
  | code
  | inside
  | behind -- in the white space after a closing mark
  deriving DecidableEq, Repr

def opensBang (text : List Char) : Bool :=
  ['!'].isPrefixOf (trimStart text)

def dropBang : Place → List Char → List Char
  | _, [] => []
  | .inside, c :: rest => dropBang (if c = '!' then .behind else .inside) rest
  | .behind, c :: rest =>
    if c = '!' then dropBang .inside rest
    else if isBlank c then dropBang .behind rest
    else c :: dropBang .code rest
  | .code, c :: rest =>
    if c = '!' then dropBang .inside rest
    else if isBlank c && opensBang rest then dropBang .code rest
    else c :: dropBang .code rest

/-- The code of a line: what is left of it without comments. -/
def strip (line : Line) : List Char :=
  dropBang .code (dropDash false line)

end Comment

end TalOutline
