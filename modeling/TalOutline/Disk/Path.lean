/-! Paths as text, with `/` between their parts. -/
namespace TalOutline.Path

def join (dir name : String) : String :=
  match dir.toList.getLast? with
  | none => name
  | some c => if c = '/' then dir ++ name else dir ++ "/" ++ name

def trimReversed : List Char → List Char
  | '/' :: rest => trimReversed rest
  | ['.'] => []
  | '.' :: '/' :: rest => trimReversed rest
  | path => path

def frontLength : List Char → Nat
  | '/' :: _ => 1
  | ['.'] => 1
  | '.' :: '/' :: _ => 1
  | _ => 0

/--
The path of the directory that a path names something in. It is empty for a mere name, and there
is none for the empty path and for the root.
-/
def parent? (path : String) : Option String :=
  let chars := path.toList
  let front := chars.take (frontLength chars)
  let body := trimReversed (chars.drop (frontLength chars)).reverse
  if body.isEmpty then
    if front = ['.'] then some "" else none
  else some (.ofList (front ++ (trimReversed (body.dropWhile (· != '/'))).reverse))

def parts (path : List Char) : List (List Char) :=
  match path with
  | [] => [[]]
  | c :: rest =>
    if c = '/' then [] :: parts rest
    else
      match parts rest with
      | [] => [[c]]
      | part :: more => (c :: part) :: more

inductive Step where
  | stay
  | up
  | down (name : String)
  deriving DecidableEq, Repr

/-- An empty part and a point stay where they are, and two points lead up. -/
def Step.ofPart (part : List Char) : Step :=
  if part = [] || part = ['.'] then .stay
  else if part = ['.', '.'] then .up
  else .down (.ofList part)

def steps (path : String) : List Step :=
  (parts path.toList).map .ofPart

/-- The names that lead to a place from the start, after one more step. None lead above the start. -/
def Step.follow (place : List String) : Step → Option (List String)
  | .stay => some place
  | .up => if place.isEmpty then none else some place.dropLast
  | .down name => some (place ++ [name])

end TalOutline.Path
