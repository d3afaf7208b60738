import TalOutline.Line

/-! Documents: a name, a version and lines. -/
namespace TalOutline

structure Document where
  uri : String
  version : Int
  lines : List Line
  deriving DecidableEq, Repr

namespace Document

/-- The pieces of a text between newlines, always at least one. -/
def splitLines : List Char → List Line
  | [] => [[]]
  | c :: rest =>
    if c = '\n' then [] :: splitLines rest
    else
      match splitLines rest with
      | [] => [[c]]
      | line :: lines => (c :: line) :: lines

theorem length_splitLines (text : List Char) :
    (splitLines text).length = text.count '\n' + 1 := by
  induction text with
  | nil => rfl
  | cons c rest ih =>
    unfold splitLines
    split
    · next h => simp [h, ih]
    · next h =>
      have hc : (c :: rest).count '\n' = rest.count '\n' := by
        rw [List.count_cons]; simp [h]
      rw [hc]
      split
      · next he => rw [he] at ih; simp at ih
      · next he => rw [he] at ih; simpa using ih

def dropReturn (line : Line) : Line :=
  if line.getLast? = some '\r' then line.dropLast else line

/-- The lines of a text. An empty text has none. -/
def linesOf (text : List Char) : List Line :=
  if text.isEmpty then [] else (splitLines text).map dropReturn

def ofText (uri : String) (version : Int) (text : String) : Document :=
  ⟨uri, version, linesOf text.toList⟩

def clampLine (d : Document) (n : Nat) : Nat :=
  min n (d.lines.length - 1)

end Document

end TalOutline
