import TalOutline.Line
import TalOutline.Text.Blank
import TalOutline.Text.Letter

/-! Directives, which stand at the very start of a line: toggles, sections and pages. -/
namespace TalOutline

open Text

inductive ToggleKind where
  | ifSet
  | ifNot
  | endIf
  deriving DecidableEq, Repr

structure Toggle where
  kind : ToggleKind
  id : List Char
  deriving DecidableEq, Repr

namespace Toggle

def words : List (ToggleKind × List Char) :=
  [(.ifSet, ['i', 'f']), (.ifNot, ['i', 'f', 'n', 'o', 't']), (.endIf, ['e', 'n', 'd', 'i', 'f'])]

/-- The toggle that a text after `?` spells with the given word. -/
def spelled? (kind : ToggleKind) (word text : List Char) : Option Toggle :=
  match (skipWord? word text).bind skipBlanks? with
  | none => none
  | some rest =>
    let id := rest.takeWhile isNameChar
    if id.isEmpty then none else some ⟨kind, id⟩

def parse? : Line → Option Toggle
  | '?' :: text => words.findSome? fun (kind, word) => spelled? kind word text
  | _ => none

def closes (t earlier : Toggle) : Bool :=
  sameAsciiCase t.id earlier.id &&
    match t.kind with
    | .ifSet => false
    | .ifNot => earlier.kind == .ifSet
    | .endIf => true

end Toggle

def sectionName? : Line → Option (List Char)
  | '?' :: text =>
    ((skipWord? ['s', 'e', 'c', 't', 'i', 'o', 'n'] (trimStart text)).bind skipBlanks?).bind name?
  | _ => none

/-- The text up to the next quote, when there is one and it is not the first character. -/
def quoted? (text : List Char) : Option (List Char) :=
  let title := text.takeWhile (· != '"')
  if title.isEmpty || (text.dropWhile (· != '"')).isEmpty then none else some title

/-- The heading in a page directive, which is not empty. -/
def pageTitle? : Line → Option (List Char)
  | '?' :: text =>
    match (skipWord? ['p', 'a', 'g', 'e'] (trimStart text)).map trimStart with
    | some ('"' :: rest) => quoted? rest
    | _ => none
  | _ => none

end TalOutline
