import TalOutline.Toml.Value

/-! TOML documents. -/
namespace TalOutline.Toml

inductive Statement where
  | keyValue (path : List String) (value : Value)
  | header (path : List String)
  | elementHeader (path : List String)
  deriving Repr

def header? (text : List Char) : Option (Statement × List Char) :=
  match text with
  | '[' :: rest => do
    let (path, rest) ← key? rest
    let rest ← (expect? ']' rest).bind (expect? ']')
    return (.elementHeader path, rest)
  | _ => do
    let (path, rest) ← key? text
    let rest ← expect? ']' rest
    return (.header path, rest)

def statement? (text : List Char) : Option (Statement × List Char) := do
  let (statement, rest) ←
    match text with
    | '[' :: rest => header? rest
    | _ => (keyValue? (value? maxDepth) text).map fun ((path, v), rest) => (.keyValue path v, rest)
  let rest ← lineEnd? rest
  return (statement, rest)

/-- Reads the statements of a document. The fuel bounds the number of its lines. -/
def statements? : Nat → List Char → Option (List Statement)
  | 0, _ => none
  | fuel + 1, text =>
    match skipSpaces text with
    | [] => some []
    | '#' :: rest => (lineEnd? ('#' :: rest)).bind (statements? fuel)
    | '\n' :: rest => statements? fuel rest
    | '\r' :: rest => (newline? ('\r' :: rest)).bind (statements? fuel)
    | text =>
      match statement? text with
      | none => none
      | some (statement, rest) => (statements? fuel rest).map (statement :: ·)

structure Draft where
  entries : Entries
  current : List String

/-- Takes in a statement. Values go below the header in force. -/
def Draft.apply (draft : Draft) : Statement → Option Draft
  | .keyValue path v =>
    let add (_ : Bool) (entries : Entries) : Option Entries := entries.insert path v
    (Entries.changeAt false add draft.current false draft.entries).map ({ draft with entries := · })
  | .header path => (draft.entries.openTable path).map (⟨·, path⟩)
  | .elementHeader path => (draft.entries.openElement path).map (⟨·, path⟩)

/-- The text without a byte order mark at its start. -/
def dropMark : List Char → List Char
  | '\ufeff' :: rest => rest
  | text => text

def parse? (text : List Char) : Option (List (String × Value)) :=
  let text := dropMark text
  match statements? (text.length + 1) text with
  | none => none
  | some statements =>
    (statements.foldlM Draft.apply ⟨[], []⟩).map fun draft => finishEntries draft.entries

end TalOutline.Toml
