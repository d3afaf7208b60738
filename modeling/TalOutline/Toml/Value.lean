import TalOutline.Toml.DateTime
import TalOutline.Toml.Key
import TalOutline.Toml.Node

/-! Reading TOML values. Arrays and inline tables nest at most seventy-nine deep. -/
namespace TalOutline.Toml

/-- A reader gives what it has read and the text behind it. -/
abbrev Reader (α : Type) := List Char → Option (α × List Char)

/--
Reads the elements of an array up to the closing bracket. A comma may follow the last one. The
fuel bounds the number of elements.
-/
def elements? (item : Reader Value) : Nat → Reader (List Value)
  | 0, _ => none
  | fuel + 1, text =>
    match skipGap false text with
    | [] => none
    | ']' :: rest => some ([], rest)
    | text =>
      match item text with
      | none => none
      | some (v, rest) =>
        match skipGap false rest with
        | ',' :: rest => (elements? item fuel rest).map fun (vs, rest) => (v :: vs, rest)
        | ']' :: rest => some ([v], rest)
        | _ => none

def keyValue? (item : Reader Value) : Reader (List String × Value) := fun text => do
  let (path, text) ← key? text
  let text ← expect? '=' text
  let (v, text) ← item (skipSpaces text)
  return ((path, v), text)

/-- Reads the pairs of an inline table, at least one, up to the closing brace. -/
def pairs? (item : Reader Value) : Nat → Reader (List (List String × Value))
  | 0, _ => none
  | fuel + 1, text =>
    match keyValue? item text with
    | none => none
    | some (pair, rest) =>
      match skipSpaces rest with
      | ',' :: rest => (pairs? item fuel rest).map fun (pairs, rest) => (pair :: pairs, rest)
      | '\x7d' :: rest => some ([pair], rest)
      | _ => none

def ofPairs? (pairs : List (List String × Value)) : Option Value :=
  (pairs.foldlM (fun entries (path, v) => Entries.insert path v entries) []).map fun entries =>
    .table (finishEntries entries)

def inlineTable? (item : Reader Value) (text : List Char) : Option (Value × List Char) :=
  match skipSpaces text with
  | '\x7d' :: rest => some (.table [], rest)
  | _ =>
    match pairs? item text.length text with
    | none => none
    | some (pairs, rest) => (ofPairs? pairs).map (·, rest)

def scalar? : Reader Value
  | [] => none
  | c :: rest =>
    if c = '"' || c = '\x27' then (string? c rest).map fun (s, rest) => (.string s, rest)
    else
      match c :: rest with
      | 't' :: 'r' :: 'u' :: 'e' :: rest => some (.boolean true, rest)
      | 'f' :: 'a' :: 'l' :: 's' :: 'e' :: rest => some (.boolean false, rest)
      | text => (dateTime? text).or (number? text)

def value? : Nat → Reader Value
  | depth, '[' :: rest =>
    match depth with
    | 0 => none
    | d + 1 => (elements? (value? d) (rest.length + 1) rest).map fun (vs, rest) => (.array vs, rest)
  | depth, '\x7b' :: rest =>
    match depth with
    | 0 => none
    | d + 1 => inlineTable? (value? d) rest
  | _, text => scalar? text

def maxDepth : Nat := 79

end TalOutline.Toml
