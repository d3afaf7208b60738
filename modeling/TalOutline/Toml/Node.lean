import TalOutline.Toml.Basic

/-!
Tables under construction. A table remembers how it came about: by a header of its own, as part of
a longer header, or as part of a dotted key. That decides what may still be added to it.
-/
namespace TalOutline.Toml

inductive Node where
  | value (v : Value)
  -- Implicit when no header of its own was met, dotted when a dotted key made it.
  | table (implicit dotted : Bool) (entries : List (String × Node))
  | tables (elements : List (List (String × Node))) -- one for each header in double brackets
  deriving Repr, Inhabited

abbrev Entries := List (String × Node)

namespace Entries

def put (entries : Entries) (key : String) (node : Node) : Entries :=
  entries.filter (·.1 != key) ++ [(key, node)]

/--
Changes the table at a path below a table, given how that table came about. Missing tables are
made on the way. A dotted key may only pass through tables that no header has closed.
-/
def changeAt (dotted : Bool) (change : Bool → Entries → Option Entries) :
    List String → Bool → Entries → Option Entries
  | [], own, entries => change own entries
  | key :: path, _, entries =>
    match entries.lookup key with
    | none =>
      (changeAt dotted change path dotted []).map fun inner =>
        entries.put key (.table true dotted inner)
    | some (.value _) => none
    | some (.tables elements) =>
      match elements.getLast? with
      | none => none
      | some last =>
        (changeAt dotted change path false last).map fun inner =>
          entries.put key (.tables (elements.dropLast ++ [inner]))
    | some (.table implicit own inner) =>
      if dotted && !implicit then none
      else
        (changeAt dotted change path own inner).map fun inner =>
          entries.put key (.table implicit own inner)

def addValue (key : String) (v : Value) (entries : Entries) : Option Entries :=
  if (entries.lookup key).isSome then none else some (entries.put key (.value v))

/-- Adds a value under a dotted key. The table that takes it must be the dotted key's own kind. -/
def insert (path : List String) (v : Value) (entries : Entries) : Option Entries :=
  match path.getLast? with
  | none => none
  | some key =>
    let above := path.dropLast
    let add (own : Bool) (entries : Entries) : Option Entries :=
      if own == above.isEmpty then none else addValue key v entries
    changeAt true add above false entries

/-- Opens the table of a header, which must be new or implicit. -/
def openTable (path : List String) (entries : Entries) : Option Entries :=
  match path.getLast? with
  | none => none
  | some key =>
    let start (_ : Bool) (entries : Entries) : Option Entries :=
      match entries.lookup key with
      | none => some (entries.put key (.table false false []))
      | some (.table true false inner) => some (entries.put key (.table false false inner))
      | some _ => none
    changeAt false start path.dropLast false entries

def openElement (path : List String) (entries : Entries) : Option Entries :=
  match path.getLast? with
  | none => none
  | some key =>
    let start (_ : Bool) (entries : Entries) : Option Entries :=
      match entries.lookup key with
      | none => some (entries.put key (.tables [[]]))
      | some (.tables elements) => some (entries.put key (.tables (elements ++ [[]])))
      | some _ => none
    changeAt false start path.dropLast false entries

end Entries

mutual

def Node.finish : Node → Value
  | .value v => v
  | .table _ _ entries => .table (finishEntries entries)
  | .tables elements => .array (finishElements elements)

def finishEntries : List (String × Node) → List (String × Value)
  | [] => []
  | (key, node) :: rest => (key, node.finish) :: finishEntries rest

def finishElements : List (List (String × Node)) → List Value
  | [] => []
  | entries :: rest => .table (finishEntries entries) :: finishElements rest

end

end TalOutline.Toml
