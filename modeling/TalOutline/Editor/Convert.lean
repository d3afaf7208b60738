import TalOutline.Report.Json

/-! Folds and outlines in the form that editors take. -/
namespace TalOutline.Editor

structure DocumentSymbol where
  name : String
  detail : Option String
  kind : Nat
  range : Range
  selection : Range
  deriving DecidableEq, Repr

/-- The number that stands for a kind of entry. Every entry without body has the same. -/
def symbolKind (kind : ItemKind) (detail : Option Linkage) : Nat :=
  if detail.isSome then 11
  else
    match kind with
    | .proc => 5
    | .subproc => 6
    | .main => 12
    | .sect => 4
    | .page => 15

def convert (s : Symbol) : DocumentSymbol where
  name := s.name
  detail := s.detail.map Linkage.text
  kind := symbolKind s.kind s.detail
  range := s.range
  selection := s.selection

def documentSymbols (outline : List (Tree Symbol)) : List (Tree DocumentSymbol) :=
  Tree.mapForest convert outline

def foldJson (fold : Fold) : Json :=
  .object [("startLine", .nat fold.first), ("endLine", .nat fold.last),
    ("kind", .string fold.kind.text)]

/-- The member of a detail, absent when there is none. -/
def detailMember (detail : Option String) : List (String × Json) :=
  (detail.map fun text => ("detail", Json.string text)).toList

/-- The member of child entries, absent when there are none. -/
def childrenMember (children : List Json) : List (String × Json) :=
  if children.isEmpty then [] else [("children", .array children)]

mutual

def symbolJson : Tree DocumentSymbol → Json
  | .node s children =>
    .object <| [("name", .string s.name)] ++ detailMember s.detail ++
      [("kind", .nat s.kind), ("range", Report.rangeJson s.range),
        ("selectionRange", Report.rangeJson s.selection)] ++
      childrenMember (symbolsJson children)

def symbolsJson : List (Tree DocumentSymbol) → List Json
  | [] => []
  | t :: ts => symbolJson t :: symbolsJson ts

end

end TalOutline.Editor
