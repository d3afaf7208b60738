import TalOutline.Fold.Basic
import TalOutline.Json.Basic
import TalOutline.Outline.Basic

/-! Folds and outlines as JSON values. -/
namespace TalOutline.Report

def foldJson (fold : Fold) : Json :=
  .object [("start_line", .nat fold.first), ("end_line", .nat fold.last),
    ("kind", .string fold.kind.text)]

def positionJson (p : Position) : Json :=
  .object [("line", .nat p.line), ("character", .nat p.character)]

def rangeJson (r : Range) : Json :=
  .object [("start", positionJson r.start), ("end", positionJson r.stop)]

mutual

/-- An entry of an outline, with the entries below it. -/
def symbolJson : Tree Symbol → Json
  | .node s children =>
    .object [("name", .string s.name), ("detail", .string (detailText s.detail)),
      ("kind", .string s.kind.text), ("range", rangeJson s.range),
      ("selection_range", rangeJson s.selection), ("children", .array (symbolsJson children))]

def symbolsJson : List (Tree Symbol) → List Json
  | [] => []
  | t :: ts => symbolJson t :: symbolsJson ts

end

end TalOutline.Report
