import TalOutline.Outline.Heading
import TalOutline.Outline.Routine

/-! The outline of a document: its procs, or its sections and pages when it has no proc. -/
namespace TalOutline.Outline

def items (lines : List Line) : List (Tree Item) :=
  match (Survey.ofLines lines).procs with
  | [] => Heading.trees lines
  | procs => procs.map Proc.tree

def symbols (lines : List Line) : List (Tree Symbol) :=
  Tree.mapForest (Item.measure lines) (items lines)

/-- The lines read, in order. Without a proc the document is read once more for directives. -/
def visits (lines : List Line) : List Nat :=
  let survey := Survey.ofLines lines
  if survey.procs.isEmpty then survey.visits ++ List.range lines.length else survey.visits

end TalOutline.Outline
