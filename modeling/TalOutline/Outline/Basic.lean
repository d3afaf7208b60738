import TalOutline.Keyword
import TalOutline.Range
import TalOutline.Tree

/-!
The outline of a document. Items carry line spans only; symbols carry ranges, whose columns are
measured on the document's lines.
-/
namespace TalOutline

inductive ItemKind where
  | proc
  | subproc
  | sect
  | page
  | main -- the body of a proc after its last subproc
  deriving DecidableEq, Repr

def ItemKind.text : ItemKind → String
  | .proc => "proc"
  | .subproc => "subproc"
  | .sect => "section"
  | .page => "page"
  | .main => "synthetic_main"

structure Item where
  name : String
  kind : ItemKind
  detail : Option Linkage
  first : Nat
  last : Nat
  deriving DecidableEq, Repr

/-- An entry of the outline with its range and the range of its first line. -/
structure Symbol where
  name : String
  kind : ItemKind
  detail : Option Linkage
  range : Range
  selection : Range
  deriving DecidableEq, Repr

def Item.measure (lines : List Line) (item : Item) : Symbol where
  name := item.name
  kind := item.kind
  detail := item.detail
  range := .spanning lines item.first item.last
  selection := .line lines item.first

/-- The spelling of a detail, empty when there is none. -/
def detailText (detail : Option Linkage) : String :=
  match detail with
  | none => ""
  | some linkage => linkage.text

end TalOutline
