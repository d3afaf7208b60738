import TalOutline.Directive
import TalOutline.Outline.Basic

/-!
Sections and pages. A section runs up to the next section and a page up to the next section or
page, or either to the end of the document. A page belongs to the section it stands in.
-/
namespace TalOutline

structure Heading where
  kind : ItemKind
  name : String
  line : Nat
  deriving DecidableEq, Repr

namespace Heading

def ofLine? (n : Nat) (line : Line) : Option Heading :=
  match sectionName? line with
  | some name => some ⟨.sect, .ofList name, n⟩
  | none => (pageTitle? line).map (⟨.page, .ofList ·, n⟩)

def ofLines (lines : List Line) : List Heading :=
  lines.zipIdx.filterMap fun (line, n) => ofLine? n line

def entry (h : Heading) : Tree Item :=
  .leaf ⟨h.name, h.kind, none, h.line, h.line⟩

def closeAt (last : Nat) : Tree Item → Tree Item
  | .node item children => .node { item with last := last } children

def changeLast (f : Tree Item → Tree Item) : List (Tree Item) → List (Tree Item)
  | [] => []
  | [t] => [f t]
  | t :: u :: rest => t :: changeLast f (u :: rest)

/-- Closes a section together with its last page. -/
def closeSection (last : Nat) : Tree Item → Tree Item
  | .node item children => .node { item with last := last } (changeLast (closeAt last) children)

def closeEntry (last : Nat) (t : Tree Item) : Tree Item :=
  if t.label.kind = .sect then closeSection last t else closeAt last t

/-- Takes a page into a section, where it closes the page before it. -/
def addPage (page : Heading) : Tree Item → Tree Item
  | .node item children =>
    .node item (changeLast (closeAt (page.line - 1)) children ++ [page.entry])

/-- Puts a heading behind the entries found so far, of which only the last one is still open. -/
def put (found : List (Tree Item)) (h : Heading) : List (Tree Item) :=
  if h.kind = .sect then changeLast (closeEntry (h.line - 1)) found ++ [h.entry]
  else
    match found.getLast? with
    | none => [h.entry]
    | some last =>
      if last.label.kind = .sect then changeLast (addPage h) found
      else changeLast (closeAt (h.line - 1)) found ++ [h.entry]

def trees (lines : List Line) : List (Tree Item) :=
  changeLast (closeEntry (lines.length - 1)) ((ofLines lines).foldl put [])

end Heading

end TalOutline
