import TalOutline.Outline.Heading

/-!
The outline of headings from the last one back. There each entry gets its end as soon as it is made,
from the entries behind it. The pass over the lines goes the other way and lets an entry run on until
a later heading closes it, and both give the same trees.
-/
namespace TalOutline.Heading

def item (h : Heading) (next : Nat) : Item :=
  ⟨h.name, h.kind, none, h.line, next - 1⟩

/--
The outline of the last headings: pages without a section before them, the sections after these, and
the lines where a page and a section in front would end.
-/
structure Outlined where
  pages : List (Tree Item)
  sections : List (Tree Item)
  pageNext : Nat
  sectionNext : Nat
  deriving Repr

namespace Outlined

/-- Puts a heading in front. A section takes in the pages that have none before them. -/
def cons (h : Heading) (o : Outlined) : Outlined :=
  if h.kind = .sect then
    { pages := []
      sections := .node (h.item o.sectionNext) o.pages :: o.sections
      pageNext := h.line
      sectionNext := h.line }
  else
    { o with pages := .leaf (h.item o.pageNext) :: o.pages, pageNext := h.line }

/-- What becomes of an open entry, and what comes behind it. -/
def behind (o : Outlined) (t : Tree Item) : List (Tree Item) :=
  if t.label.kind = .sect then
    .node { t.label with last := o.sectionNext - 1 }
      (changeLast (closeAt (o.pageNext - 1)) t.children ++ o.pages) :: o.sections
  else closeAt (o.pageNext - 1) t :: (o.pages ++ o.sections)

end Outlined

def outline (count : Nat) : List Heading → Outlined
  | [] => ⟨[], [], count, count⟩
  | h :: rest => (outline count rest).cons h

variable {found : List (Tree Item)} {t : Tree Item} {h : Heading} {o : Outlined}

theorem changeLast_concat (f : Tree Item → Tree Item) (found : List (Tree Item)) (t : Tree Item) :
    changeLast f (found ++ [t]) = found ++ [f t] := by
  induction found with
  | nil => rfl
  | cons u rest ih =>
    cases rest with
    | nil => rfl
    | cons v rest =>
      show u :: changeLast f (v :: rest ++ [t]) = u :: (v :: rest ++ [f t])
      rw [ih]

theorem behind_outline_nil (count : Nat) (t : Tree Item) :
    (outline count []).behind t = [closeEntry (count - 1) t] := by
  cases t with
  | node item children =>
    unfold outline Outlined.behind closeEntry
    split
    · rw [List.append_nil]
      rfl
    · rfl

theorem behind_entry (o : Outlined) (h : Heading) :
    o.behind h.entry = (o.cons h).pages ++ (o.cons h).sections := by
  have hkind : h.entry.label.kind = h.kind := rfl
  unfold Outlined.behind Outlined.cons
  rw [hkind]
  split <;> rfl

theorem behind_cons_of_section (hkind : h.kind = .sect) :
    (o.cons h).behind t = closeEntry (h.line - 1) t :: o.behind h.entry := by
  have hcons : o.cons h = ⟨[], o.behind h.entry, h.line, h.line⟩ := by
    rw [behind_entry, Outlined.cons, if_pos hkind]
    rfl
  cases t with
  | node item children =>
    rw [hcons]
    unfold Outlined.behind closeEntry
    split
    · rw [List.append_nil]
      rfl
    · rfl

theorem behind_cons_of_page (hkind : h.kind ≠ .sect) (ht : t.label.kind ≠ .sect) :
    (o.cons h).behind t = closeAt (h.line - 1) t :: o.behind h.entry := by
  rw [behind_entry, Outlined.cons, if_neg hkind]
  exact if_neg ht

/-- A page in a section ends the last page of that section, and the section remains open. -/
theorem behind_addPage (hkind : h.kind ≠ .sect) (ht : t.label.kind = .sect) :
    o.behind (addPage h t) = (o.cons h).behind t := by
  cases t with
  | node item children =>
    have hlast : closeAt (o.pageNext - 1) h.entry = .leaf (h.item o.pageNext) := rfl
    have hadded : (addPage h (.node item children)).label.kind = .sect := ht
    rw [Outlined.cons, if_neg hkind, Outlined.behind, Outlined.behind, if_pos ht, if_pos hadded]
    simp only [addPage, Tree.label, Tree.children, changeLast_concat, hlast, List.append_assoc,
      List.singleton_append]

/-- One heading closes the entries that end before it and leaves one entry open. -/
theorem put_concat (found : List (Tree Item)) (t : Tree Item) (h : Heading) :
    ∃ found' t', put (found ++ [t]) h = found' ++ [t'] ∧
      ∀ o, found' ++ Outlined.behind o t' = found ++ (o.cons h).behind t := by
  unfold put
  by_cases hkind : h.kind = .sect
  · rw [if_pos hkind, changeLast_concat]
    refine ⟨_, _, rfl, ?_⟩
    intro o
    rw [behind_cons_of_section hkind, List.append_assoc, List.singleton_append]
  · rw [if_neg hkind, List.getLast?_concat]
    dsimp only
    by_cases ht : t.label.kind = .sect
    · rw [if_pos ht, changeLast_concat]
      refine ⟨_, _, rfl, ?_⟩
      intro o
      rw [behind_addPage hkind ht]
    · rw [if_neg ht, changeLast_concat]
      refine ⟨_, _, rfl, ?_⟩
      intro o
      rw [behind_cons_of_page hkind ht, List.append_assoc, List.singleton_append]

/-- The headings still to come close the open entry as the outline of them says. -/
theorem foldl_put (count : Nat) (rest : List Heading) (found : List (Tree Item)) (t : Tree Item) :
    changeLast (closeEntry (count - 1)) (rest.foldl put (found ++ [t])) =
      found ++ (outline count rest).behind t := by
  induction rest generalizing found t with
  | nil =>
    rw [List.foldl_nil, changeLast_concat, behind_outline_nil]
  | cons h rest ih =>
    obtain ⟨found', t', hput, hbehind⟩ := put_concat found t h
    rw [List.foldl_cons, hput, ih, hbehind, outline]

/-- The pass over the lines makes the trees that the outline from the last heading back consists of. -/
theorem trees_eq (lines : List Line) :
    trees lines = (outline lines.length (ofLines lines)).pages ++
      (outline lines.length (ofLines lines)).sections := by
  unfold trees
  cases ofLines lines with
  | nil => rfl
  | cons h rest =>
    have hfirst : put [] h = [] ++ [h.entry] := by
      unfold put
      split <;> rfl
    rw [List.foldl_cons, hfirst, foldl_put, List.nil_append, behind_entry, outline]

end TalOutline.Heading
