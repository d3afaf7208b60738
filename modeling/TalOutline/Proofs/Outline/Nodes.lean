import TalOutline.Proofs.Outline.Tiling
import TalOutline.Proofs.Tree.Descent

/-!
The entries of an outline at any depth. They are those of the procs with what lies in them, or those
of sections and pages if no line declares a proc.
-/
namespace TalOutline

namespace Survey

theorem procs_readFrom_eq_nil_iff (n : Nat) (lines : List Facts) :
    (readFrom 0 n lines).procs = [] ↔ ∀ f ∈ lines, f.declares? .proc = none := by
  induction lines generalizing n with
  | nil => simp [readFrom]
  | cons f rest ih =>
    rw [readFrom]
    split
    · next hnone => simp [hnone, ih (n + 1)]
    · next name hname => simp [hname]

theorem procs_eq_nil_iff (lines : List Line) :
    (ofLines lines).procs = [] ↔ ∀ line ∈ lines, (Facts.ofLine line).declares? .proc = none := by
  rw [ofLines, procs_readFrom_eq_nil_iff, List.forall_mem_map]

end Survey

namespace Proc

/-- The entries below that of a proc, none if it has no body. -/
def below (p : Proc) : List Item :=
  match p.body.ending with
  | .bodyless _ => []
  | _ => p.entries

theorem children_tree (p : Proc) : p.tree.children = p.below.map .leaf := by
  unfold tree below
  cases p.body.ending <;> rfl

theorem kind_tree (p : Proc) : p.tree.label.kind = .proc := by
  unfold tree
  split <;> rfl

theorem mem_entries_of_below {p : Proc} {item : Item} (h : item ∈ p.below) : item ∈ p.entries := by
  unfold below at h
  split at h
  · cases h
  · exact h

end Proc

namespace Outline

variable {lines : List Line}

/-- The entries of the outline with their depths, in pre-order. -/
def nodes (lines : List Line) : List (Nat × Symbol) :=
  Tree.preorderForest 0 (symbols lines)

theorem nodes_eq (lines : List Line) :
    nodes lines =
      (Tree.preorderForest 0 (items lines)).map fun e => (e.1, e.2.measure lines) :=
  Tree.preorderForest_mapForest _ _ _

theorem items_of_procs (h : (Survey.ofLines lines).procs ≠ []) :
    items lines = (Survey.ofLines lines).procs.map Proc.tree := by
  unfold items
  split
  · next hnil => exact absurd hnil h
  · rfl

theorem items_of_no_procs (h : (Survey.ofLines lines).procs = []) :
    items lines = Heading.trees lines := by
  rw [items, h]

theorem mem_nodes_of_procs (h : (Survey.ofLines lines).procs ≠ []) {e : Nat × Symbol} :
    e ∈ nodes lines ↔ ∃ p ∈ (Survey.ofLines lines).procs,
      e = (0, p.tree.label.measure lines) ∨ ∃ item ∈ p.below, e = (1, item.measure lines) := by
  have hnodes (p : Proc) : p.tree.preorder 0 = (0, p.tree.label) :: p.below.map (1, ·) := by
    rw [Tree.preorder_eq, Proc.children_tree, Tree.preorderForest_leaves]
  rw [nodes_eq, items_of_procs h, Tree.preorderForest_eq, List.flatMap_map]
  simp only [hnodes, List.mem_map, List.mem_flatMap, List.mem_cons]
  constructor
  · rintro ⟨a, ⟨p, hp, rfl | ⟨item, hitem, rfl⟩⟩, rfl⟩
    · exact ⟨p, hp, .inl rfl⟩
    · exact ⟨p, hp, .inr ⟨item, hitem, rfl⟩⟩
  · rintro ⟨p, hp, rfl | ⟨item, hitem, rfl⟩⟩
    · exact ⟨_, ⟨p, hp, .inl rfl⟩, rfl⟩
    · exact ⟨_, ⟨p, hp, .inr ⟨item, hitem, rfl⟩⟩, rfl⟩

theorem kind_of_procs (h : (Survey.ofLines lines).procs ≠ []) {e : Nat × Symbol}
    (he : e ∈ nodes lines) : e.2.kind = .proc ∨ e.2.kind = .subproc ∨ e.2.kind = .main := by
  obtain ⟨p, hp, rfl | ⟨item, hitem, rfl⟩⟩ := (mem_nodes_of_procs h).1 he
  · exact .inl p.kind_tree
  · rcases Proc.mem_entries.1 (Proc.mem_entries_of_below hitem) with ⟨s, -, rfl⟩ | hmain
    · exact .inr (.inl rfl)
    · obtain ⟨s, -, -, rfl⟩ := Proc.mainItem?_eq_some_iff.1 hmain
      exact .inr (.inr rfl)

theorem preorder_of_isPage {t : Tree Item} (h : Heading.IsPage t) (depth : Nat) :
    t.preorder depth = [(depth, t.label)] := by
  rw [Tree.preorder_eq, h.2.2]
  rfl

theorem kind_of_no_procs (h : (Survey.ofLines lines).procs = []) {e : Nat × Symbol}
    (he : e ∈ nodes lines) : e.2.kind = .sect ∨ e.2.kind = .page := by
  rw [nodes_eq, items_of_no_procs h, Tree.preorderForest_eq] at he
  obtain ⟨a, ha, rfl⟩ := List.mem_map.1 he
  obtain ⟨t, ht, ha⟩ := List.mem_flatMap.1 ha
  obtain ⟨pages, sections, -, htrees, hpage, hsection, -⟩ := Heading.trees_tile lines
  rw [htrees] at ht
  rcases List.mem_append.1 ht with ht | ht
  · rw [preorder_of_isPage (hpage t ht)] at ha
    rw [List.mem_singleton.1 ha]
    exact .inr (hpage t ht).1
  · rw [Tree.preorder_eq, Tree.preorderForest_eq] at ha
    rcases List.mem_cons.1 ha with rfl | ha
    · exact .inl (hsection t ht).kind
    · obtain ⟨c, hc, ha⟩ := List.mem_flatMap.1 ha
      have hcpage : Heading.IsPage c := (hsection t ht).page c hc
      rw [preorder_of_isPage hcpage] at ha
      rw [List.mem_singleton.1 ha]
      exact .inr hcpage.1

end Outline

end TalOutline
