import TalOutline.Proofs.Outline.Tiling

/-!
The outline of every document is well formed: which entries stand where, how their ranges lie to
each other and in the document, and when a proc has an entry for its main part.
-/
namespace TalOutline

/-- A tree stands somewhere in a forest, at the top or below. -/
inductive Tree.Occurs {α : Type} (t : Tree α) : List (Tree α) → Prop
  | root {forest : List (Tree α)} : t ∈ forest → Occurs t forest
  | child {u : Tree α} {forest : List (Tree α)} :
    u ∈ forest → Occurs t u.children → Occurs t forest

namespace Outline

/-- Every entry ends on a line before those of the entries after it. -/
def Apart (forest : List (Tree Symbol)) : Prop :=
  forest.Pairwise fun t u => t.label.range.stop.line < u.label.range.start.line

/-- The range goes from the start of a line to the end of one, and the selection is the first. -/
structure Placed (lines : List Line) (s : Symbol) : Prop where
  order : s.range.start.line ≤ s.range.stop.line
  start : s.range.start.character = 0
  stop : ∃ line, lines[s.range.stop.line]? = some line ∧ s.range.stop.character = Text.units line
  selection : ∃ line, lines[s.range.start.line]? = some line ∧
    s.selection = ⟨⟨s.range.start.line, 0⟩, ⟨s.range.start.line, Text.units line⟩⟩

/-- A proc has subprocs and after them at most one main part, a section has pages. -/
def Shaped (t : Tree Symbol) : Prop :=
  match t.label.kind with
  | .proc => ∃ subprocs mains, t.children = subprocs ++ mains ∧
      (∀ c ∈ subprocs, c.label.kind = .subproc) ∧ (∀ c ∈ mains, c.label.kind = .main) ∧
      mains.length ≤ 1
  | .sect => ∀ c ∈ t.children, c.label.kind = .page
  | .subproc | .page | .main => t.children = []

def lastSubproc? (t : Tree Symbol) : Option Symbol :=
  ((t.children.map Tree.label).filter (·.kind = .subproc)).getLast?

/-- What holds of every entry of an outline together with its children. -/
structure Sound (lines : List Line) (t : Tree Symbol) : Prop where
  placed : Placed lines t.label
  shaped : Shaped t
  apart : Apart t.children
  inside : ∀ c ∈ t.children, t.label.range.start.line < c.label.range.start.line ∧
    c.label.range.stop.line ≤ t.label.range.stop.line
  detail : t.label.detail ≠ none → (t.label.kind = .proc ∨ t.label.kind = .subproc) ∧
    t.children = [] ∧ t.label.range = t.label.selection
  main_iff : t.label.kind = .proc → t.label.detail = none →
    ((∃ c ∈ t.children, c.label.kind = .main) ↔
      ∃ s, lastSubproc? t = some s ∧ s.range.stop.line < t.label.range.stop.line)
  main : t.label.kind = .proc → ∀ c ∈ t.children, c.label.kind = .main →
    c.label.name = "main: " ++ t.label.name ∧
      ∃ s, lastSubproc? t = some s ∧
        c.label.range = ⟨⟨s.range.stop.line + 1, 0⟩, t.label.range.stop⟩

/-- A forest of entries that can be the outline of a document. -/
structure WellFormed (lines : List Line) (forest : List (Tree Symbol)) : Prop where
  family : (∀ t ∈ forest, t.label.kind = .proc) ∨
    ∀ t ∈ forest, t.label.kind = .sect ∨ t.label.kind = .page
  apart : Apart forest
  sound : ∀ t, t.Occurs forest → Sound lines t

private theorem occurs_cases {α : Type} {t : Tree α} {forest : List (Tree α)}
    (hleaf : ∀ u ∈ forest, ∀ c ∈ u.children, c.children = []) (h : t.Occurs forest) :
    t ∈ forest ∨ ∃ u ∈ forest, t ∈ u.children := by
  cases h with
  | root h => exact .inl h
  | child hu h =>
    cases h with
    | root h => exact .inr ⟨_, hu, h⟩
    | child hc h =>
      rw [hleaf _ hu _ hc] at h
      cases h with
      | root h => cases h
      | child h _ => cases h

variable {lines : List Line}

private theorem widthAt_eq {n : Nat} (h : n < lines.length) :
    ∃ line, lines[n]? = some line ∧ widthAt lines n = Text.units line :=
  ⟨lines[n], List.getElem?_eq_getElem h, by simp [widthAt, List.getElem?_eq_getElem h]⟩

theorem placed_measure {item : Item} (hle : item.first ≤ item.last)
    (hlt : item.last < lines.length) : Placed lines (item.measure lines) := by
  obtain ⟨line, hl, hw⟩ := widthAt_eq (Nat.lt_of_le_of_lt hle hlt)
  refine ⟨hle, rfl, widthAt_eq hlt, line, hl, ?_⟩
  rw [← hw]
  rfl

theorem sound_leaf (item : Item) (hle : item.first ≤ item.last) (hlt : item.last < lines.length)
    (hd : item.detail ≠ none → (item.kind = .proc ∨ item.kind = .subproc) ∧
      item.last = item.first) :
    Sound lines (.leaf (item.measure lines)) where
  placed := placed_measure hle hlt
  shaped := by
    unfold Shaped
    split
    · exact ⟨[], [], rfl, nofun, nofun, Nat.zero_le 1⟩
    · exact nofun
    all_goals rfl
  apart := .nil
  inside := nofun
  detail := by
    intro h
    obtain ⟨hk, he⟩ := hd h
    refine ⟨hk, rfl, ?_⟩
    simp only [Tree.leaf, Tree.label, Item.measure, he, Range.line]
  main_iff := by simp [Tree.leaf, Tree.children, lastSubproc?]
  main := nofun

end Outline

theorem Subproc.last_bounds {s : Subproc} (h : s.start < s.body.next) :
    s.start ≤ s.last ∧ s.last < s.body.next := by
  unfold Subproc.last
  split <;> omega

namespace Proc

theorem entries_bounds {p : Proc}
    (ho : InOrder Subproc.start (·.body.next) (p.start + 1) p.body.next p.subprocs)
    {item : Item} (hi : item ∈ p.entries) :
    p.start < item.first ∧ item.first ≤ item.last ∧ item.last < p.body.next := by
  rcases mem_entries.1 hi with ⟨s, hs, rfl⟩ | hm
  · obtain ⟨hlow, hlt, hhigh⟩ := ho.bounds_of_mem hs
    obtain ⟨hl, hn⟩ := Subproc.last_bounds hlt
    exact ⟨hlow, hl, Nat.lt_of_lt_of_le hn hhigh⟩
  · obtain ⟨s, hs, hlast, rfl⟩ := mainItem?_eq_some_iff.1 hm
    obtain ⟨hlow, hlt, -⟩ := ho.bounds_of_mem (List.mem_of_getLast? hs)
    obtain ⟨hl, -⟩ := Subproc.last_bounds hlt
    dsimp only
    omega

theorem entries_pairwise {p : Proc}
    (ho : InOrder Subproc.start (·.body.next) (p.start + 1) p.body.next p.subprocs) :
    p.entries.Pairwise fun a b => a.last < b.first := by
  have hsubs : p.subprocs.Pairwise fun s u => s.last < u.start := by
    refine ho.pairwise.imp_of_mem fun hs _ h => ?_
    exact Nat.lt_of_lt_of_le (Subproc.last_bounds (ho.bounds_of_mem hs).2.1).2 h
  refine List.pairwise_append.2 ⟨List.pairwise_map.2 hsubs, ?_, ?_⟩
  · cases p.mainItem? <;> simp
  · intro a ha b hb
    obtain ⟨s, hs, rfl⟩ := List.mem_map.1 ha
    obtain ⟨u, hu, -, rfl⟩ := mainItem?_eq_some_iff.1 (Option.mem_toList.1 hb)
    obtain ⟨init, hinit⟩ := List.getLast?_eq_some_iff.1 hu
    rw [hinit] at hs hsubs
    rcases List.mem_append.1 hs with hs | hs
    · have hlt := (List.pairwise_append.1 hsubs).2.2 s hs u List.mem_cons_self
      have hmem : u ∈ p.subprocs := List.mem_of_getLast? hu
      obtain ⟨hl, -⟩ := Subproc.last_bounds (ho.bounds_of_mem hmem).2.1
      simp only [Subproc.item]
      omega
    · obtain rfl := List.mem_singleton.1 hs
      exact Nat.lt_succ_self _

end Proc

namespace Outline

variable {lines : List Line}

private theorem map_node_leaf (f : Item → Symbol) (item : Item) (items : List Item) :
    (Tree.node item (items.map .leaf)).map f = .node (f item) (items.map fun i => .leaf (f i)) := by
  simp [Tree.map, Tree.leaf, Function.comp_def]

private theorem lastSubproc?_proc (p : Proc) (s : Symbol) :
    lastSubproc? (.node s (p.entries.map fun i => .leaf (i.measure lines))) =
      p.subprocs.getLast?.map fun u => u.item.measure lines := by
  have hlabel : (p.entries.map fun i => Tree.leaf (i.measure lines)).map Tree.label =
      p.entries.map (Item.measure lines) := by
    rw [List.map_map]
    rfl
  rw [lastSubproc?, Tree.children, hlabel, Proc.filter_entries, List.getLast?_map]

theorem sound_node_proc {p : Proc}
    (ho : InOrder Subproc.start (·.body.next) (p.start + 1) p.body.next p.subprocs)
    (hn : p.body.next ≤ lines.length) :
    Sound lines (.node ((Item.mk p.name .proc none p.start (p.body.next - 1)).measure lines)
      (p.entries.map fun i => .leaf (i.measure lines))) where
  placed := by
    have hlt := ho.le
    exact placed_measure (show p.start ≤ p.body.next - 1 by omega)
      (show p.body.next - 1 < lines.length by omega)
  shaped := by
    refine ⟨p.subprocs.map fun u => .leaf (u.item.measure lines),
      p.mainItem?.toList.map fun i => .leaf (i.measure lines), ?_, ?_, ?_, ?_⟩
    · simp [Tree.children, Proc.entries, Function.comp_def]
    · intro c hc
      obtain ⟨u, -, rfl⟩ := List.mem_map.1 hc
      rfl
    · intro c hc
      obtain ⟨i, hi, rfl⟩ := List.mem_map.1 hc
      obtain ⟨u, -, -, rfl⟩ := Proc.mainItem?_eq_some_iff.1 (Option.mem_toList.1 hi)
      rfl
    · cases p.mainItem? <;> simp
  apart := List.pairwise_map.2 (Proc.entries_pairwise ho)
  inside := by
    intro c hc
    obtain ⟨i, hi, rfl⟩ := List.mem_map.1 hc
    obtain ⟨hfirst, -, hlast⟩ := Proc.entries_bounds ho hi
    exact ⟨hfirst, Nat.le_sub_one_of_lt hlast⟩
  detail := fun h => absurd rfl h
  main_iff := by
    intro _ _
    rw [lastSubproc?_proc]
    constructor
    · rintro ⟨c, hc, hk⟩
      obtain ⟨i, hi, rfl⟩ := List.mem_map.1 hc
      rcases Proc.mem_entries.1 hi with ⟨u, -, rfl⟩ | hm
      · cases hk
      · obtain ⟨u, hu, hlast, rfl⟩ := Proc.mainItem?_eq_some_iff.1 hm
        exact ⟨_, by rw [hu]; rfl, show u.last < p.body.next - 1 by omega⟩
    · rintro ⟨s, hs, hlast⟩
      obtain ⟨u, hu, rfl⟩ := Option.map_eq_some_iff.1 hs
      have hlt : u.last < p.body.next - 1 := hlast
      exact ⟨_, List.mem_map.2 ⟨_, Proc.mem_entries.2 (.inr (Proc.mainItem?_eq_some_iff.2
        ⟨u, hu, by omega, rfl⟩)), rfl⟩, rfl⟩
  main := by
    intro _ c hc hk
    rw [lastSubproc?_proc]
    obtain ⟨i, hi, rfl⟩ := List.mem_map.1 hc
    rcases Proc.mem_entries.1 hi with ⟨u, -, rfl⟩ | hm
    · cases hk
    · obtain ⟨u, hu, hlast, rfl⟩ := Proc.mainItem?_eq_some_iff.1 hm
      exact ⟨rfl, _, by rw [hu]; rfl, rfl⟩

/-- A proc's entry and the entries below it are sound, whether it has a body or not. -/
theorem sound_proc {p : Proc}
    (ho : InOrder Subproc.start (·.body.next) (p.start + 1) p.body.next p.subprocs)
    (hn : p.body.next ≤ lines.length) :
    Sound lines (p.tree.map (Item.measure lines)) ∧
      ∀ c ∈ p.tree.children, c.children = [] ∧ Sound lines (c.map (Item.measure lines)) := by
  have hlt := ho.le
  unfold Proc.tree
  split
  · next linkage h =>
    have hs : p.start < lines.length := by omega
    exact ⟨sound_leaf ⟨p.name, .proc, some linkage, p.start, p.start⟩ (Nat.le_refl _) hs
      fun _ => ⟨.inl rfl, rfl⟩, nofun⟩
  · refine ⟨?_, ?_⟩
    · rw [map_node_leaf]
      exact sound_node_proc ho hn
    intro c hc
    obtain ⟨i, hi, rfl⟩ := List.mem_map.1 hc
    obtain ⟨-, hle, hlast⟩ := Proc.entries_bounds ho hi
    refine ⟨rfl, sound_leaf i hle (by omega) ?_⟩
    rcases Proc.mem_entries.1 hi with ⟨u, -, rfl⟩ | hm
    · intro hd
      refine ⟨.inr rfl, ?_⟩
      cases he : u.body.ending <;> simp [Subproc.item, Subproc.detail, Subproc.last, he] at hd ⊢
    · obtain ⟨u, -, -, rfl⟩ := Proc.mainItem?_eq_some_iff.1 hm
      exact fun hd => absurd rfl hd

theorem sound_page {t : Tree Item} (ht : Heading.IsPage t) (hle : t.label.first ≤ t.label.last)
    (hlt : t.label.last < lines.length) : Sound lines (t.map (Item.measure lines)) := by
  obtain ⟨item, children⟩ := t
  obtain ⟨-, hd, rfl⟩ := ht
  exact sound_leaf item hle hlt fun h => absurd hd h

private theorem apart_map {ts : List (Tree Item)}
    (h : ts.Pairwise fun t u => t.label.last < u.label.first) :
    Apart (ts.map (Tree.map (Item.measure lines))) := by
  refine List.pairwise_map.2 (h.imp fun {t u} htu => ?_)
  rw [Tree.label_map, Tree.label_map]
  exact htu

theorem sound_section {t : Tree Item} (ht : Heading.IsSection t)
    (hle : t.label.first ≤ t.label.last) (hlt : t.label.last < lines.length) :
    Sound lines (t.map (Item.measure lines)) := by
  obtain ⟨low, hfirst, htiles⟩ := ht.tiles
  have hkind : (t.map (Item.measure lines)).label.kind = .sect := by
    rw [Tree.label_map]
    exact ht.kind
  have hproc : (t.map (Item.measure lines)).label.kind ≠ .proc := by
    rw [hkind]
    nofun
  refine ⟨?_, ?_, ?_, ?_, ?_, fun h => absurd h hproc, fun h => absurd h hproc⟩
  · rw [Tree.label_map]
    exact placed_measure hle hlt
  · simp only [Shaped, hkind, Tree.children_map]
    intro c hc
    obtain ⟨u, hu, rfl⟩ := List.mem_map.1 hc
    rw [Tree.label_map]
    exact (ht.page u hu).1
  · rw [Tree.children_map]
    exact apart_map htiles.inOrder.pairwise
  · intro c hc
    rw [Tree.children_map] at hc
    obtain ⟨u, hu, rfl⟩ := List.mem_map.1 hc
    obtain ⟨hl, -, hh⟩ := htiles.inOrder.bounds_of_mem hu
    rw [Tree.label_map, Tree.label_map]
    exact ⟨Nat.lt_of_lt_of_le hfirst hl, Nat.le_of_succ_le_succ hh⟩
  · intro hd
    rw [Tree.label_map] at hd
    exact absurd ht.detail hd

/-- Entries two levels deep are well formed once they are sound and do not overlap. -/
theorem wellFormed_map {ts : List (Tree Item)}
    (hfamily : (∀ t ∈ ts, t.label.kind = .proc) ∨
      ∀ t ∈ ts, t.label.kind = .sect ∨ t.label.kind = .page)
    (hapart : ts.Pairwise fun t u => t.label.last < u.label.first)
    (hsound : ∀ t ∈ ts, Sound lines (t.map (Item.measure lines)) ∧
      ∀ c ∈ t.children, c.children = [] ∧ Sound lines (c.map (Item.measure lines))) :
    WellFormed lines (ts.map (Tree.map (Item.measure lines))) where
  family := by
    simp only [List.forall_mem_map, Tree.label_map]
    exact hfamily
  apart := apart_map hapart
  sound := by
    have hleaf : ∀ t ∈ ts.map (Tree.map (Item.measure lines)), ∀ c ∈ t.children,
        c.children = [] ∧ Sound lines c := by
      simp only [List.forall_mem_map, Tree.children_map]
      intro t ht c hc
      obtain ⟨hnil, hs⟩ := (hsound t ht).2 c hc
      rw [hnil]
      exact ⟨rfl, hs⟩
    intro t ht
    rcases occurs_cases (fun u hu c hc => (hleaf u hu c hc).1) ht with ht | ⟨u, hu, hc⟩
    · obtain ⟨v, hv, rfl⟩ := List.mem_map.1 ht
      exact (hsound v hv).1
    · exact (hleaf u hu t hc).2

theorem wellFormed_procs (lines : List Line) :
    WellFormed lines
      (((Survey.ofLines lines).procs.map Proc.tree).map (Tree.map (Item.measure lines))) := by
  have ho := Survey.ofLines_inOrder lines
  refine wellFormed_map (.inl ?_) (List.pairwise_map.2 (ho.pairwise.imp_of_mem ?_)) ?_
  · intro t ht
    obtain ⟨p, -, rfl⟩ := List.mem_map.1 ht
    unfold Proc.tree
    split <;> rfl
  · intro p q hp _ h
    obtain ⟨-, hlt, -⟩ := ho.bounds_of_mem hp
    rw [Proc.first_tree]
    exact Nat.lt_of_lt_of_le (Proc.last_tree_lt hlt) h
  · intro t ht
    obtain ⟨p, hp, rfl⟩ := List.mem_map.1 ht
    exact sound_proc (Survey.subprocs_inOrder hp) (ho.bounds_of_mem hp).2.2

theorem wellFormed_headings (lines : List Line) :
    WellFormed lines ((Heading.trees lines).map (Tree.map (Item.measure lines))) := by
  obtain ⟨pages, sections, low, htrees, hpage, hsection, htiles⟩ := Heading.trees_tile lines
  have hcases : ∀ t ∈ Heading.trees lines, Heading.IsPage t ∨ Heading.IsSection t := by
    intro t ht
    rw [htrees] at ht
    exact (List.mem_append.1 ht).imp (hpage t) (hsection t)
  refine wellFormed_map (.inr ?_) htiles.inOrder.pairwise ?_
  · exact fun t ht => (hcases t ht).symm.imp (·.kind) (·.1)
  · intro t ht
    obtain ⟨-, hle, hlt⟩ := htiles.inOrder.bounds_of_mem ht
    have hle := Nat.le_of_lt_succ hle
    rcases hcases t ht with hp | hs
    · refine ⟨sound_page hp hle hlt, ?_⟩
      rw [hp.2.2]
      exact nofun
    · refine ⟨sound_section hs hle hlt, ?_⟩
      intro c hc
      obtain ⟨inner, -, hpages⟩ := hs.tiles
      obtain ⟨-, hcle, hclt⟩ := hpages.inOrder.bounds_of_mem hc
      exact ⟨(hs.page c hc).2.2, sound_page (hs.page c hc) (Nat.le_of_lt_succ hcle) (by omega)⟩

theorem symbols_wellFormed (lines : List Line) : WellFormed lines (symbols lines) := by
  unfold symbols items
  rw [Tree.mapForest_eq]
  split
  · exact wellFormed_headings lines
  · exact wellFormed_procs lines

end Outline

end TalOutline
