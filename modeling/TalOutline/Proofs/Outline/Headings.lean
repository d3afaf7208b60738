import TalOutline.Proofs.Outline.Nodes

/-!
The outline of a document without procs. Each heading has one entry, which goes up to the next heading
that ends it, and the entries cover the document from the first heading on.
-/
namespace TalOutline

namespace Heading

/-- A section ends with the next section, a page with the next heading of either kind. -/
def endsAt (h later : Heading) : Bool :=
  h.line < later.line && (h.kind != .sect || later.kind == .sect)

/-- The line after the entry of a heading, among all headings of a document. -/
def next (count : Nat) (all : List Heading) (h : Heading) : Nat :=
  ((all.find? h.endsAt).map Heading.line).getD count

/-- The entry of a heading, from its line to the line before the one after it. -/
def symbol (lines : List Line) (h : Heading) : Symbol where
  name := h.name
  kind := h.kind
  detail := none
  range := .spanning lines h.line (h.next lines.length (ofLines lines) - 1)
  selection := .line lines h.line

theorem find?_endsAt {all before rest : List Heading} {h : Heading}
    (hall : all = before ++ h :: rest) (hsorted : all.Pairwise (·.line < ·.line)) :
    all.find? h.endsAt = rest.find? fun g => h.kind != .sect || g.kind == .sect := by
  subst hall
  obtain ⟨-, hrest, hcross⟩ := List.pairwise_append.1 hsorted
  obtain ⟨hafter, -⟩ := List.pairwise_cons.1 hrest
  have hbefore : before.filter h.endsAt = [] := by
    rw [List.filter_eq_nil_iff]
    intro g hg
    have hlt := hcross g hg h List.mem_cons_self
    simp only [endsAt, Bool.and_eq_true, decide_eq_true_eq]
    omega
  have hself : [h].filter h.endsAt = [] := by simp [endsAt]
  have hlater : rest.filter h.endsAt = rest.filter fun g => h.kind != .sect || g.kind == .sect := by
    refine List.filter_congr fun g hg => ?_
    simp [endsAt, hafter g hg]
  rw [← List.head?_filter, ← List.head?_filter, ← hlater, List.filter_append, hbefore,
    ← List.singleton_append, List.filter_append, hself]
  rfl

/-- A section goes up to the next section. -/
theorem next_of_section {count : Nat} {all before rest : List Heading} {h : Heading}
    (hall : all = before ++ h :: rest) (hsorted : all.Pairwise (·.line < ·.line))
    (hkind : h.kind = .sect) :
    h.next count all = ((rest.find? (·.kind == .sect)).map Heading.line).getD count := by
  rw [next, find?_endsAt hall hsorted]
  simp [hkind]

/-- A page goes up to the next heading. -/
theorem next_of_page {count : Nat} {all before rest : List Heading} {h : Heading}
    (hall : all = before ++ h :: rest) (hsorted : all.Pairwise (·.line < ·.line))
    (hkind : h.kind ≠ .sect) : h.next count all = (rest.head?.map Heading.line).getD count := by
  rw [next, find?_endsAt hall hsorted]
  cases rest <;> simp [hkind]

/-- The headings before the first section. -/
def leading (hs : List Heading) : List Heading :=
  hs.takeWhile (·.kind != .sect)

/-- The sections, each with the headings after it up to the next one. -/
def groups : List Heading → List (Heading × List Heading)
  | [] => []
  | h :: rest => if h.kind = .sect then (h, leading rest) :: groups rest else groups rest

theorem leading_of_section {h : Heading} {rest : List Heading} (hkind : h.kind = .sect) :
    leading (h :: rest) = [] :=
  List.takeWhile_cons_of_neg (by simp [hkind])

theorem leading_of_page {h : Heading} {rest : List Heading} (hkind : h.kind ≠ .sect) :
    leading (h :: rest) = h :: leading rest :=
  List.takeWhile_cons_of_pos (by simp [hkind])

theorem leading_append_groups (hs : List Heading) :
    leading hs ++ (groups hs).flatMap (fun g => g.1 :: g.2) = hs := by
  induction hs with
  | nil => rfl
  | cons h rest ih =>
    by_cases hkind : h.kind = .sect
    · rw [leading_of_section hkind, groups, if_pos hkind, List.flatMap_cons, List.nil_append,
        List.cons_append, ih]
    · rw [leading_of_page hkind, groups, if_neg hkind, List.cons_append, ih]

theorem mem_groups (before : List Heading) {h : Heading} (after : List Heading)
    (hkind : h.kind = .sect) : (h, leading after) ∈ groups (before ++ h :: after) := by
  induction before with
  | nil =>
    rw [List.nil_append, groups, if_pos hkind]
    exact List.mem_cons_self
  | cons g before ih =>
    rw [List.cons_append, groups]
    split
    · exact List.mem_cons_of_mem _ ih
    · exact ih

theorem mem_leading {between after : List Heading} {h : Heading}
    (hbetween : ∀ g ∈ between, g.kind ≠ .sect) (hkind : h.kind ≠ .sect) :
    h ∈ leading (between ++ h :: after) := by
  have hpages : ∀ g ∈ between, (g.kind != .sect) = true := fun g hg => by simp [hbetween g hg]
  have hleading : leading (between ++ h :: after) = between ++ leading (h :: after) :=
    List.takeWhile_append_of_pos hpages
  rw [hleading, leading_of_page hkind]
  simp

theorem mem_of_mem_leading {before after : List Heading} {g h : Heading} (hkind : g.kind = .sect)
    (hh : h ∈ leading (before ++ g :: after)) : h ∈ before := by
  rw [leading, List.takeWhile_append] at hh
  split at hh
  · have hnil : (g :: after).takeWhile (·.kind != .sect) = [] := leading_of_section hkind
    rwa [hnil, List.append_nil] at hh
  · exact (List.takeWhile_sublist _).subset hh

theorem kind_of_mem_groups {hs : List Heading} {g : Heading × List Heading} (hg : g ∈ groups hs) :
    g.1.kind = .sect := by
  induction hs with
  | nil => cases hg
  | cons h rest ih =>
    rw [groups] at hg
    split at hg
    · next hkind =>
      rcases List.mem_cons.1 hg with rfl | hg
      · exact hkind
      · exact ih hg
    · exact ih hg

/-- The outline of headings that come after others, as entries of leading pages and of sections. -/
structure Outlined.Grouped (count : Nat) (all hs : List Heading) (o : Outlined) : Prop where
  pages : o.pages = (leading hs).map fun h => .leaf (h.item (h.next count all))
  sections : o.sections = (groups hs).map fun g =>
    .node (g.1.item (g.1.next count all)) (g.2.map fun h => .leaf (h.item (h.next count all)))
  pageNext : o.pageNext = (hs.head?.map Heading.line).getD count
  sectionNext : o.sectionNext = ((hs.find? (·.kind == .sect)).map Heading.line).getD count

theorem outline_grouped {count : Nat} {all before hs : List Heading} (hall : all = before ++ hs)
    (hsorted : all.Pairwise (·.line < ·.line)) : (outline count hs).Grouped count all hs := by
  induction hs generalizing before with
  | nil => exact ⟨rfl, rfl, rfl, rfl⟩
  | cons h rest ih =>
    have hsplit : all = before ++ [h] ++ rest := by simp [hall]
    have hrest : (outline count rest).Grouped count all rest := ih hsplit
    rw [outline, Outlined.cons]
    split
    · next hkind =>
      refine ⟨?_, ?_, rfl, ?_⟩
      · rw [leading_of_section hkind]
        rfl
      · rw [groups, if_pos hkind, List.map_cons, next_of_section hall hsorted hkind,
          ← hrest.sectionNext, hrest.pages, hrest.sections]
      · simp [hkind]
    · next hkind =>
      refine ⟨?_, ?_, rfl, ?_⟩
      · rw [leading_of_page hkind, List.map_cons, next_of_page hall hsorted hkind,
          ← hrest.pageNext, hrest.pages]
      · rw [groups, if_neg hkind]
        exact hrest.sections
      · simpa [hkind] using hrest.sectionNext

theorem mem_ofLines_iff {lines : List Line} {h : Heading} :
    h ∈ ofLines lines ↔ ∃ line, lines[h.line]? = some line ∧ ofLine? h.line line = some h := by
  constructor
  · intro hmem
    obtain ⟨⟨line, n⟩, hzip, hline⟩ := List.mem_filterMap.1 hmem
    obtain ⟨rfl, -⟩ := line_of_ofLine? hline
    exact ⟨line, List.mk_mem_zipIdx_iff_getElem?.1 hzip, hline⟩
  · rintro ⟨line, hget, hline⟩
    exact List.mem_filterMap.2 ⟨(line, h.line), List.mk_mem_zipIdx_iff_getElem?.2 hget, hline⟩

end Heading

namespace Outline

/-- Entries that cover the lines from one up to another, each going on where the last one ended. -/
def Covers (low high : Nat) : List (Tree Symbol) → Prop
  | [] => low = high
  | t :: rest => t.label.range.start.line = low ∧ low ≤ t.label.range.stop.line ∧
      Covers (t.label.range.stop.line + 1) high rest

theorem covers_map {lines : List Line} {low high : Nat} {ts : List (Tree Item)}
    (h : Heading.Tiles low high ts) : Covers low high (ts.map (Tree.map (Item.measure lines))) := by
  induction ts generalizing low with
  | nil => exact h
  | cons t rest ih =>
    obtain ⟨hfirst, hle, hrest⟩ := h
    rw [List.map_cons, Covers, Tree.label_map]
    exact ⟨hfirst, hle, ih hrest⟩

/-- How the outline of a document without procs is made up of its headings. -/
structure LaidOut (lines : List Line) (forest : List (Tree Symbol)) : Prop where
  accepted : ∀ h, h ∈ Heading.ofLines lines ↔
    ∃ line, lines[h.line]? = some line ∧ Heading.ofLine? h.line line = some h
  increasing : (Heading.ofLines lines).Pairwise (·.line < ·.line)
  /-- There is one entry for each heading, in their order. -/
  entries : (Tree.preorderForest 0 forest).map Prod.snd =
    (Heading.ofLines lines).map (Heading.symbol lines)
  section_top : ∀ h ∈ Heading.ofLines lines, h.kind = .sect →
    ∃ t ∈ forest, t.label = h.symbol lines
  page_top_iff : ∀ before h after, Heading.ofLines lines = before ++ h :: after → h.kind = .page →
    ((∃ t ∈ forest, t.label = h.symbol lines) ↔ ∀ g ∈ before, g.kind ≠ .sect)
  /-- A page lies below the nearest section before it. -/
  page_below : ∀ before g between h after,
    Heading.ofLines lines = before ++ g :: (between ++ h :: after) → g.kind = .sect →
    (∀ f ∈ between, f.kind ≠ .sect) → h.kind = .page →
    ∃ t ∈ forest, t.label = g.symbol lines ∧ ∃ c ∈ t.children, c.label = h.symbol lines
  covers : ∀ h ∈ (Heading.ofLines lines).head?, Covers h.line lines.length forest
  covers_section : ∀ t ∈ forest, t.label.kind = .sect → ∀ c ∈ t.children.head?,
    Covers c.label.range.start.line (t.label.range.stop.line + 1) t.children

variable {lines : List Line}

theorem symbols_of_no_procs (h : (Survey.ofLines lines).procs = []) :
    symbols lines = (Heading.trees lines).map (Tree.map (Item.measure lines)) := by
  rw [symbols, items_of_no_procs h, Tree.mapForest_eq]

theorem symbols_eq_groups (h : (Survey.ofLines lines).procs = []) :
    symbols lines =
      ((Heading.leading (Heading.ofLines lines)).map fun h => .leaf (h.symbol lines)) ++
        (Heading.groups (Heading.ofLines lines)).map fun g =>
          .node (g.1.symbol lines) (g.2.map fun h => .leaf (h.symbol lines)) := by
  have hgrouped : (Heading.outline lines.length (Heading.ofLines lines)).Grouped lines.length
      (Heading.ofLines lines) (Heading.ofLines lines) :=
    Heading.outline_grouped (List.nil_append _).symm (Heading.ofLines_pairwise lines)
  have hleaf (h : Heading) : (Tree.leaf (h.item (h.next lines.length (Heading.ofLines lines)))).map
      (Item.measure lines) = .leaf (h.symbol lines) := rfl
  rw [symbols_of_no_procs h, Heading.trees_eq, hgrouped.pages, hgrouped.sections, List.map_append,
    List.map_map, List.map_map]
  congr 1
  refine List.map_congr_left fun g _ => ?_
  rw [Function.comp_apply, Tree.map, Tree.mapForest_eq, List.map_map]
  exact congrArg _ (List.map_congr_left fun f _ => hleaf f)

theorem map_snd_preorder_symbols (h : (Survey.ofLines lines).procs = []) :
    (Tree.preorderForest 0 (symbols lines)).map Prod.snd =
      (Heading.ofLines lines).map (Heading.symbol lines) := by
  have hpages (hs : List Heading) (depth : Nat) :
      (Tree.preorderForest depth (hs.map fun h => .leaf (h.symbol lines))).map Prod.snd =
        hs.map (Heading.symbol lines) := by
    have hleaves := Tree.preorderForest_leaves depth (hs.map (Heading.symbol lines))
    rw [List.map_map] at hleaves
    rw [← Function.comp_def, hleaves, List.map_map]
    exact List.map_id _
  have hgroup (g : Heading × List Heading) :
      ((Tree.node (g.1.symbol lines) (g.2.map fun h => .leaf (h.symbol lines))).preorder 0).map
        Prod.snd = (g.1 :: g.2).map (Heading.symbol lines) := by
    rw [Tree.preorder, List.map_cons, hpages, List.map_cons]
  rw [symbols_eq_groups h, Tree.preorderForest_append, List.map_append, hpages,
    Tree.preorderForest_eq, List.flatMap_map, List.map_flatMap]
  simp only [hgroup]
  rw [← List.map_flatMap, ← List.map_append, Heading.leading_append_groups]

theorem mem_symbols_iff (h : (Survey.ofLines lines).procs = []) {t : Tree Symbol} :
    t ∈ symbols lines ↔
      (∃ h ∈ Heading.leading (Heading.ofLines lines), t = .leaf (h.symbol lines)) ∨
      ∃ g ∈ Heading.groups (Heading.ofLines lines),
        t = .node (g.1.symbol lines) (g.2.map fun h => .leaf (h.symbol lines)) := by
  rw [symbols_eq_groups h, List.mem_append, List.mem_map, List.mem_map]
  simp only [eq_comm]

theorem section_mem_symbols (h : (Survey.ofLines lines).procs = []) {before after : List Heading}
    {g : Heading} (hsplit : Heading.ofLines lines = before ++ g :: after) (hkind : g.kind = .sect) :
    .node (g.symbol lines) ((Heading.leading after).map fun h => .leaf (h.symbol lines)) ∈
      symbols lines := by
  have hgroup : (g, Heading.leading after) ∈ Heading.groups (Heading.ofLines lines) := by
    rw [hsplit]
    exact Heading.mem_groups before after hkind
  exact (mem_symbols_iff h).2 (.inr ⟨_, hgroup, rfl⟩)

theorem page_top_iff (hprocs : (Survey.ofLines lines).procs = []) {before after : List Heading}
    {h : Heading} (hsplit : Heading.ofLines lines = before ++ h :: after) (hkind : h.kind = .page) :
    (∃ t ∈ symbols lines, t.label = h.symbol lines) ↔ ∀ g ∈ before, g.kind ≠ .sect := by
  constructor
  · rintro ⟨t, ht, hlabel⟩ g hg hsect
    rcases (mem_symbols_iff hprocs).1 ht with ⟨f, hf, rfl⟩ | ⟨f, hf, rfl⟩
    · have hline : f.line = h.line := congrArg (·.range.start.line) hlabel
      obtain ⟨first, second, rfl⟩ := List.append_of_mem hg
      have hall : Heading.ofLines lines = first ++ g :: (second ++ h :: after) := by simp [hsplit]
      have hsorted := Heading.ofLines_pairwise lines
      rw [hall] at hf hsorted
      obtain ⟨-, hrest, hcross⟩ := List.pairwise_append.1 hsorted
      have hfg : f.line < g.line :=
        hcross f (Heading.mem_of_mem_leading hsect hf) g List.mem_cons_self
      have hgh : g.line < h.line := (List.pairwise_cons.1 hrest).1 h (by simp)
      omega
    · have hfkind : f.1.kind = h.kind := congrArg (·.kind) hlabel
      rw [Heading.kind_of_mem_groups hf, hkind] at hfkind
      cases hfkind
  · intro hbefore
    have hleading : h ∈ Heading.leading (Heading.ofLines lines) := by
      rw [hsplit]
      exact Heading.mem_leading hbefore (by rw [hkind]; nofun)
    exact ⟨_, (mem_symbols_iff hprocs).2 (.inl ⟨h, hleading, rfl⟩), rfl⟩

theorem covers_symbols (hprocs : (Survey.ofLines lines).procs = []) {h : Heading}
    (hh : h ∈ (Heading.ofLines lines).head?) : Covers h.line lines.length (symbols lines) := by
  have htiled := Heading.outline_ofLines_tiled lines
  have hnext : (Heading.outline lines.length (Heading.ofLines lines)).pageNext = h.line := by
    obtain ⟨rest, hrest⟩ := List.head?_eq_some_iff.1 hh
    rw [hrest, Heading.pageNext_outline_cons]
  rw [symbols_of_no_procs hprocs, Heading.trees_eq, ← hnext]
  exact covers_map (htiled.pages.append htiled.sections)

theorem covers_children (hprocs : (Survey.ofLines lines).procs = []) {t : Tree Symbol}
    (ht : t ∈ symbols lines) (hkind : t.label.kind = .sect) {c : Tree Symbol}
    (hc : c ∈ t.children.head?) :
    Covers c.label.range.start.line (t.label.range.stop.line + 1) t.children := by
  rw [symbols_of_no_procs hprocs, Heading.trees_eq] at ht
  obtain ⟨u, hu, rfl⟩ := List.mem_map.1 ht
  have htiled := Heading.outline_ofLines_tiled lines
  rw [Tree.label_map] at hkind
  have hsection : Heading.IsSection u := by
    rcases List.mem_append.1 hu with hpage | hsection
    · have hpagekind : u.label.kind = .page := (htiled.isPage u hpage).1
      have hsame : u.label.kind = .sect := hkind
      rw [hpagekind] at hsame
      cases hsame
    · exact htiled.isSection u hsection
  obtain ⟨low, -, htiles⟩ := hsection.tiles
  have hcovers : Covers low (u.label.last + 1) (u.map (Item.measure lines)).children := by
    rw [Tree.children_map]
    exact covers_map htiles
  obtain ⟨rest, hrest⟩ := List.head?_eq_some_iff.1 hc
  have hlow : c.label.range.start.line = low := by
    rw [hrest] at hcovers
    exact hcovers.1
  rw [hlow, Tree.label_map]
  exact hcovers

/--
Sections and pages are in the outline only if no line declares a proc. Then each heading has its entry
up to the next heading that ends it, pages lie below the section before them, and the entries cover
the document from the first heading on.
-/
theorem symbols_laidOut (lines : List Line) :
    ((∃ e ∈ nodes lines, e.2.kind = .sect ∨ e.2.kind = .page) →
      ∀ line ∈ lines, (Facts.ofLine line).declares? .proc = none) ∧
    ((∀ line ∈ lines, (Facts.ofLine line).declares? .proc = none) →
      LaidOut lines (symbols lines)) := by
  rw [← Survey.procs_eq_nil_iff]
  refine ⟨?_, fun hprocs => ?_⟩
  · rintro ⟨e, he, hkind⟩
    refine Classical.byContradiction fun hprocs => ?_
    rcases kind_of_procs hprocs he with h | h | h <;> simp [h] at hkind
  · refine ⟨fun h => Heading.mem_ofLines_iff, Heading.ofLines_pairwise lines,
      map_snd_preorder_symbols hprocs, ?_, ?_, ?_, ?_, ?_⟩
    · intro h hh hkind
      obtain ⟨before, after, hsplit⟩ := List.append_of_mem hh
      exact ⟨_, section_mem_symbols hprocs hsplit hkind, rfl⟩
    · exact fun before h after hsplit hkind => page_top_iff hprocs hsplit hkind
    · intro before g between h after hsplit hg hbetween hh
      refine ⟨_, section_mem_symbols hprocs hsplit hg, rfl, .leaf (h.symbol lines), ?_, rfl⟩
      have hbelow : h ∈ Heading.leading (between ++ h :: after) :=
        Heading.mem_leading hbetween (by rw [hh]; nofun)
      exact List.mem_map.2 ⟨h, hbelow, rfl⟩
    · exact fun h hh => covers_symbols hprocs hh
    · exact fun t ht hkind c hc => covers_children hprocs ht hkind hc

/-- A page before the first of two sections, and a page in it. -/
def manual : List Line :=
  ["?page \"a\"", "?section s", "", "?page \"b\"", "?section t"].map String.toList

theorem symbols_laidOut_manual :
    (Heading.ofLines manual).map Heading.line = [0, 1, 3, 4] ∧
      (∀ line ∈ manual, (Facts.ofLine line).declares? .proc = none) ∧
      LaidOut manual (symbols manual) := by
  have hheadings : (Heading.ofLines manual).map Heading.line = [0, 1, 3, 4] := by decide +kernel
  have hprocs : ∀ line ∈ manual, (Facts.ofLine line).declares? .proc = none := by decide +kernel
  exact ⟨hheadings, hprocs, (symbols_laidOut manual).2 hprocs⟩

end Outline

end TalOutline
