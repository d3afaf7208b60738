import TalOutline.Document
import TalOutline.Proofs.Declaration.Grammar
import TalOutline.Proofs.Directive.Grammar
import TalOutline.Proofs.Outline.Coverage
import TalOutline.Proofs.Outline.Headings

/-!
What the labels of an outline tell on their own. The kinds of its entries in pre-order tell how deep each
of them lies, and no name goes beyond the end of a line.
-/
namespace TalOutline

/-- Whether an entry of the kind stands at the top, with those behind it below it. -/
def ItemKind.heads : ItemKind → Bool
  | .proc | .sect => true
  | .subproc | .page | .main => false

namespace Outline

/-- The depths of entries in pre-order, told by their kinds. Before the first entry that heads others all
stand at the top. -/
def depths (headed : Bool) : List ItemKind → List Nat
  | [] => []
  | kind :: kinds =>
    (if kind.heads then 0 else headed.toNat) :: depths (headed || kind.heads) kinds

theorem depths_append (headed : Bool) {items : List Item} (h : ∀ item ∈ items, item.kind.heads = false)
    (rest : List ItemKind) :
    depths headed (items.map Item.kind ++ rest) =
      items.map (fun _ => headed.toNat) ++ depths headed rest := by
  induction items with
  | nil => rfl
  | cons item items ih =>
    obtain ⟨hitem, hitems⟩ := List.forall_mem_cons.1 h
    rw [List.map_cons, List.cons_append, depths, hitem, Bool.or_false, ih hitems]
    rfl

/-- An entry at the top with entries below it that have none below them. -/
structure Headed (t : Tree Item) : Prop where
  heads : t.label.kind.heads = true
  below : ∃ items : List Item, t.children = items.map .leaf ∧ ∀ item ∈ items, item.kind.heads = false

theorem depths_of_headed (headed : Bool) {ts : List (Tree Item)} (h : ∀ t ∈ ts, Headed t) :
    (Tree.preorderForest 0 ts).map Prod.fst =
      depths headed ((Tree.preorderForest 0 ts).map (·.2.kind)) := by
  induction ts generalizing headed with
  | nil => rfl
  | cons t ts ih =>
    obtain ⟨ht, hts⟩ := List.forall_mem_cons.1 h
    obtain ⟨below, hbelow, hkinds⟩ := ht.below
    rw [Tree.preorderForest, Tree.preorder_eq, hbelow, Tree.preorderForest_leaves]
    simp only [List.cons_append, List.map_cons, List.map_append, List.map_map, depths, ht.heads,
      Bool.or_true, if_true]
    have hdepths := depths_append true hkinds ((Tree.preorderForest 0 ts).map (·.2.kind))
    rw [ih true hts]
    exact congrArg _ hdepths.symm

theorem exists_leaves {ts : List (Tree Item)} (h : ∀ t ∈ ts, Heading.IsPage t) :
    ∃ items : List Item, ts = items.map .leaf ∧ ∀ item ∈ items, item.kind.heads = false := by
  refine ⟨ts.map Tree.label, ?_, ?_⟩
  · have hleaf : ∀ t ∈ ts, (Tree.leaf ∘ Tree.label) t = id t := by
      intro t ht
      cases t with
      | node item children =>
        have hchildren : children = [] := (h _ ht).2.2
        rw [hchildren]
        rfl
    rw [List.map_map, List.map_congr_left hleaf, List.map_id]
  · intro item hitem
    obtain ⟨t, ht, rfl⟩ := List.mem_map.1 hitem
    rw [(h t ht).1]
    rfl

theorem headed_tree (p : Proc) : Headed p.tree where
  heads := by
    rw [p.kind_tree]
    rfl
  below := by
    refine ⟨p.below, p.children_tree, ?_⟩
    intro item hitem
    rcases Proc.mem_entries.1 (Proc.mem_entries_of_below hitem) with ⟨s, -, rfl⟩ | hmain
    · rfl
    · obtain ⟨s, -, -, rfl⟩ := Proc.mainItem?_eq_some_iff.1 hmain
      rfl

theorem headed_of_isSection {t : Tree Item} (h : Heading.IsSection t) : Headed t where
  heads := by
    rw [h.kind]
    rfl
  below := exists_leaves h.page

/-- Every outline has entries without others below them first, perhaps, and then headed ones only. -/
theorem exists_headed (lines : List Line) :
    ∃ (pages : List Item) (groups : List (Tree Item)), items lines = pages.map .leaf ++ groups ∧
      (∀ item ∈ pages, item.kind.heads = false) ∧ ∀ t ∈ groups, Headed t := by
  by_cases hprocs : (Survey.ofLines lines).procs = []
  · obtain ⟨pages, sections, -, htrees, hpage, hsection, -⟩ := Heading.trees_tile lines
    obtain ⟨leaves, rfl, hkinds⟩ := exists_leaves hpage
    rw [items_of_no_procs hprocs, htrees]
    exact ⟨leaves, sections, rfl, hkinds, fun t ht => headed_of_isSection (hsection t ht)⟩
  · refine ⟨[], _, items_of_procs hprocs, nofun, ?_⟩
    intro t ht
    obtain ⟨p, -, rfl⟩ := List.mem_map.1 ht
    exact headed_tree p

/-- The kinds of the entries tell their depths. -/
theorem depths_eq (lines : List Line) :
    (Tree.preorderForest 0 (items lines)).map Prod.fst =
      depths false ((Tree.preorderForest 0 (items lines)).map (·.2.kind)) := by
  obtain ⟨pages, groups, hitems, hpages, hgroups⟩ := exists_headed lines
  have hdepths := depths_append false hpages ((Tree.preorderForest 0 groups).map (·.2.kind))
  rw [hitems, Tree.preorderForest_append, Tree.preorderForest_leaves]
  simp only [List.map_append, List.map_map, depths_of_headed false hgroups]
  exact hdepths.symm

end Outline

/-! Names. Those of routines and sections are made of letters and digits, and the title of a page is part
of its line. -/

theorem Text.IsName.newline_notMem {name : List Char} (h : IsName name) : '\n' ∉ name := by
  intro hmem
  have hchar := Text.isNameChar_iff.2 (h.chars _ hmem)
  exact absurd hchar (by decide)

theorem Facts.isName_of_declares? {line : Line} {routine : Routine} {name : List Char}
    (h : (ofLine line).declares? routine = some name) : Text.IsName name := by
  unfold declares? at h
  split at h
  · cases h
  · next d hd =>
    obtain ⟨routine', name'⟩ := d
    obtain ⟨-, -, -, hname, -⟩ := Declaration.parse?_eq_some_iff.1 hd
    split at h
    · obtain rfl := Option.some.inj h
      exact hname
    · cases h

theorem Facts.newline_notMem_of_drop {lines : List Line} {n : Nat} {f : Facts} {rest : List Facts}
    {routine : Routine} {name : List Char} (hn : (lines.map ofLine).drop n = f :: rest)
    (hf : f.declares? routine = some name) : '\n' ∉ (String.ofList name).toList := by
  have hmem : f ∈ lines.map ofLine := by
    apply List.mem_of_mem_drop
    rw [hn]
    exact List.mem_cons_self
  obtain ⟨line, -, rfl⟩ := List.mem_map.1 hmem
  rw [String.toList_ofList]
  exact (isName_of_declares? hf).newline_notMem

namespace Survey

variable {lines : List Line} {p : Proc}

theorem newline_notMem_name (hp : p ∈ (ofLines lines).procs) : '\n' ∉ p.name.toList := by
  obtain ⟨f, rest, name, hn, hf, hread⟩ := read_of_mem hp
  rw [hread]
  exact Facts.newline_notMem_of_drop hn hf

theorem newline_notMem_subproc (hp : p ∈ (ofLines lines).procs) {s : Subproc}
    (hs : s ∈ p.subprocs) : '\n' ∉ s.name.toList := by
  obtain ⟨f, rest, name, hn, -, hread⟩ := read_of_mem hp
  rw [hread] at hs
  obtain ⟨g, rest', name', hn', hg, hsub⟩ := Proc.subproc_of_readBody hn hs
  rw [hsub]
  exact Facts.newline_notMem_of_drop hn' hg

theorem newline_notMem_below (hp : p ∈ (ofLines lines).procs) {item : Item} (h : item ∈ p.below) :
    '\n' ∉ item.name.toList := by
  rcases Proc.mem_entries.1 (Proc.mem_entries_of_below h) with ⟨s, hs, rfl⟩ | hmain
  · exact newline_notMem_subproc hp hs
  · obtain ⟨s, -, -, rfl⟩ := Proc.mainItem?_eq_some_iff.1 hmain
    have hlead : '\n' ∉ "main: ".toList := by decide
    rw [String.toList_append, List.mem_append, not_or]
    exact ⟨hlead, newline_notMem_name hp⟩

end Survey

theorem Heading.newline_notMem_name {n : Nat} {line : Line} {h : Heading} (hline : '\n' ∉ line)
    (hh : ofLine? n line = some h) : '\n' ∉ h.name.toList := by
  unfold ofLine? at hh
  split at hh
  · next name hname =>
    obtain rfl := Option.some.inj hh
    obtain ⟨-, -, -, -, -, hname, -⟩ := sectionName?_eq_some_iff.1 hname
    rw [String.toList_ofList]
    exact hname.newline_notMem
  · obtain ⟨title, htitle, rfl⟩ := Option.map_eq_some_iff.1 hh
    obtain ⟨hsplit, -⟩ := pageTitle?_eq_some_iff.1 htitle
    rw [String.toList_ofList]
    intro hmem
    apply hline
    rw [hsplit]
    simp [hmem]

/-- In a document whose lines end at line feeds no name holds one. -/
theorem Outline.newline_notMem_name {lines : List Line} (hlines : ∀ line ∈ lines, '\n' ∉ line)
    {e : Nat × Symbol} (he : e ∈ nodes lines) : '\n' ∉ e.2.name.toList := by
  by_cases hprocs : (Survey.ofLines lines).procs = []
  · have hmem : e.2 ∈ (nodes lines).map Prod.snd := List.mem_map_of_mem he
    rw [nodes, map_snd_preorder_symbols hprocs] at hmem
    obtain ⟨h, hh, hsymbol⟩ := List.mem_map.1 hmem
    obtain ⟨line, hget, hline⟩ := Heading.mem_ofLines_iff.1 hh
    rw [← hsymbol]
    exact Heading.newline_notMem_name (hlines line (List.mem_of_getElem? hget)) hline
  · obtain ⟨p, hp, rfl | ⟨item, hitem, rfl⟩⟩ := (mem_nodes_of_procs hprocs).1 he
    · have hname : (p.tree.label.measure lines).name = p.name := p.label_tree.1
      rw [hname]
      exact Survey.newline_notMem_name hp
    · exact Survey.newline_notMem_below hp hitem

namespace Document

theorem newline_notMem_of_splitLines {text line : List Char} (h : line ∈ splitLines text) :
    '\n' ∉ line := by
  induction text generalizing line with
  | nil =>
    rw [splitLines, List.mem_singleton] at h
    rw [h]
    exact List.not_mem_nil
  | cons c rest ih =>
    unfold splitLines at h
    split at h
    · obtain rfl | h := List.mem_cons.1 h
      · exact List.not_mem_nil
      · exact ih h
    · next hc =>
      split at h
      · rw [List.mem_singleton] at h
        simpa [h] using Ne.symm hc
      · next first more hrest =>
        rw [hrest] at ih
        obtain rfl | h := List.mem_cons.1 h
        · rw [List.mem_cons, not_or]
          exact ⟨Ne.symm hc, ih List.mem_cons_self⟩
        · exact ih (List.mem_cons_of_mem _ h)

theorem newline_notMem_of_linesOf {text line : List Char} (h : line ∈ linesOf text) :
    '\n' ∉ line := by
  unfold linesOf at h
  split at h
  · cases h
  · obtain ⟨piece, hpiece, rfl⟩ := List.mem_map.1 h
    have hnone := newline_notMem_of_splitLines hpiece
    unfold dropReturn
    split
    · exact fun hmem => hnone ((List.dropLast_sublist _).mem hmem)
    · exact hnone

end Document

end TalOutline
