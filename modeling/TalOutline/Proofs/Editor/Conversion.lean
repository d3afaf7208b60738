import TalOutline.Editor.Convert
import TalOutline.Fold.All
import TalOutline.Proofs.Outline.Headings
import TalOutline.Proofs.Outline.Wellformed
import TalOutline.Proofs.Report.Records

/-!
What editors are given of an outline is acceptable to them and loses nothing. Every entry without body
has the same number, whether it is a proc or a subproc, but procs stand at the top and subprocs below them,
so the depth of an entry tells what its number does not.
-/
namespace TalOutline

/-- Places in a document are ordered by line, and on one line by character. -/
instance : LE Position where
  le p q := p.line < q.line ∨ p.line = q.line ∧ p.character ≤ q.character

def Range.Inside (r s : Range) : Prop :=
  s.start ≤ r.start ∧ r.stop ≤ s.stop

theorem Tree.Occurs.exists_of_map {α β : Type} {f : α → β} {t : Tree β} {forest : List (Tree β)}
    (h : t.Occurs forest) {ts : List (Tree α)} (hforest : forest = ts.map (map f)) :
    ∃ u : Tree α, u.Occurs ts ∧ u.map f = t := by
  induction h generalizing ts with
  | root hmem =>
    rw [hforest] at hmem
    obtain ⟨u, hu, rfl⟩ := List.mem_map.1 hmem
    exact ⟨u, .root hu, rfl⟩
  | child hmem _ ih =>
    rw [hforest] at hmem
    obtain ⟨v, hv, rfl⟩ := List.mem_map.1 hmem
    obtain ⟨u, hu, rfl⟩ := ih (children_map f v)
    exact ⟨u, .child hv hu, rfl⟩

theorem Tree.Occurs.of_child {α : Type} {t c : Tree α} {forest : List (Tree α)} (h : t.Occurs forest)
    (hc : c ∈ t.children) : c.Occurs forest := by
  induction h with
  | root hmem => exact .child hmem (.root hc)
  | child hmem _ ih => exact .child hmem ih

namespace Outline

variable {lines : List Line}

namespace Placed

variable {s t : Symbol}

theorem selection_inside (h : Placed lines s) : s.selection.Inside s.range := by
  obtain ⟨line, hline, hselection⟩ := h.selection
  rw [hselection]
  constructor
  · exact .inr ⟨rfl, Nat.le_of_eq h.start⟩
  · rcases Nat.lt_or_eq_of_le h.order with hlt | heq
    · exact .inl hlt
    · -- The range is on one line, so both end where that line does.
      obtain ⟨last, hlast, hwidth⟩ := h.stop
      rw [← heq, hline] at hlast
      have hsame : Text.units line = s.range.stop.character := by
        rw [hwidth, Option.some.inj hlast]
      exact .inr ⟨heq, Nat.le_of_eq hsame⟩

theorem range_inside (hs : Placed lines s) (ht : Placed lines t)
    (hstart : t.range.start.line < s.range.start.line)
    (hstop : s.range.stop.line ≤ t.range.stop.line) : s.range.Inside t.range := by
  constructor
  · exact .inl hstart
  · rcases Nat.lt_or_eq_of_le hstop with hlt | heq
    · exact .inl hlt
    · obtain ⟨line, hline, hwidth⟩ := hs.stop
      obtain ⟨last, hlast, hlastWidth⟩ := ht.stop
      rw [heq, hlast] at hline
      have hsame : s.range.stop.character = t.range.stop.character := by
        rw [hwidth, hlastWidth, Option.some.inj hline]
      exact .inr ⟨heq, Nat.le_of_eq hsame⟩

end Placed

theorem sound_of_occurs {t : Tree Symbol} (h : t.Occurs (symbols lines)) : Sound lines t := by
  by_cases hprocs : (Survey.ofLines lines).procs = []
  · rw [symbols, items_of_no_procs hprocs, Tree.mapForest_eq] at h
    exact (wellFormed_headings lines).sound t h
  · rw [symbols, items_of_procs hprocs, Tree.mapForest_eq] at h
    exact (wellFormed_procs lines).sound t h

/-- An entry without body is a proc if it stands at the top, and else a subproc. -/
theorem kind_of_detail {e : Nat × Symbol} (he : e ∈ nodes lines) (hd : e.2.detail ≠ none) :
    e.2.kind = if e.1 = 0 then .proc else .subproc := by
  by_cases hprocs : (Survey.ofLines lines).procs = []
  · have hmem : e.2 ∈ (nodes lines).map Prod.snd := List.mem_map_of_mem he
    rw [nodes, map_snd_preorder_symbols hprocs] at hmem
    obtain ⟨h, -, hsymbol⟩ := List.mem_map.1 hmem
    rw [← hsymbol] at hd
    exact absurd rfl hd
  · obtain ⟨p, -, rfl | ⟨item, hitem, rfl⟩⟩ := (mem_nodes_of_procs hprocs).1 he
    · exact p.kind_tree
    · rcases Proc.mem_entries.1 (Proc.mem_entries_of_below hitem) with ⟨s, -, rfl⟩ | hmain
      · rfl
      · obtain ⟨s, -, -, rfl⟩ := Proc.mainItem?_eq_some_iff.1 hmain
        exact absurd rfl hd

end Outline

namespace Editor

/-- An entry that editors take: its selection and all entries right below it lie in its range. -/
structure Accepted (t : Tree DocumentSymbol) : Prop where
  selection : t.label.selection.Inside t.label.range
  below : ∀ c ∈ t.children, c.label.range.Inside t.label.range

theorem accepted_of_occurs {lines : List Line} {t : Tree DocumentSymbol}
    (h : t.Occurs (documentSymbols (Outline.symbols lines))) : Accepted t := by
  obtain ⟨u, hu, rfl⟩ := h.exists_of_map (Tree.mapForest_eq convert _)
  have hsound := Outline.sound_of_occurs hu
  constructor
  · rw [Tree.label_map]
    exact hsound.placed.selection_inside
  · rw [Tree.label_map, Tree.children_map, List.forall_mem_map]
    intro c hc
    obtain ⟨hstart, hstop⟩ := hsound.inside c hc
    have hplaced := (Outline.sound_of_occurs (hu.of_child hc)).placed
    rw [Tree.label_map]
    exact hplaced.range_inside hsound.placed hstart hstop

/-! Back from the form that editors take. -/

/-- The kind of an entry, told by the number that stands for it and by its depth. -/
def kindAt (depth : Nat) : Nat → ItemKind
  | 4 => .sect
  | 5 => .proc
  | 6 => .subproc
  | 12 => .main
  | 15 => .page
  | _ => if depth = 0 then .proc else .subproc

def linkageOf? (detail : Option String) : Option Linkage :=
  detail.bind (Report.spelled? [.forward, .external] Linkage.text)

/-- The entry of an outline that was converted, from what came of it and its depth. -/
def restore (depth : Nat) (d : DocumentSymbol) : Symbol where
  name := d.name
  kind := kindAt depth d.kind
  detail := linkageOf? d.detail
  range := d.range
  selection := d.selection

theorem kindAt_symbolKind {depth : Nat} {kind : ItemKind} {detail : Option Linkage}
    (h : detail ≠ none → kind = if depth = 0 then .proc else .subproc) :
    kindAt depth (symbolKind kind detail) = kind := by
  cases detail with
  | none => cases kind <;> rfl
  | some linkage => exact (h (Option.some_ne_none linkage)).symm

theorem linkageOf?_text (detail : Option Linkage) :
    linkageOf? (detail.map Linkage.text) = detail := by
  cases detail with
  | none => rfl
  | some linkage => cases linkage <;> decide

theorem restore_convert {depth : Nat} {s : Symbol}
    (h : s.detail ≠ none → s.kind = if depth = 0 then .proc else .subproc) :
    restore depth (convert s) = s := by
  cases s
  simp only [restore, convert, kindAt_symbolKind h, linkageOf?_text]

/-- All entries of an outline come back from the converted ones. -/
theorem restore_documentSymbols (lines : List Line) :
    ((Tree.preorderForest 0 (documentSymbols (Outline.symbols lines))).map fun e =>
      (e.1, restore e.1 e.2)) = Outline.nodes lines := by
  have hrestore : ∀ e ∈ Outline.nodes lines, (e.1, restore e.1 (convert e.2)) = id e := by
    intro e he
    rw [restore_convert (Outline.kind_of_detail he)]
    rfl
  calc
    _ = (Outline.nodes lines).map fun e => (e.1, restore e.1 (convert e.2)) := by
      rw [documentSymbols, Tree.preorderForest_mapForest, List.map_map]
      rfl
    _ = (Outline.nodes lines).map id := List.map_congr_left hrestore
    _ = Outline.nodes lines := List.map_id _

theorem symbols_eq_of_converted {lines lines' : List Line}
    (h : documentSymbols (Outline.symbols lines) = documentSymbols (Outline.symbols lines')) :
    Outline.symbols lines = Outline.symbols lines' := by
  have hnodes := restore_documentSymbols lines
  rw [h, restore_documentSymbols lines'] at hnodes
  exact Tree.preorderForest_inj hnodes.symm

/-! From the members of an object back to the entry. Those for a detail and for entries below may be
missing, and then there is nothing. -/

section Members

open Report

def entryOf? (v : Json) : Option DocumentSymbol := do
  let name ← (field? "name" v).bind stringOf?
  let kind ← (field? "kind" v).bind natOf?
  let range ← (field? "range" v).bind rangeOf?
  let selection ← (field? "selectionRange" v).bind rangeOf?
  return ⟨name, (field? "detail" v).bind stringOf?, kind, range, selection⟩

/-- The values of the entries below. -/
def belowOf (v : Json) : List Json :=
  match field? "children" v with
  | some (.array vs) => vs
  | _ => []

theorem field?_childrenMember (key : String) (vs : List Json) :
    field? key (.object (childrenMember vs)) =
      if key = "children" ∧ vs ≠ [] then some (.array vs) else none := by
  have hnone : field? key (.object []) = none := rfl
  cases vs with
  | nil => simp [childrenMember, hnone]
  | cons v vs => simp [childrenMember, field?_cons, hnone]

theorem entryOf?_symbolJson (t : Tree DocumentSymbol) : entryOf? (symbolJson t) = some t.label := by
  obtain ⟨⟨name, detail, kind, range, selection⟩, children⟩ := t
  cases detail <;>
    simp [entryOf?, symbolJson, detailMember, field?_cons, field?_childrenMember, stringOf?, natOf?_nat,
      rangeOf?_rangeJson, Tree.label]

theorem belowOf_symbolJson (t : Tree DocumentSymbol) :
    belowOf (symbolJson t) = symbolsJson t.children := by
  obtain ⟨⟨name, detail, kind, range, selection⟩, children⟩ := t
  have hbelow : field? "children" (symbolJson (.node ⟨name, detail, kind, range, selection⟩ children)) =
      if symbolsJson children ≠ [] then some (.array (symbolsJson children)) else none := by
    cases detail <;> simp [symbolJson, detailMember, field?_cons, field?_childrenMember]
  rw [belowOf, hbelow, Tree.children]
  by_cases hnil : symbolsJson children = []
  · simp [hnil]
  · simp [hnil]

end Members

mutual

theorem symbolJson_inj : (t u : Tree DocumentSymbol) → symbolJson t = symbolJson u → t = u
  | .node s children, .node s' children', h => by
    have hlabel := entryOf?_symbolJson (.node s children)
    rw [h, entryOf?_symbolJson] at hlabel
    have hbelow := belowOf_symbolJson (.node s children)
    rw [h, belowOf_symbolJson] at hbelow
    obtain rfl : s' = s := Option.some.inj hlabel
    rw [symbolsJson_inj children children' hbelow.symm]

theorem symbolsJson_inj : (ts us : List (Tree DocumentSymbol)) → symbolsJson ts = symbolsJson us → ts = us
  | [], [], _ => rfl
  | [], _ :: _, h => by simp [symbolsJson] at h
  | _ :: _, [], h => by simp [symbolsJson] at h
  | t :: ts, u :: us, h => by
    rw [symbolsJson, symbolsJson, List.cons.injEq] at h
    rw [symbolJson_inj t u h.1, symbolsJson_inj ts us h.2]

end

theorem foldJson_injective : Function.Injective foldJson := by
  intro f g h
  obtain ⟨first, last, kind⟩ := f
  obtain ⟨first', last', kind'⟩ := g
  simp only [foldJson, Json.nat, Json.object.injEq, List.cons.injEq, Prod.mk.injEq, Json.number.injEq,
    Json.string.injEq, Int.natCast_inj, true_and, and_true] at h
  obtain ⟨hfirst, hlast, htext⟩ := h
  have hkind := Report.spelled?_foldKinds kind
  rw [htext, Report.spelled?_foldKinds] at hkind
  rw [hfirst, hlast, Option.some.inj hkind]

/--
The converted outline of a document is the same tree with the same names and ranges, and editors accept
every entry of it. From what editors are sent, in which an empty detail and an empty list of entries below
are left out, the outline comes back in full, and so do the folds.
-/
theorem conversion_lossless (lines lines' : List Line) :
    (Tree.mapForest (fun d => (d.name, d.range, d.selection)) (documentSymbols (Outline.symbols lines)) =
        Tree.mapForest (fun s => (s.name, s.range, s.selection)) (Outline.symbols lines)) ∧
      (∀ t, t.Occurs (documentSymbols (Outline.symbols lines)) → Accepted t) ∧
      (documentSymbols (Outline.symbols lines) = documentSymbols (Outline.symbols lines') →
        Outline.symbols lines = Outline.symbols lines') ∧
      (symbolsJson (documentSymbols (Outline.symbols lines)) =
          symbolsJson (documentSymbols (Outline.symbols lines')) →
        Outline.symbols lines = Outline.symbols lines') ∧
      ((Fold.all lines).map foldJson = (Fold.all lines').map foldJson →
        Fold.all lines = Fold.all lines') := by
  refine ⟨?_, fun t => accepted_of_occurs, symbols_eq_of_converted, ?_, ?_⟩
  · rw [documentSymbols, Tree.mapForest_mapForest]
    rfl
  · intro h
    exact symbols_eq_of_converted (symbolsJson_inj _ _ h)
  · exact fun h => foldJson_injective.list_map h

/-- A proc with a subproc that has no body, and a statement. -/
def withStatement (statement : String) : List Line :=
  ["proc p;", "begin", "subproc s; external;", statement, "end;"].map String.toList

/-- Documents that differ in a statement only are converted alike, and so they have the same outline. -/
theorem conversion_lossless_statement :
    documentSymbols (Outline.symbols (withStatement "x;")) =
        documentSymbols (Outline.symbols (withStatement "y;")) ∧
      Outline.symbols (withStatement "x;") = Outline.symbols (withStatement "y;") := by
  have hnodes : Tree.preorderForest 0 (documentSymbols (Outline.symbols (withStatement "x;"))) =
      Tree.preorderForest 0 (documentSymbols (Outline.symbols (withStatement "y;"))) := by
    decide +kernel
  have hsent := Tree.preorderForest_inj hnodes
  exact ⟨hsent, (conversion_lossless _ _).2.2.1 hsent⟩

end Editor

end TalOutline
