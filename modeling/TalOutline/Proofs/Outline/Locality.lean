import TalOutline.Proofs.Outline.Nodes
import TalOutline.Proofs.Outline.Wellformed

/-!
The procs of a document that is put together from two parts. If the end of the first part leaves no
proc open, its procs are found as in that part alone, and those of the second part are found as in
the second part alone, but for their line numbers.
-/
namespace TalOutline

namespace Body

/-- The same body, some lines further down. -/
def shift (k : Nat) (b : Body) : Body :=
  ⟨b.ending, b.next + k, b.visits.map (· + k)⟩

theorem shift_stop (k : Nat) (ending : Ending) (n : Nat) :
    (stop ending n).shift k = stop ending (n + k) := by
  simp only [stop, shift, List.map_cons, List.map_nil, Nat.add_right_comm n 1 k]

theorem shift_visit (k : Nat) (lines : List Nat) (b : Body) :
    (b.visit lines).shift k = (b.shift k).visit (lines.map (· + k)) := by
  simp only [visit, shift, List.map_append]

theorem read_shift (k depth n : Nat) (lines : List Facts) :
    read depth (n + k) lines = (read depth n lines).shift k := by
  induction lines generalizing depth n with
  | nil => rfl
  | cons f rest ih =>
    have hrest := ih (f.depthAfter depth) (n + 1)
    rw [Nat.add_right_comm] at hrest
    rw [read, read]
    split
    · exact (shift_stop k _ n).symm
    · split
      · exact (shift_stop k _ n).symm
      · rw [hrest, shift_visit]
        rfl

theorem next_of_unfinished {depth n : Nat} {lines : List Facts}
    (h : (read depth n lines).ending = .unfinished) :
    (read depth n lines).next = n + lines.length := by
  induction lines generalizing depth n with
  | nil => rfl
  | cons f rest ih =>
    revert h
    rw [read]
    split
    · intro h
      cases h
    · split
      · intro h
        cases h
      · intro h
        have hrest := ih h
        rw [next_visit, hrest, List.length_cons]
        omega

/-- A body that has come to its end does not depend on the lines after it. -/
theorem read_append {depth n : Nat} {lines : List Facts} (more : List Facts)
    (h : (read depth n lines).ending ≠ .unfinished) :
    read depth n (lines ++ more) = read depth n lines := by
  induction lines generalizing depth n with
  | nil => exact absurd rfl h
  | cons f rest ih =>
    revert h
    rw [List.cons_append, read, read]
    split
    · exact fun _ => rfl
    · split
      · exact fun _ => rfl
      · intro h
        rw [ih h]

end Body

/-- The same subproc, some lines further down. -/
def Subproc.shift (k : Nat) (s : Subproc) : Subproc :=
  ⟨s.name, s.start + k, s.body.shift k⟩

/-- The same entry, some lines further down. -/
def Item.shift (k : Nat) (item : Item) : Item :=
  { item with first := item.first + k, last := item.last + k }

theorem Subproc.item_shift {k : Nat} {s : Subproc} (h : s.start < s.body.next) :
    (s.shift k).item = s.item.shift k := by
  have hnext : s.body.next + k - 1 = s.body.next - 1 + k := by omega
  cases he : s.body.ending <;>
    simp [item, detail, last, Item.shift, shift, Body.shift, he, hnext]

namespace Proc

/-- The same proc, some lines further down. -/
def shift (k : Nat) (p : Proc) : Proc :=
  ⟨p.name, p.start + k, p.body.shift k, p.subprocs.map (Subproc.shift k)⟩

theorem readBody_shift (k skip depth n : Nat) (lines : List Facts) :
    readBody skip depth (n + k) lines =
      ((readBody skip depth n lines).1.shift k,
        (readBody skip depth n lines).2.map (Subproc.shift k)) := by
  induction lines generalizing skip depth n with
  | nil => cases skip <;> rfl
  | cons f rest ih =>
    have hrest (skip depth : Nat) := ih skip depth (n + 1)
    simp only [Nat.add_right_comm n 1 k] at hrest
    cases skip with
    | succ j => exact hrest j depth
    | zero =>
      rw [readBody, readBody]
      split
      · rw [Body.shift_stop, List.map_nil]
      · split
        · have hskip : (Body.read 0 (n + k) (f :: rest)).next - (n + k + 1) =
              (Body.read 0 n (f :: rest)).next - (n + 1) := by
            rw [Body.read_shift, Body.shift]
            dsimp only
            omega
          dsimp only
          rw [hskip, hrest, Body.shift_visit, Body.read_shift]
          rfl
        · split
          · rw [Body.shift_stop, List.map_nil]
          · dsimp only
            rw [hrest, Body.shift_visit]
            rfl

theorem read_shift (name : String) (k n : Nat) (lines : List Facts) :
    read name (n + k) lines = (read name n lines).shift k := by
  simp only [read, readBody_shift, shift]

theorem ending_of_length_le {skip : Nat} (depth n : Nat) {lines : List Facts}
    (h : lines.length ≤ skip) : (readBody skip depth n lines).1.ending = .unfinished := by
  induction lines generalizing skip n with
  | nil => cases skip <;> rfl
  | cons f rest ih =>
    rw [List.length_cons] at h
    cases skip with
    | zero => omega
    | succ k => exact ih (n + 1) (by omega)

/-- A body that has come to its end does not depend on the lines after it, nor do its subprocs. -/
theorem readBody_append {skip depth n : Nat} {lines : List Facts} (more : List Facts)
    (h : (readBody skip depth n lines).1.ending ≠ .unfinished) :
    readBody skip depth n (lines ++ more) = readBody skip depth n lines := by
  induction lines generalizing skip depth n with
  | nil => cases skip <;> exact absurd rfl h
  | cons f rest ih =>
    cases skip with
    | succ k => exact ih h
    | zero =>
      revert h
      rw [List.cons_append, readBody, readBody]
      split
      · exact fun _ => rfl
      · split
        · intro h
          -- A subproc left open would have taken all lines, and the proc would be open too.
          have hsub : (Body.read 0 n (f :: rest)).ending ≠ .unfinished := by
            intro hopen
            have hnext := Body.next_of_unfinished hopen
            rw [List.length_cons] at hnext
            exact h (ending_of_length_le depth (n + 1) (by dsimp only; omega))
          have hread : Body.read 0 n (f :: (rest ++ more)) = Body.read 0 n (f :: rest) :=
            Body.read_append more hsub
          dsimp only at h ⊢
          rw [hread, ih h]
        · split
          · exact fun _ => rfl
          · intro h
            dsimp only at h ⊢
            rw [ih h]

/-- The entry of a proc, with something else made of each item in it. -/
theorem map_tree {α : Type} (f : Item → α) (p : Proc) :
    p.tree.map f = .node (f p.tree.label) (p.below.map fun item => .leaf (f item)) := by
  have hnode : p.tree = .node p.tree.label (p.below.map .leaf) := by
    rw [← children_tree]
    cases p.tree
    rfl
  rw [hnode, Tree.map, Tree.mapForest_eq, List.map_map]
  rfl

theorem label_shift {k : Nat} {p : Proc} (h : p.start < p.body.next) :
    (p.shift k).tree.label = p.tree.label.shift k := by
  have hnext : p.body.next + k - 1 = p.body.next - 1 + k := by omega
  cases he : p.body.ending <;>
    simp [tree, shift, Body.shift, Item.shift, Tree.leaf, Tree.label, he, hnext]

theorem mainItem?_shift {k : Nat} {p : Proc} (h : p.start < p.body.next)
    (hsubs : ∀ s ∈ p.subprocs, s.start < s.body.next) :
    (p.shift k).mainItem? = p.mainItem?.map (Item.shift k) := by
  unfold mainItem?
  simp only [shift, List.getLast?_map]
  cases hlast : p.subprocs.getLast? with
  | none => rfl
  | some s =>
    have hs : s.start < s.body.next := hsubs s (List.mem_of_getLast? hlast)
    have hlast : (s.shift k).last = s.last + k := congrArg Item.last (Subproc.item_shift hs)
    have hiff : (s.shift k).last + 1 < (p.body.shift k).next ↔ s.last + 1 < p.body.next := by
      rw [hlast, Body.shift]
      dsimp only
      omega
    have hfirst : s.last + k + 1 = s.last + 1 + k := by omega
    have hnext : p.body.next + k - 1 = p.body.next - 1 + k := by omega
    simp only [Option.map_some, hiff]
    split
    · simp [Item.shift, Body.shift, hlast, hfirst, hnext]
    · rfl

theorem below_shift {k : Nat} {p : Proc} (h : p.start < p.body.next)
    (hsubs : ∀ s ∈ p.subprocs, s.start < s.body.next) :
    (p.shift k).below = p.below.map (Item.shift k) := by
  have hentries : (p.shift k).entries = p.entries.map (Item.shift k) := by
    have hitems : (p.subprocs.map (Subproc.shift k)).map Subproc.item =
        (p.subprocs.map Subproc.item).map (Item.shift k) := by
      rw [List.map_map, List.map_map]
      exact List.map_congr_left fun s hs => Subproc.item_shift (hsubs s hs)
    rw [entries, entries, List.map_append, mainItem?_shift h hsubs, ← hitems]
    cases p.mainItem? <;> rfl
  have hending : (p.shift k).body.ending = p.body.ending := rfl
  unfold below
  rw [hending]
  cases p.body.ending with
  | bodyless linkage => rfl
  | closed => exact hentries
  | unfinished => exact hentries

end Proc

namespace Survey

/-- The same procs and reads, some lines further down. -/
def shift (k : Nat) (s : Survey) : Survey :=
  ⟨s.procs.map (Proc.shift k), s.visits.map (· + k)⟩

/-- What one part of a document brings and then what the next one does. -/
def append (s t : Survey) : Survey :=
  ⟨s.procs ++ t.procs, s.visits ++ t.visits⟩

theorem readFrom_shift (k skip n : Nat) (lines : List Facts) :
    readFrom skip (n + k) lines = (readFrom skip n lines).shift k := by
  induction lines generalizing skip n with
  | nil => cases skip <;> rfl
  | cons f rest ih =>
    have hrest (skip : Nat) := ih skip (n + 1)
    simp only [Nat.add_right_comm n 1 k] at hrest
    cases skip with
    | succ j => exact hrest j
    | zero =>
      rw [readFrom, readFrom]
      split
      · dsimp only
        rw [hrest]
        rfl
      · next name _ =>
        have hskip : (Proc.read (.ofList name) (n + k) (f :: rest)).body.next - (n + k + 1) =
            (Proc.read (.ofList name) n (f :: rest)).body.next - (n + 1) := by
          rw [Proc.read_shift, Proc.shift, Body.shift]
          dsimp only
          omega
        dsimp only
        rw [hskip, hrest, Proc.read_shift]
        simp only [shift, Proc.shift, Body.shift, List.map_cons, List.map_append, List.cons_append]

/-- Where no proc is left open, the search goes on in the next part as if it began there. -/
theorem readFrom_append {skip n : Nat} {lines : List Facts} (more : List Facts)
    (hskip : skip ≤ lines.length)
    (h : ∀ p ∈ (readFrom skip n lines).procs, p.body.ending ≠ .unfinished) :
    readFrom skip n (lines ++ more) =
      (readFrom skip n lines).append (readFrom 0 (n + lines.length) more) := by
  induction lines generalizing skip n with
  | nil =>
    obtain rfl : skip = 0 := by simpa using hskip
    rfl
  | cons f rest ih =>
    have hlength : n + (f :: rest).length = n + 1 + rest.length := by
      rw [List.length_cons]
      omega
    rw [hlength]
    cases skip with
    | succ k => exact ih (by simpa using hskip) h
    | zero =>
      revert h
      rw [List.cons_append, readFrom, readFrom]
      split
      · intro h
        dsimp only at h ⊢
        rw [ih (Nat.zero_le _) h]
        rfl
      · next name _ =>
        intro h
        obtain ⟨hproc, hlater⟩ := List.forall_mem_cons.1 h
        have hread : Proc.read (.ofList name) n (f :: (rest ++ more)) =
            Proc.read (.ofList name) n (f :: rest) := by
          have hbody : Proc.readBody 0 0 n (f :: (rest ++ more)) = Proc.readBody 0 0 n (f :: rest) :=
            Proc.readBody_append more hproc
          rw [Proc.read, hbody, Proc.read]
        have hle := Proc.next_read_le (.ofList name) n (f :: rest)
        rw [hlength] at hle
        dsimp only at hlater ⊢
        rw [hread, ih (by omega) hlater]
        simp only [append, List.cons_append, List.append_assoc]

theorem ofLines_append {first : List Line} (second : List Line)
    (h : ∀ p ∈ (ofLines first).procs, p.body.ending ≠ .unfinished) :
    ofLines (first ++ second) =
      (ofLines first).append ((ofLines second).shift first.length) := by
  have hread := readFrom_append (second.map Facts.ofLine) (Nat.zero_le _) h
  rw [List.length_map, readFrom_shift] at hread
  rw [ofLines, List.map_append]
  exact hread

end Survey

/-- The same range, some lines further down. -/
def Range.shift (k : Nat) (r : Range) : Range :=
  ⟨⟨r.start.line + k, r.start.character⟩, ⟨r.stop.line + k, r.stop.character⟩⟩

/-- The same entry with its ranges, some lines further down. -/
def Symbol.shift (k : Nat) (s : Symbol) : Symbol :=
  { s with range := s.range.shift k, selection := s.selection.shift k }

section Measure

variable {first : List Line} (second : List Line)

theorem widthAt_append_left {n : Nat} (h : n < first.length) :
    widthAt (first ++ second) n = widthAt first n := by
  rw [widthAt, widthAt, List.getElem?_append_left h]

theorem widthAt_append_right (first second : List Line) (n : Nat) :
    widthAt (first ++ second) (n + first.length) = widthAt second n := by
  rw [widthAt, widthAt, List.getElem?_append_right (Nat.le_add_left _ _), Nat.add_sub_cancel]

theorem Item.measure_append_left {item : Item} (hle : item.first ≤ item.last)
    (hlt : item.last < first.length) : item.measure (first ++ second) = item.measure first := by
  have hfirst : item.first < first.length := Nat.lt_of_le_of_lt hle hlt
  simp only [measure, Range.line, Range.spanning, widthAt_append_left second hlt,
    widthAt_append_left second hfirst]

theorem Item.measure_append_right (first second : List Line) (item : Item) :
    (item.shift first.length).measure (first ++ second) =
      (item.measure second).shift first.length := by
  simp only [measure, Item.shift, Symbol.shift, Range.shift, Range.line, Range.spanning,
    widthAt_append_right]

variable {p : Proc}
  (ho : InOrder Subproc.start (·.body.next) (p.start + 1) p.body.next p.subprocs)
include ho

theorem Proc.map_measure_append_left (hn : p.body.next ≤ first.length) :
    p.tree.map (Item.measure (first ++ second)) = p.tree.map (Item.measure first) := by
  have hlt : p.start < p.body.next := ho.le
  have hlabel : p.tree.label.measure (first ++ second) = p.tree.label.measure first := by
    have hlast := last_tree_lt hlt
    have hfirst : p.tree.label.first ≤ p.tree.label.last := by
      unfold tree
      split
      · exact Nat.le_refl _
      · exact Nat.le_sub_one_of_lt hlt
    exact Item.measure_append_left second hfirst (Nat.lt_of_lt_of_le hlast hn)
  rw [map_tree, map_tree, hlabel]
  congr 1
  refine List.map_congr_left fun item hitem => ?_
  obtain ⟨-, hle, hlast⟩ := entries_bounds ho (mem_entries_of_below hitem)
  rw [Item.measure_append_left second hle (Nat.lt_of_lt_of_le hlast hn)]

theorem Proc.map_measure_append_right (first second : List Line) :
    (p.shift first.length).tree.map (Item.measure (first ++ second)) =
      (p.tree.map (Item.measure second)).map (Symbol.shift first.length) := by
  have hlt : p.start < p.body.next := ho.le
  have hsubs : ∀ s ∈ p.subprocs, s.start < s.body.next := fun s hs => (ho.bounds_of_mem hs).2.1
  rw [map_tree, map_tree, label_shift hlt, below_shift hlt hsubs, Tree.map, Tree.mapForest_eq,
    List.map_map, List.map_map, Item.measure_append_right]
  congr 1
  refine List.map_congr_left fun item _ => ?_
  rw [Function.comp_apply, Item.measure_append_right]
  rfl

end Measure

namespace Outline

/-- The entries of the procs alone, with their ranges. -/
def procSymbols (lines : List Line) : List (Tree Symbol) :=
  (Survey.ofLines lines).procs.map fun p => p.tree.map (Item.measure lines)

theorem symbols_of_procs {lines : List Line} (h : procSymbols lines ≠ []) :
    symbols lines = procSymbols lines := by
  have hprocs : (Survey.ofLines lines).procs ≠ [] := by
    intro hnil
    rw [procSymbols, hnil] at h
    exact h rfl
  rw [symbols, items_of_procs hprocs, Tree.mapForest_eq, List.map_map]
  rfl

/--
If no proc of the first part is left open at its end, the procs of the whole are those of the first
part and then those of the second, further down by the length of the first. They make up the outline
if there are any.
-/
theorem procSymbols_append {first : List Line}
    (h : ∀ p ∈ (Survey.ofLines first).procs, p.body.ending ≠ .unfinished) (second : List Line) :
    procSymbols (first ++ second) =
      procSymbols first ++ (procSymbols second).map (Tree.map (Symbol.shift first.length)) ∧
    (procSymbols first ≠ [] ∨ procSymbols second ≠ [] →
      symbols (first ++ second) =
        procSymbols first ++ (procSymbols second).map (Tree.map (Symbol.shift first.length))) := by
  have hprocs : procSymbols (first ++ second) =
      procSymbols first ++ (procSymbols second).map (Tree.map (Symbol.shift first.length)) := by
    simp only [procSymbols, Survey.ofLines_append second h, Survey.append, Survey.shift,
      List.map_append, List.map_map]
    congr 1
    · refine List.map_congr_left fun p hp => ?_
      have hbounds := (Survey.ofLines_inOrder first).bounds_of_mem hp
      exact Proc.map_measure_append_left second (Survey.subprocs_inOrder hp) hbounds.2.2
    · refine List.map_congr_left fun p hp => ?_
      exact Proc.map_measure_append_right (Survey.subprocs_inOrder hp) first second
  refine ⟨hprocs, fun hne => ?_⟩
  have happend : procSymbols (first ++ second) ≠ [] := by
    rw [hprocs]
    intro hnil
    obtain ⟨hfirst, hsecond⟩ := List.append_eq_nil_iff.1 hnil
    exact hne.elim (absurd hfirst) (absurd (List.map_eq_nil_iff.1 hsecond))
  rw [symbols_of_procs happend, hprocs]

/-- A proc that is closed, and one that is only declared elsewhere. -/
def closedPart : List Line :=
  ["proc a;", "begin", "subproc b;", "begin", "end;", "end;", "proc c;", "external;"].map
    String.toList

/-- A proc that is left open. -/
def openPart : List Line :=
  ["int x;", "proc d;", "begin"].map String.toList

theorem procSymbols_append_openPart :
    (∀ p ∈ (Survey.ofLines closedPart).procs, p.body.ending ≠ .unfinished) ∧
    procSymbols openPart ≠ [] ∧
    symbols (closedPart ++ openPart) =
      procSymbols closedPart ++ (procSymbols openPart).map (Tree.map (Symbol.shift 8)) := by
  have hended : ∀ p ∈ (Survey.ofLines closedPart).procs, p.body.ending ≠ .unfinished := by
    decide +kernel
  have hfound : (Survey.ofLines openPart).procs ≠ [] := by decide +kernel
  have hsecond : procSymbols openPart ≠ [] := by
    rw [procSymbols, ne_eq, List.map_eq_nil_iff]
    exact hfound
  exact ⟨hended, hsecond, (procSymbols_append hended openPart).2 (.inr hsecond)⟩

end Outline

end TalOutline
