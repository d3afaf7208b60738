import TalOutline.Outline.Symbols

/-!
How far procs and subprocs reach. Reading makes progress and stays within the document, so the
routines found lie one after the other, and the search goes on where a routine has ended.
-/
namespace TalOutline

/--
Parts that lie one after the other between two lines, none of them empty. A part begins on its
start and ends before its next line.
-/
def InOrder {α : Type} (start next : α → Nat) (low high : Nat) : List α → Prop
  | [] => low ≤ high
  | a :: rest => low ≤ start a ∧ start a < next a ∧ InOrder start next (next a) high rest

namespace InOrder

variable {α : Type} {start next : α → Nat} {low high : Nat}

theorem of_le {l : List α} {lower : Nat} (hl : lower ≤ low) (h : InOrder start next low high l) :
    InOrder start next lower high l := by
  cases l with
  | nil => exact Nat.le_trans hl h
  | cons a rest => exact ⟨Nat.le_trans hl h.1, h.2⟩

theorem le {l : List α} (h : InOrder start next low high l) : low ≤ high := by
  induction l generalizing low with
  | nil => exact h
  | cons a rest ih =>
    obtain ⟨hs, hn, hr⟩ := h
    have hle := ih hr
    omega

theorem bounds_of_mem {l : List α} (h : InOrder start next low high l) {a : α} (ha : a ∈ l) :
    low ≤ start a ∧ start a < next a ∧ next a ≤ high := by
  induction l generalizing low with
  | nil => cases ha
  | cons b rest ih =>
    obtain ⟨hs, hn, hr⟩ := h
    rcases List.mem_cons.1 ha with rfl | hm
    · exact ⟨hs, hn, hr.le⟩
    · obtain ⟨hl, hlt, hh⟩ := ih hr hm
      exact ⟨by omega, hlt, hh⟩

theorem pairwise {l : List α} (h : InOrder start next low high l) :
    l.Pairwise fun a b => next a ≤ start b := by
  induction l generalizing low with
  | nil => exact .nil
  | cons a rest ih =>
    obtain ⟨-, -, hr⟩ := h
    exact .cons (fun b hb => (hr.bounds_of_mem hb).1) (ih hr)

end InOrder

section Drop

variable {α : Type} {l rest : List α} {n : Nat} {a : α}

theorem getElem?_of_drop (h : l.drop n = a :: rest) : l[n]? = some a := by
  rw [← List.head?_drop, h, List.head?_cons]

theorem drop_succ_of_drop (h : l.drop n = a :: rest) : l.drop (n + 1) = rest := by
  rw [← List.tail_drop, h, List.tail_cons]

end Drop

/-- A line declares at most one sort of routine. -/
theorem Facts.declares?_subproc_of_proc {f : Facts} {name : List Char}
    (h : f.declares? .proc = some name) : f.declares? .subproc = none := by
  unfold Facts.declares? at h ⊢
  cases hd : f.declared with
  | none => rfl
  | some d =>
    rw [hd] at h
    cases hr : d.routine with
    | proc => simp [hr]
    | subproc => simp [hr] at h

namespace Body

@[simp] theorem next_visit (lines : List Nat) (b : Body) : (b.visit lines).next = b.next := rfl

@[simp] theorem next_stop (ending : Ending) (n : Nat) : (stop ending n).next = n + 1 := rfl

end Body

namespace Proc

theorem next_readBody_le (skip depth n : Nat) (lines : List Facts) :
    (readBody skip depth n lines).1.next ≤ n + lines.length := by
  induction lines generalizing skip depth n with
  | nil => cases skip <;> exact Nat.le_refl n
  | cons f rest ih =>
    rw [List.length_cons]
    cases skip with
    | succ k =>
      have h := ih k depth (n + 1)
      rw [readBody]
      omega
    | zero =>
      rw [readBody]
      split
      · simp only [Body.next_stop]
        omega
      · split
        · have h := ih ((Body.read 0 n (f :: rest)).next - (n + 1)) depth (n + 1)
          simp only [Body.next_visit]
          omega
        · split
          · simp only [Body.next_stop]
            omega
          · have h := ih 0 (f.depthAfter depth) (n + 1)
            simp only [Body.next_visit]
            omega

theorem readBody_inOrder (skip depth n : Nat) (lines : List Facts) (h : skip ≤ lines.length) :
    InOrder Subproc.start (·.body.next) (n + skip) (readBody skip depth n lines).1.next
      (readBody skip depth n lines).2 := by
  induction lines generalizing skip depth n with
  | nil =>
    obtain rfl : skip = 0 := by simpa using h
    exact Nat.le_refl n
  | cons f rest ih =>
    cases skip with
    | succ k =>
      have hk := ih k depth (n + 1) (by simpa using h)
      rw [readBody]
      exact hk.of_le (by omega)
    | zero =>
      rw [readBody]
      split
      · exact Nat.le_succ n
      · split
        · -- The skip over the subproc's lines ends exactly where its body does.
          have hlt := Body.lt_next_read 0 n f rest
          have hle := Body.next_read_le 0 n (f :: rest)
          rw [List.length_cons] at hle
          have hr := ih ((Body.read 0 n (f :: rest)).next - (n + 1)) depth (n + 1) (by omega)
          exact ⟨Nat.le_refl n, hlt, hr.of_le (Nat.le_of_eq (Nat.add_sub_cancel' hlt).symm)⟩
        · split
          · exact Nat.le_succ n
          · exact (ih 0 (f.depthAfter depth) (n + 1) (Nat.zero_le _)).of_le (Nat.le_succ n)

/-- A body that comes to an end within the document ends on a line after all its subprocs. -/
theorem readBody_inOrder_of_ended (skip depth n : Nat) (lines : List Facts)
    (h : skip ≤ lines.length) (hend : (readBody skip depth n lines).1.ending ≠ .unfinished) :
    InOrder Subproc.start (·.body.next) (n + skip) ((readBody skip depth n lines).1.next - 1)
      (readBody skip depth n lines).2 := by
  induction lines generalizing skip depth n with
  | nil =>
    obtain rfl : skip = 0 := by simpa using h
    exact absurd rfl hend
  | cons f rest ih =>
    cases skip with
    | succ k =>
      have hk := ih k depth (n + 1) (by simpa using h) hend
      rw [readBody]
      exact hk.of_le (by omega)
    | zero =>
      revert hend
      rw [readBody]
      split
      · exact fun _ => Nat.le_refl n
      · split
        · intro hend
          have hlt := Body.lt_next_read 0 n f rest
          have hle := Body.next_read_le 0 n (f :: rest)
          rw [List.length_cons] at hle
          have hr := ih ((Body.read 0 n (f :: rest)).next - (n + 1)) depth (n + 1) (by omega) hend
          exact ⟨Nat.le_refl n, hlt, hr.of_le (Nat.le_of_eq (Nat.add_sub_cancel' hlt).symm)⟩
        · split
          · exact fun _ => Nat.le_refl n
          · intro hend
            exact (ih 0 (f.depthAfter depth) (n + 1) (Nat.zero_le _) hend).of_le (Nat.le_succ n)

/-- Every subproc found has been read from its declaration line on. -/
theorem subproc_of_readBody {lines found : List Facts} {skip depth n : Nat} {s : Subproc}
    (hl : lines.drop n = found) (hs : s ∈ (readBody skip depth n found).2) :
    ∃ f rest name, lines.drop s.start = f :: rest ∧ f.declares? .subproc = some name ∧
      s = ⟨.ofList name, s.start, .read 0 s.start (f :: rest)⟩ := by
  induction found generalizing skip depth n with
  | nil => cases skip <;> cases hs
  | cons f rest ih =>
    have hrest : lines.drop (n + 1) = rest := drop_succ_of_drop hl
    cases skip with
    | succ k =>
      rw [readBody] at hs
      exact ih hrest hs
    | zero =>
      rw [readBody] at hs
      split at hs
      · cases hs
      · split at hs
        · next name hname =>
          rcases List.mem_cons.1 hs with rfl | hs
          · exact ⟨f, rest, name, hl, hname, rfl⟩
          · exact ih hrest hs
        · split at hs
          · cases hs
          · exact ih hrest hs

theorem read_inOrder (name : String) (n : Nat) {f : Facts} (rest : List Facts)
    (hf : f.declares? .subproc = none) :
    InOrder Subproc.start (·.body.next) (n + 1) (read name n (f :: rest)).body.next
      (read name n (f :: rest)).subprocs := by
  simp only [read]
  rw [readBody]
  split
  · exact Nat.le_refl (n + 1)
  · simp only [hf]
    split
    · exact Nat.le_refl (n + 1)
    · exact readBody_inOrder 0 (f.depthAfter 0) (n + 1) rest (Nat.zero_le _)

theorem next_read_le (name : String) (n : Nat) (lines : List Facts) :
    (read name n lines).body.next ≤ n + lines.length :=
  next_readBody_le 0 0 n lines

/-- What of a body that has been read goes into the outline. -/
def gist (found : Body × List Subproc) : Ending × Nat × List Item :=
  (found.1.ending, found.1.next, found.2.map Subproc.item)

/-- A line that neither ends a body nor declares a subproc only moves the block depth. -/
theorem gist_readBody_pass {depth n : Nat} {f : Facts} (rest : List Facts)
    (hlinkage : f.linkageAt depth = none) (hnone : f.declares? .subproc = none)
    (hcloses : f.closes depth = false) :
    gist (readBody 0 depth n (f :: rest)) = gist (readBody 0 (f.depthAfter depth) (n + 1) rest) := by
  rw [readBody]
  simp only [hlinkage, hnone, hcloses]
  rfl

theorem first_tree (p : Proc) : p.tree.label.first = p.start := by
  unfold tree
  split <;> rfl

theorem last_tree_lt {p : Proc} (h : p.start < p.body.next) :
    p.tree.label.last < p.body.next := by
  unfold tree
  split <;> simp only [Tree.leaf, Tree.label] <;> omega

/-- The entries below a proc that has a body. -/
def entries (p : Proc) : List Item :=
  p.subprocs.map Subproc.item ++ p.mainItem?.toList

theorem mainItem?_eq_some_iff {p : Proc} {item : Item} :
    p.mainItem? = some item ↔ ∃ s, p.subprocs.getLast? = some s ∧ s.last + 1 < p.body.next ∧
      item = ⟨"main: " ++ p.name, .main, none, s.last + 1, p.body.next - 1⟩ := by
  unfold mainItem?
  cases p.subprocs.getLast? with
  | none => simp
  | some s =>
    by_cases h : s.last + 1 < p.body.next
    · simp [h, eq_comm]
    · simp [h]

theorem mem_entries {p : Proc} {item : Item} :
    item ∈ p.entries ↔ (∃ s ∈ p.subprocs, item = s.item) ∨ p.mainItem? = some item := by
  simp [entries, eq_comm]

/-- Among the entries below a proc, those of subprocs are the subprocs read, in their order. -/
theorem filter_entries (p : Proc) (lines : List Line) :
    (p.entries.map (Item.measure lines)).filter (·.kind = .subproc) =
      p.subprocs.map fun s => s.item.measure lines := by
  have hsubs : (p.subprocs.map fun s => s.item.measure lines).filter (·.kind = .subproc) =
      p.subprocs.map fun s => s.item.measure lines := by
    rw [List.filter_eq_self]
    intro t ht
    obtain ⟨s, -, rfl⟩ := List.mem_map.1 ht
    rfl
  have hmain : (p.mainItem?.toList.map (Item.measure lines)).filter (·.kind = .subproc) = [] := by
    rw [List.filter_eq_nil_iff]
    intro t ht
    obtain ⟨i, hi, rfl⟩ := List.mem_map.1 ht
    obtain ⟨s, -, -, rfl⟩ := mainItem?_eq_some_iff.1 (Option.mem_toList.1 hi)
    simp [Item.measure]
  rw [entries, List.map_append, List.map_map, List.filter_append, hmain, List.append_nil]
  exact hsubs

theorem label_children_tree {p : Proc} (lines : List Line) (hp : p.tree.label.detail = none) :
    (p.tree.map (Item.measure lines)).children.map Tree.label =
      p.entries.map (Item.measure lines) := by
  rw [Tree.children_map, List.map_map]
  unfold tree at hp ⊢
  split at hp
  · cases hp
  · simp only [Tree.children, entries, List.map_map]
    rfl

end Proc

namespace Survey

/-- The procs that the search finds from a line of the document on. -/
def procsFrom (lines : List Facts) (n : Nat) : List Proc :=
  (readFrom 0 n (lines.drop n)).procs

theorem procsFrom_other {lines rest : List Facts} {n : Nat} {f : Facts}
    (hn : lines.drop n = f :: rest) (hf : f.declares? .proc = none) :
    procsFrom lines n = procsFrom lines (n + 1) := by
  unfold procsFrom
  rw [drop_succ_of_drop hn, hn, readFrom]
  simp only [hf]

/-- Where a line declares a proc, the search reads it and goes on at the line after its body. -/
theorem procsFrom_proc {lines rest : List Facts} {n : Nat} {f : Facts} {name : List Char}
    (hn : lines.drop n = f :: rest) (hf : f.declares? .proc = some name) :
    procsFrom lines n =
      Proc.read (.ofList name) n (f :: rest) ::
        procsFrom lines (Proc.read (.ofList name) n (f :: rest)).body.next := by
  have hrest : rest = lines.drop (n + 1) := (drop_succ_of_drop hn).symm
  have hdrop (m : Nat) (hm : n + 1 ≤ m) : rest.drop (m - (n + 1)) = lines.drop m := by
    rw [hrest, List.drop_drop, Nat.add_sub_cancel' hm]
  have hlt := (Proc.read_inOrder (.ofList name) n rest (Facts.declares?_subproc_of_proc hf)).le
  have hle := Proc.next_read_le (.ofList name) n (f :: rest)
  rw [List.length_cons] at hle
  unfold procsFrom
  rw [hn, readFrom]
  simp only [hf]
  rw [readFrom_skip _ _ _ (by omega), Nat.add_sub_cancel' hlt, hdrop _ hlt]

/--
Induction along the search. A step passes over a line that declares no proc, or reads a proc and
goes on after it, inside the document.
-/
theorem procsFrom_induction (lines : List Facts) {motive : Nat → List Proc → Prop}
    (done : ∀ n, lines.length ≤ n → motive n [])
    (other : ∀ n f rest, lines.drop n = f :: rest → f.declares? .proc = none →
      n < lines.length → motive (n + 1) (procsFrom lines (n + 1)) →
      motive n (procsFrom lines (n + 1)))
    (proc : ∀ n f rest name, lines.drop n = f :: rest → f.declares? .proc = some name →
      ∀ p, p = Proc.read (.ofList name) n (f :: rest) → n < p.body.next →
        p.body.next ≤ lines.length → motive p.body.next (procsFrom lines p.body.next) →
        motive n (p :: procsFrom lines p.body.next))
    (n : Nat) : motive n (procsFrom lines n) := by
  -- Reading a proc takes more than one line, so plain induction on the lines left is not enough.
  induction hlen : lines.length - n using Nat.strongRecOn generalizing n with
  | _ len ih =>
    cases hn : lines.drop n with
    | nil =>
      simp only [procsFrom, hn, readFrom]
      exact done n (List.drop_eq_nil_iff.1 hn)
    | cons f rest =>
      have hlength := congrArg List.length hn
      simp only [List.length_drop, List.length_cons] at hlength
      cases hd : f.declares? .proc with
      | none =>
        rw [procsFrom_other hn hd]
        exact other n f rest hn hd (by omega) (ih _ (by omega) (n + 1) rfl)
      | some name =>
        have hlt := (Proc.read_inOrder (.ofList name) n rest
          (Facts.declares?_subproc_of_proc hd)).le
        have hle := Proc.next_read_le (.ofList name) n (f :: rest)
        rw [List.length_cons] at hle
        rw [procsFrom_proc hn hd]
        exact proc n f rest name hn hd _ rfl hlt (by omega) (ih _ (by omega) _ rfl)

theorem procsFrom_inOrder (lines : List Facts) (n : Nat) (h : n ≤ lines.length) :
    InOrder Proc.start (·.body.next) n lines.length (procsFrom lines n) := by
  revert h
  refine procsFrom_induction lines (motive := fun n found => n ≤ lines.length →
    InOrder Proc.start (·.body.next) n lines.length found) ?_ ?_ ?_ n
  · exact fun n _ h => h
  · exact fun n _ _ _ _ hn ih _ => (ih hn).of_le (Nat.le_succ n)
  · rintro n f rest name hn hf p rfl hlt hle ih -
    exact ⟨Nat.le_refl n, hlt, ih hle⟩

/--
Every proc found has been read from its declaration line on, and the procs after it are those
found from the line after its body on.
-/
theorem procsFrom_split {lines : List Facts} {n : Nat} {before after : List Proc} {p : Proc}
    (h : procsFrom lines n = before ++ p :: after) :
    ∃ f rest name, lines.drop p.start = f :: rest ∧ f.declares? .proc = some name ∧
      p = Proc.read (.ofList name) p.start (f :: rest) ∧
      after = procsFrom lines p.body.next := by
  revert before
  refine procsFrom_induction lines (motive := fun _ found => ∀ {before},
    found = before ++ p :: after → ∃ f rest name, lines.drop p.start = f :: rest ∧
      f.declares? .proc = some name ∧ p = Proc.read (.ofList name) p.start (f :: rest) ∧
      after = procsFrom lines p.body.next) ?_ ?_ ?_ n
  · exact fun _ _ before h => by simp at h
  · exact fun _ _ _ _ _ _ ih _ h => ih h
  · intro n f rest name hn hf q hq hlt hle ih before h
    cases before with
    | nil =>
      obtain ⟨rfl, ha⟩ := List.cons.inj h
      subst hq
      exact ⟨f, rest, name, hn, hf, rfl, ha.symm⟩
    | cons r before => exact ih (List.cons.inj h).2

theorem procs_ofLines (lines : List Line) :
    (ofLines lines).procs = procsFrom (lines.map Facts.ofLine) 0 := rfl

theorem ofLines_inOrder (lines : List Line) :
    InOrder Proc.start (·.body.next) 0 lines.length (ofLines lines).procs := by
  have h := procsFrom_inOrder (lines.map Facts.ofLine) 0 (Nat.zero_le _)
  rwa [List.length_map] at h

theorem read_of_mem {lines : List Line} {p : Proc} (hp : p ∈ (ofLines lines).procs) :
    ∃ f rest name, (lines.map Facts.ofLine).drop p.start = f :: rest ∧
      f.declares? .proc = some name ∧ p = Proc.read (.ofList name) p.start (f :: rest) := by
  obtain ⟨before, after, h⟩ := List.append_of_mem hp
  rw [procs_ofLines] at h
  obtain ⟨f, rest, name, hn, hf, hread, -⟩ := procsFrom_split h
  exact ⟨f, rest, name, hn, hf, hread⟩

theorem subprocs_inOrder {lines : List Line} {p : Proc} (hp : p ∈ (ofLines lines).procs) :
    InOrder Subproc.start (·.body.next) (p.start + 1) p.body.next p.subprocs := by
  obtain ⟨f, rest, name, -, hf, hread⟩ := read_of_mem hp
  rw [hread]
  exact Proc.read_inOrder _ _ rest (Facts.declares?_subproc_of_proc hf)

theorem next_subproc_lt {lines : List Line} {p : Proc} (hp : p ∈ (ofLines lines).procs)
    (hend : p.body.ending ≠ .unfinished) {s : Subproc} (hs : s ∈ p.subprocs) :
    s.body.next < p.body.next := by
  obtain ⟨f, rest, name, -, -, hread⟩ := read_of_mem hp
  rw [hread] at hend hs ⊢
  have ho := Proc.readBody_inOrder_of_ended 0 0 p.start (f :: rest) (Nat.zero_le _) hend
  have hlt : s.start < s.body.next := (ho.bounds_of_mem hs).2.1
  have hle : s.body.next ≤ (Proc.read (.ofList name) p.start (f :: rest)).body.next - 1 :=
    (ho.bounds_of_mem hs).2.2
  omega

end Survey

end TalOutline
