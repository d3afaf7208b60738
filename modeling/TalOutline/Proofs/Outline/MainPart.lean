import TalOutline.Proofs.Outline.Headings
import TalOutline.Proofs.Outline.Locality

/-!
The main part of a proc and the lines of its subprocs. The main part begins after the entry of the last
subproc, while the search has gone on after the lines that the subproc takes. The two differ just where
the last subproc has no body and its linkage stands on a later line than its declaration: then the main
part begins with lines that belong to the subproc.
-/
namespace TalOutline

/-- Reading the subproc takes the line. -/
def Subproc.Takes (s : Subproc) (n : Nat) : Prop :=
  s.start ≤ n ∧ n < s.body.next

/-- The subproc has no body, and the linkage that tells so stands below the line of its declaration. -/
def Subproc.DeclaredLater (s : Subproc) : Prop :=
  s.detail ≠ none ∧ s.start + 1 < s.body.next

theorem Subproc.last_of_body {s : Subproc} (h : s.detail = none) : s.last = s.body.next - 1 := by
  unfold last
  unfold detail at h
  cases hending : s.body.ending with
  | bodyless linkage => simp [hending] at h
  | closed => rfl
  | unfinished => rfl

theorem Subproc.last_of_detail {s : Subproc} (h : s.detail ≠ none) : s.last = s.start := by
  unfold last
  unfold detail at h
  cases hending : s.body.ending with
  | bodyless linkage => rfl
  | closed => simp [hending] at h
  | unfinished => simp [hending] at h

namespace Proc

variable {p : Proc} {s : Subproc} {n : Nat}

theorem takes_iff_of_last
    (ho : InOrder Subproc.start (·.body.next) (p.start + 1) p.body.next p.subprocs)
    (hs : p.subprocs.getLast? = some s) (hn : s.last < n) :
    (∃ u ∈ p.subprocs, u.Takes n) ↔ n < s.body.next := by
  obtain ⟨init, hinit⟩ := List.getLast?_eq_some_iff.1 hs
  have hmem : s ∈ p.subprocs := List.mem_of_getLast? hs
  have hstart : s.start ≤ s.last := (Subproc.last_bounds (ho.bounds_of_mem hmem).2.1).1
  have hpairs := ho.pairwise
  rw [hinit] at hpairs
  constructor
  · intro h
    obtain ⟨u, hu, htakes⟩ := h
    rw [hinit] at hu
    rcases List.mem_append.1 hu with hu | hu
    · have hbefore : u.body.next ≤ s.start :=
        (List.pairwise_append.1 hpairs).2.2 u hu s List.mem_cons_self
      have hlt : n < u.body.next := htakes.2
      omega
    · rw [List.mem_singleton.1 hu] at htakes
      exact htakes.2
  · intro h
    exact ⟨s, hmem, by omega, h⟩

/-- The entry of the last subproc ends with the lines it takes, unless it is declared later. -/
theorem next_le_iff_of_last (hlt : s.start < s.body.next) :
    s.body.next ≤ s.last + 1 ↔ ¬ s.DeclaredLater := by
  unfold Subproc.DeclaredLater
  by_cases hdetail : s.detail = none
  · rw [Subproc.last_of_body hdetail]
    simp only [hdetail, ne_eq, not_true_eq_false, false_and, not_false_eq_true, iff_true]
    omega
  · rw [Subproc.last_of_detail hdetail]
    simp only [ne_eq, hdetail, not_false_eq_true, true_and]
    omega

end Proc

namespace Outline

variable {lines : List Line} {t c : Tree Symbol}

/-- Only a proc with a body has an entry for its main part, right behind that of its last subproc. -/
theorem exists_proc_of_main (ht : t ∈ symbols lines) (hc : c ∈ t.children)
    (hkind : c.label.kind = .main) :
    ∃ p ∈ (Survey.ofLines lines).procs, t = p.tree.map (Item.measure lines) ∧
      ∃ s, p.subprocs.getLast? = some s ∧ s.last + 1 < p.body.next ∧
        c.label.range = .spanning lines (s.last + 1) (p.body.next - 1) := by
  by_cases hprocs : (Survey.ofLines lines).procs = []
  · -- Sections have pages below them, and pages have nothing.
    rw [symbols_of_no_procs hprocs] at ht
    obtain ⟨u, hu, rfl⟩ := List.mem_map.1 ht
    rw [Tree.children_map] at hc
    obtain ⟨v, hv, rfl⟩ := List.mem_map.1 hc
    rw [Tree.label_map] at hkind
    have hpage : Heading.IsPage v := by
      obtain ⟨pages, sections, -, htrees, hpages, hsections, -⟩ := Heading.trees_tile lines
      rw [htrees] at hu
      rcases List.mem_append.1 hu with hu | hu
      · rw [(hpages u hu).2.2] at hv
        cases hv
      · exact (hsections u hu).page v hv
    cases hpage.1.symm.trans hkind
  · rw [symbols, items_of_procs hprocs, Tree.mapForest_eq, List.map_map] at ht
    obtain ⟨p, hp, rfl⟩ := List.mem_map.1 ht
    refine ⟨p, hp, rfl, ?_⟩
    rw [Function.comp_apply, Tree.children_map, Proc.children_tree, List.map_map] at hc
    obtain ⟨item, hitem, rfl⟩ := List.mem_map.1 hc
    rcases Proc.mem_entries.1 (Proc.mem_entries_of_below hitem) with ⟨u, -, rfl⟩ | hmain
    · cases hkind
    · obtain ⟨s, hs, hlast, rfl⟩ := Proc.mainItem?_eq_some_iff.1 hmain
      exact ⟨s, hs, hlast, rfl⟩

theorem mem_symbols_of_below {p : Proc} (hp : p ∈ (Survey.ofLines lines).procs) {item : Item}
    (hitem : item ∈ p.below) :
    p.tree.map (Item.measure lines) ∈ symbols lines ∧
      .leaf (item.measure lines) ∈ (p.tree.map (Item.measure lines)).children := by
  constructor
  · rw [symbols, items_of_procs (List.ne_nil_of_mem hp), Tree.mapForest_eq, List.map_map]
    exact List.mem_map_of_mem hp
  · rw [Tree.children_map, Proc.children_tree, List.map_map]
    exact List.mem_map.2 ⟨item, hitem, rfl⟩

/--
A line of the main part of a proc is taken by a subproc just if the last subproc has no body and the line
comes before the one where the search goes on after it. So the main part is free of such lines, and
begins where the search goes on, just if the last subproc is not declared later.
-/
theorem mainPart_taken_iff (ht : t ∈ symbols lines) (hc : c ∈ t.children)
    (hkind : c.label.kind = .main) :
    ∃ p ∈ (Survey.ofLines lines).procs, t = p.tree.map (Item.measure lines) ∧
      ∃ s, p.subprocs.getLast? = some s ∧
        (∀ n, c.label.range.containsLine n = true →
          ((∃ u ∈ p.subprocs, u.Takes n) ↔ s.detail ≠ none ∧ n < s.body.next)) ∧
        ((∀ n, c.label.range.containsLine n = true → ∀ u ∈ p.subprocs, ¬ u.Takes n) ↔
          ¬ s.DeclaredLater) ∧
        (s.body.next ≤ c.label.range.start.line ↔ ¬ s.DeclaredLater) := by
  obtain ⟨p, hp, htree, s, hs, hlast, hrange⟩ := exists_proc_of_main ht hc hkind
  have ho := Survey.subprocs_inOrder hp
  have hlt : s.start < s.body.next := (ho.bounds_of_mem (List.mem_of_getLast? hs)).2.1
  have hlater := Proc.next_le_iff_of_last hlt
  have hcontains (n : Nat) : c.label.range.containsLine n = true ↔
      s.last + 1 ≤ n ∧ n ≤ p.body.next - 1 := by
    rw [hrange, Range.containsLine, Bool.and_eq_true, decide_eq_true_eq, decide_eq_true_eq]
    rfl
  refine ⟨p, hp, htree, s, hs, ?_, ?_, ?_⟩
  · intro n hn
    have hbelow : s.last < n := ((hcontains n).1 hn).1
    rw [Proc.takes_iff_of_last ho hs hbelow]
    constructor
    · intro hnext
      refine ⟨?_, hnext⟩
      intro hdetail
      rw [Subproc.last_of_body hdetail] at hbelow
      omega
    · exact fun h => h.2
  · rw [← hlater]
    constructor
    · -- The first line of the main part is one of its lines.
      intro hfree
      have hfirst : c.label.range.containsLine (s.last + 1) = true :=
        (hcontains _).2 ⟨Nat.le_refl _, by omega⟩
      apply Nat.le_of_not_lt
      intro hnext
      obtain ⟨u, hu, htakes⟩ := (Proc.takes_iff_of_last ho hs (Nat.lt_succ_self s.last)).2 hnext
      exact hfree _ hfirst u hu htakes
    · intro hnext n hn u hu htakes
      have hbelow : s.last < n := ((hcontains n).1 hn).1
      have htaken := (Proc.takes_iff_of_last ho hs hbelow).1 ⟨u, hu, htakes⟩
      omega
  · rw [hrange]
    exact hlater

def externalLater : List Line :=
  ["proc p;", "subproc a;", "begin", "end;", "begin", "subproc b;", "int x;", "external;", "x;",
    "end;"].map String.toList

theorem mainPart_taken_iff_externalLater :
    ∃ p ∈ (Survey.ofLines externalLater).procs,
      p.tree.map (Item.measure externalLater) ∈ symbols externalLater ∧
      .leaf ((Item.mk "main: p" .main none 6 9).measure externalLater) ∈
        (p.tree.map (Item.measure externalLater)).children ∧
      (∃ s ∈ p.subprocs, s.DeclaredLater) ∧
      ∀ n, 6 ≤ n → n ≤ 9 → ((∃ u ∈ p.subprocs, u.Takes n) ↔ n < 8) := by
  have hprocs : (Survey.ofLines externalLater).procs =
      [Proc.read "p" 0 (externalLater.map Facts.ofLine)] := by decide +kernel
  have hitem : Item.mk "main: p" .main none 6 9 ∈
      (Proc.read "p" 0 (externalLater.map Facts.ofLine)).below := by decide +kernel
  have hlast : (Proc.read "p" 0 (externalLater.map Facts.ofLine)).subprocs.getLast?.map
      (fun s => (s.detail, s.start, s.body.next)) = some (some .external, 5, 8) := by decide +kernel
  have hp : Proc.read "p" 0 (externalLater.map Facts.ofLine) ∈ (Survey.ofLines externalLater).procs := by
    rw [hprocs]
    exact List.mem_cons_self
  obtain ⟨ht, hc⟩ := mem_symbols_of_below hp hitem
  obtain ⟨q, hq, -, s, hs, htaken, -, -⟩ := mainPart_taken_iff ht hc rfl
  rw [hprocs] at hq
  obtain rfl := List.mem_singleton.1 hq
  rw [hs] at hlast
  obtain ⟨hdetail, hstart, hnext⟩ : s.detail = some .external ∧ s.start = 5 ∧ s.body.next = 8 := by
    simpa using hlast
  refine ⟨_, hp, ht, hc, ⟨s, List.mem_of_getLast? hs, ?_, by omega⟩, ?_⟩
  · rw [hdetail]
    exact Option.some_ne_none _
  · intro n hlow hhigh
    have hn : ((Item.mk "main: p" .main none 6 9).measure externalLater).range.containsLine n = true := by
      rw [Range.containsLine, Bool.and_eq_true, decide_eq_true_eq, decide_eq_true_eq]
      exact ⟨hlow, hhigh⟩
    rw [htaken n hn, hdetail, hnext]
    simp

def forwardLater : List Line :=
  ["proc p;", "begin", "subproc s;", "forward;", "end;"].map String.toList

/-- The line with the linkage is in the main part, although the subproc has taken it. -/
theorem not_mainPart_free :
    ¬ ∀ (lines : List Line), ∀ p ∈ (Survey.ofLines lines).procs,
      ∀ c ∈ (p.tree.map (Item.measure lines)).children, c.label.kind = .main →
        ∀ n, c.label.range.containsLine n = true → ∀ s ∈ p.subprocs, ¬ s.Takes n := by
  intro h
  have hp : Proc.read "p" 0 (forwardLater.map Facts.ofLine) ∈ (Survey.ofLines forwardLater).procs := by
    decide +kernel
  have hitem : Item.mk "main: p" .main none 3 4 ∈
      (Proc.read "p" 0 (forwardLater.map Facts.ofLine)).below := by decide +kernel
  have hs : Subproc.mk "s" 2 ⟨.bodyless .forward, 4, [2, 3]⟩ ∈
      (Proc.read "p" 0 (forwardLater.map Facts.ofLine)).subprocs := by decide +kernel
  have hc := (mem_symbols_of_below hp hitem).2
  have htakes : Subproc.Takes ⟨"s", 2, ⟨.bodyless .forward, 4, [2, 3]⟩⟩ 3 := ⟨by decide, by decide⟩
  exact h _ _ hp _ hc rfl 3 rfl _ hs htakes

end Outline

end TalOutline
