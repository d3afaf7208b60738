import TalOutline.Proofs.Fold.Matching
import TalOutline.Proofs.Fold.Passes

/-!
Folds of blocks are nested or apart. The stack of open `begin` keywords holds their lines in order, so
an `end` closes the latest of them, and what is closed later on was opened no later or not yet. Lines
with several keywords change nothing in this, since a fold ends before the line of its `end`.
-/
namespace TalOutline.Fold

def Apart (f g : Fold) : Prop :=
  f.last < g.first ∨ g.last < f.first

/-- All lines of the first fold belong to the second. -/
def Within (f g : Fold) : Prop :=
  g.first ≤ f.first ∧ f.last ≤ g.last

section Pairs

variable {opened : List Nat} {ts : List (Keyword × Nat)}

/-- Pairs end at a keyword to come, and begin at one or on the stack. -/
theorem origin_of_mem_pairUp {p : Nat × Nat} (h : p ∈ pairUp opened ts) :
    (p.1 ∈ opened ∨ p.1 ∈ ts.map Prod.snd) ∧ p.2 ∈ ts.map Prod.snd := by
  fun_induction pairUp opened ts with
  | case1 opened => cases h
  | case2 opened n rest ih =>
    obtain ⟨hfirst, hlast⟩ := ih h
    rw [List.mem_cons, or_assoc, or_left_comm] at hfirst
    rw [List.map_cons, List.mem_cons, List.mem_cons]
    exact ⟨hfirst, .inr hlast⟩
  | case3 first opened n rest ih =>
    simp only [List.map_cons, List.mem_cons] at h ⊢
    rcases h with rfl | h
    · exact ⟨.inl (.inl rfl), .inl rfl⟩
    · obtain ⟨hfirst, hlast⟩ := ih h
      exact ⟨hfirst.imp .inr .inr, .inr hlast⟩
  | case4 opened t rest hbegin hend ih =>
    obtain ⟨hfirst, hlast⟩ := ih h
    rw [List.map_cons, List.mem_cons, List.mem_cons]
    exact ⟨hfirst.imp_right .inr, .inr hlast⟩

/-- The second pair ends no earlier than the first and begins no later, or after the first's end. -/
def Later (p q : Nat × Nat) : Prop :=
  p.2 ≤ q.2 ∧ (q.1 ≤ p.1 ∨ p.2 ≤ q.1)

theorem pairUp_later (hopened : opened.Pairwise (· ≥ ·)) (hts : (ts.map Prod.snd).Pairwise (· ≤ ·))
    (hle : ∀ a ∈ opened, ∀ n ∈ ts.map Prod.snd, a ≤ n) : (pairUp opened ts).Pairwise Later := by
  -- The stack stays in order and below all lines to come. A pop leaves what is below its top.
  fun_induction pairUp opened ts with
  | case1 opened => exact .nil
  | case2 opened n rest ih =>
    rw [List.map_cons, List.pairwise_cons] at hts
    obtain ⟨hn, hrest⟩ := hts
    have hbelow : ∀ a ∈ opened, a ≤ n := fun a ha => hle a ha n List.mem_cons_self
    refine ih (List.pairwise_cons.2 ⟨hbelow, hopened⟩) hrest ?_
    intro a ha m hm
    rcases List.mem_cons.1 ha with rfl | ha
    · exact hn m hm
    · exact hle a ha m (List.mem_cons_of_mem _ hm)
  | case3 first opened n rest ih =>
    rw [List.map_cons, List.pairwise_cons] at hts
    rw [List.pairwise_cons] at hopened
    obtain ⟨hn, hrest⟩ := hts
    obtain ⟨hfirst, hstack⟩ := hopened
    have hlater : ∀ a ∈ opened, ∀ m ∈ rest.map Prod.snd, a ≤ m := by
      intro a ha m hm
      exact hle a (List.mem_cons_of_mem _ ha) m (List.mem_cons_of_mem _ hm)
    refine List.pairwise_cons.2 ⟨?_, ih hstack hrest hlater⟩
    intro q hq
    obtain ⟨horigin, hlast⟩ := origin_of_mem_pairUp hq
    refine ⟨hn q.2 hlast, ?_⟩
    exact horigin.imp (hfirst q.1) (hn q.1)
  | case4 opened t rest hbegin hend ih =>
    rw [List.map_cons, List.pairwise_cons] at hts
    refine ih hopened hts.2 ?_
    intro a ha m hm
    exact hle a ha m (List.mem_cons_of_mem _ hm)

end Pairs

theorem tokens_pairwise (lines : List Line) : ((tokens lines).map Prod.snd).Pairwise (· ≤ ·) := by
  have hlines : lines.zipIdx.Pairwise (·.2 < ·.2) := by
    have hrange := List.pairwise_lt_range' (s := 0) (n := lines.length)
    rwa [← List.zipIdx_map_snd 0 lines, List.pairwise_map] at hrange
  have hline (entry : Line × Nat) :
      ∀ n ∈ ((blockWords entry.1).map (·, entry.2)).map Prod.snd, n = entry.2 := by
    simp
  unfold tokens
  rw [List.map_flatMap, List.pairwise_flatMap]
  constructor
  · intro entry _
    refine List.pairwise_of_forall_mem_list ?_
    intro n hn m hm
    exact Nat.le_of_eq ((hline entry n hn).trans (hline entry m hm).symm)
  · refine hlines.imp ?_
    intro entry later hlt n hn m hm
    rw [hline entry n hn, hline later m hm]
    exact Nat.le_of_lt hlt

theorem blocks_later (lines : List Line) :
    (blocks lines).Pairwise fun f g => f.last ≤ g.last ∧ (g.first ≤ f.first ∨ f.last < g.first) := by
  have hpairs : (pairUp [] (tokens lines)).Pairwise Later :=
    pairUp_later .nil (tokens_pairwise lines) (by simp)
  have hrun : blocks lines = (pairUp [] (tokens lines)).filterMap ofPair := run_blockTracker [] 0 lines
  rw [hrun, List.pairwise_filterMap]
  refine hpairs.imp ?_
  intro p q hpq f hf g hg
  obtain ⟨-, -, hfirst, hlast⟩ := upTo?_eq_some_iff.1 hf
  obtain ⟨-, -, hfirst', hlast'⟩ := upTo?_eq_some_iff.1 hg
  obtain ⟨hends, hbegins⟩ := hpq
  exact ⟨by omega, by omega⟩

section Places

variable {lines : List Line} {i j : Nat} {f g : Fold}

theorem later_of_lt (hlt : i < j) (hf : (blocks lines)[i]? = some f)
    (hg : (blocks lines)[j]? = some g) :
    f.last ≤ g.last ∧ (g.first ≤ f.first ∨ f.last < g.first) := by
  obtain ⟨hi, rfl⟩ := List.getElem?_eq_some_iff.1 hf
  obtain ⟨hj, rfl⟩ := List.getElem?_eq_some_iff.1 hg
  exact List.pairwise_iff_getElem.1 (blocks_later lines) i j hi hj hlt

theorem apart_or_within (hlt : i < j) (hf : (blocks lines)[i]? = some f)
    (hg : (blocks lines)[j]? = some g) : f.Apart g ∨ f.Within g := by
  obtain ⟨hlast, hfirst | hfirst⟩ := later_of_lt hlt hf hg
  · exact .inr ⟨hfirst, hlast⟩
  · exact .inl (.inl hfirst)

theorem within_of_lt (hlt : j < i) (hf : (blocks lines)[i]? = some f)
    (hg : (blocks lines)[j]? = some g) (hwithin : f.Within g) : g.Within f := by
  obtain ⟨hfirst, hlast⟩ := hwithin
  obtain ⟨hends, hbegins⟩ := later_of_lt hlt hg hf
  have hlines : f.first < f.last := (last_lt_of_region (.inr (List.mem_of_getElem? hf))).1
  exact ⟨by omega, hends⟩

end Places

/--
Two folds of blocks, at different places of the list, have no line in common or one is within the other.
One that is within another and has fewer lines comes first. Folds come in the order of their last lines.
-/
theorem blocks_nested (lines : List Line) :
    (∀ i j : Nat, ∀ f g : Fold, i ≠ j → (blocks lines)[i]? = some f → (blocks lines)[j]? = some g →
      f.Apart g ∨ f.Within g ∨ g.Within f) ∧
    (∀ i j : Nat, ∀ f g : Fold, (blocks lines)[i]? = some f → (blocks lines)[j]? = some g →
      f.Within g → ¬ g.Within f → i < j) ∧
    (blocks lines).Pairwise (·.last ≤ ·.last) := by
  refine ⟨?_, ?_, (blocks_later lines).imp And.left⟩
  · intro i j f g hne hf hg
    rcases Nat.lt_or_gt_of_ne hne with hlt | hgt
    · rcases apart_or_within hlt hf hg with h | h
      · exact .inl h
      · exact .inr (.inl h)
    · rcases apart_or_within hgt hg hf with h | h
      · exact .inl h.symm
      · exact .inr (.inr h)
  · intro i j f g hf hg hwithin hnot
    rcases Nat.lt_trichotomy i j with hlt | rfl | hgt
    · exact hlt
    · rw [hf] at hg
      obtain rfl := Option.some.inj hg
      exact absurd hwithin hnot
    · exact absurd (within_of_lt hgt hf hg hwithin) hnot

example :
    blocks (["begin", "if a then begin", "x;", "end else begin", "y;", "end;", "end;"].map
      String.toList) = [⟨1, 2, .region⟩, ⟨3, 4, .region⟩, ⟨0, 5, .region⟩] := by decide +kernel

end TalOutline.Fold
