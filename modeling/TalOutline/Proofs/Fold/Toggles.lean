import TalOutline.Fold.Toggle

/-!
Folds of toggles pair each closing toggle with the latest one it can close that is still open. All
ids share one stack and regions may cross, so what is open is told by the pairs that came before.
-/
namespace TalOutline

/-- Toggles with one id: an `endif` can close an `if` or an `ifnot`, and an `ifnot` only an `if`. -/
def Toggle.CanClose (t earlier : Toggle) : Prop :=
  Text.sameAsciiCase t.id earlier.id ∧
    (t.kind = .endIf ∧ (earlier.kind = .ifSet ∨ earlier.kind = .ifNot) ∨
      t.kind = .ifNot ∧ earlier.kind = .ifSet)

theorem Toggle.CanClose.opens {t earlier : Toggle} (h : t.CanClose earlier) :
    earlier.kind ≠ .endIf := by
  intro hend
  unfold CanClose at h
  simp [hend] at h

theorem Toggle.closes_iff {t earlier : Toggle} (h : earlier.kind ≠ .endIf) :
    t.closes earlier = true ↔ t.CanClose earlier := by
  unfold closes CanClose
  rw [Bool.and_eq_true]
  apply and_congr_right
  intro _
  cases ht : t.kind <;> cases he : earlier.kind <;> simp_all

namespace Fold

def toggleAt (lines : List Line) (n : Nat) : Option Toggle :=
  lines[n]?.bind Toggle.parse?

/-- The toggle on the second line can close a region that the one on the first line opens. -/
def Eligible (lines : List Line) (s c : Nat) : Prop :=
  s < c ∧ ∃ t u, toggleAt lines s = some t ∧ toggleAt lines c = some u ∧ u.CanClose t

def ClosedBefore (pairs : List (Nat × Nat)) (s c : Nat) : Prop :=
  ∃ d < c, (s, d) ∈ pairs

/--
Pairs of an opening and a closing line in the order of the closing lines. Each closing toggle is
paired with the latest line that it can close and that has not been closed before.
-/
structure Pairing (lines : List Line) (pairs : List (Nat × Nat)) : Prop where
  eligible : ∀ p ∈ pairs, Eligible lines p.1 p.2
  distinct : pairs.Pairwise (·.1 ≠ ·.1)
  inOrder : pairs.Pairwise (·.2 < ·.2)
  latest : ∀ p ∈ pairs, ∀ s, p.1 < s → Eligible lines s p.2 → ClosedBefore pairs s p.2
  closes : ∀ s c, Eligible lines s c → ¬ ClosedBefore pairs s c → ∃ r, (r, c) ∈ pairs

section Append

variable {read : List Line} {line : Line} {s c : Nat}

theorem lt_of_toggleAt {t : Toggle} (h : toggleAt read s = some t) : s < read.length := by
  obtain ⟨line, hline, -⟩ := Option.bind_eq_some_iff.1 h
  exact (List.getElem?_eq_some_iff.1 hline).1

theorem toggleAt_append (h : s < read.length) (rest : List Line) :
    toggleAt (read ++ rest) s = toggleAt read s := by
  unfold toggleAt
  rw [List.getElem?_append_left h]

theorem toggleAt_length (read : List Line) (line : Line) (rest : List Line) :
    toggleAt (read ++ line :: rest) read.length = Toggle.parse? line := by
  unfold toggleAt
  simp

theorem Eligible.lt_length (h : Eligible read s c) : c < read.length := by
  obtain ⟨-, t, u, -, hu, -⟩ := h
  exact lt_of_toggleAt hu

theorem eligible_append_iff (hc : c < read.length) :
    Eligible (read ++ [line]) s c ↔ Eligible read s c := by
  unfold Eligible
  apply and_congr_right
  intro hs
  rw [toggleAt_append hc, toggleAt_append (Nat.lt_trans hs hc)]

theorem eligible_last_iff : Eligible (read ++ [line]) s read.length ↔
    ∃ t u, toggleAt read s = some t ∧ Toggle.parse? line = some u ∧ u.CanClose t := by
  unfold Eligible
  rw [toggleAt_length]
  constructor
  · intro h
    obtain ⟨hs, h⟩ := h
    rwa [toggleAt_append hs] at h
  · intro h
    have hs : s < read.length := by
      obtain ⟨t, u, ht, -, -⟩ := h
      exact lt_of_toggleAt ht
    rw [toggleAt_append hs]
    exact ⟨hs, h⟩

end Append

namespace Pairing

variable {read : List Line} {line : Line} {pairs : List (Nat × Nat)} {s : Nat}

theorem lt_length (h : Pairing read pairs) {p : Nat × Nat} (hp : p ∈ pairs) : p.2 < read.length :=
  (h.eligible p hp).lt_length

theorem closedBefore_length (h : Pairing read pairs) :
    ClosedBefore pairs s read.length ↔ ∃ c, (s, c) ∈ pairs := by
  constructor
  · intro hs
    obtain ⟨c, -, hc⟩ := hs
    exact ⟨c, hc⟩
  · intro hs
    obtain ⟨c, hc⟩ := hs
    exact ⟨c, h.lt_length hc, hc⟩

theorem length_notMem (h : Pairing read pairs) (c : Nat) : (read.length, c) ∉ pairs := by
  intro hc
  have hlt := (h.eligible _ hc).1
  have hle := h.lt_length hc
  simp only at hlt hle
  omega

/-- A line that closes nothing finds nothing to close. -/
theorem append_other (h : Pairing read pairs)
    (hnone : ∀ s, Eligible (read ++ [line]) s read.length → ∃ c, (s, c) ∈ pairs) :
    Pairing (read ++ [line]) pairs where
  eligible p hp := (eligible_append_iff (h.lt_length hp)).2 (h.eligible p hp)
  distinct := h.distinct
  inOrder := h.inOrder
  latest := by
    intro p hp s hs heligible
    rw [eligible_append_iff (h.lt_length hp)] at heligible
    exact h.latest p hp s hs heligible
  closes := by
    intro s c heligible hopen
    have hc := heligible.lt_length
    rw [List.length_append, List.length_singleton] at hc
    rcases Nat.lt_succ_iff_lt_or_eq.1 hc with hc | hc
    · exact h.closes s c ((eligible_append_iff hc).1 heligible) hopen
    · subst hc
      exact absurd (h.closedBefore_length.2 (hnone s heligible)) hopen

/-- A line closes the latest of the lines that it can close and that are still open. -/
theorem append_pair (h : Pairing read pairs) (hs : Eligible (read ++ [line]) s read.length)
    (hopen : ∀ c, (s, c) ∉ pairs)
    (hlatest : ∀ r, s < r → Eligible (read ++ [line]) r read.length → ∃ c, (r, c) ∈ pairs) :
    Pairing (read ++ [line]) (pairs ++ [(s, read.length)]) where
  eligible := by
    intro p hp
    rcases List.mem_append.1 hp with hp | hp
    · exact (eligible_append_iff (h.lt_length hp)).2 (h.eligible p hp)
    · rw [List.mem_singleton.1 hp]
      exact hs
  distinct := by
    refine List.pairwise_append.2 ⟨h.distinct, List.pairwise_singleton _ _, ?_⟩
    intro p hp q hq heq
    rw [List.mem_singleton.1 hq] at heq
    apply hopen p.2
    rw [← show p.1 = s from heq]
    exact hp
  inOrder := by
    refine List.pairwise_append.2 ⟨h.inOrder, List.pairwise_singleton _ _, ?_⟩
    intro p hp q hq
    rw [List.mem_singleton.1 hq]
    exact h.lt_length hp
  latest := by
    intro p hp r hr heligible
    rcases List.mem_append.1 hp with hp | hp
    · rw [eligible_append_iff (h.lt_length hp)] at heligible
      obtain ⟨d, hd, hmem⟩ := h.latest p hp r hr heligible
      exact ⟨d, hd, List.mem_append_left _ hmem⟩
    · obtain rfl := List.mem_singleton.1 hp
      obtain ⟨d, hmem⟩ := hlatest r hr heligible
      exact ⟨d, h.lt_length hmem, List.mem_append_left _ hmem⟩
  closes := by
    intro r c heligible hunclosed
    have hc := heligible.lt_length
    rw [List.length_append, List.length_singleton] at hc
    rcases Nat.lt_succ_iff_lt_or_eq.1 hc with hc | hc
    · have hbefore : ¬ ClosedBefore pairs r c := by
        intro hclosed
        obtain ⟨d, hd, hmem⟩ := hclosed
        exact hunclosed ⟨d, hd, List.mem_append_left _ hmem⟩
      obtain ⟨q, hq⟩ := h.closes r c ((eligible_append_iff hc).1 heligible) hbefore
      exact ⟨q, List.mem_append_left _ hq⟩
    · subst hc
      exact ⟨s, List.mem_append_right _ (List.mem_singleton_self _)⟩

end Pairing

/-- The stack holds the toggles that opened a region and are in no pair yet, the latest first. -/
structure Waiting (read : List Line) (opened : List OpenToggle) (pairs : List (Nat × Nat)) :
    Prop where
  sorted : opened.Pairwise (fun e f => f.line < e.line)
  mem_iff : ∀ e, e ∈ opened ↔ toggleAt read e.line = some e.toggle ∧ e.toggle.kind ≠ .endIf ∧
    ∀ c, (e.line, c) ∉ pairs

namespace Waiting

variable {read : List Line} {line : Line} {opened : List OpenToggle} {pairs : List (Nat × Nat)}

/-- A line without an opening toggle leaves the stack as it is. -/
theorem pass (h : Waiting read opened pairs)
    (hline : ∀ t, Toggle.parse? line = some t → t.kind = .endIf) :
    Waiting (read ++ [line]) opened pairs where
  sorted := h.sorted
  mem_iff := by
    intro e
    rw [h.mem_iff]
    constructor
    · intro he
      obtain ⟨ht, hrest⟩ := he
      rw [toggleAt_append (lt_of_toggleAt ht)]
      exact ⟨ht, hrest⟩
    · intro he
      obtain ⟨ht, hkind, hrest⟩ := he
      have hlt := lt_of_toggleAt ht
      rw [List.length_append, List.length_singleton] at hlt
      rcases Nat.lt_succ_iff_lt_or_eq.1 hlt with hlt | heq
      · rw [toggleAt_append hlt] at ht
        exact ⟨ht, hkind, hrest⟩
      · rw [heq, toggleAt_length] at ht
        exact absurd (hline e.toggle ht) hkind

theorem push (h : Waiting read opened pairs) {t : Toggle} (ht : Toggle.parse? line = some t)
    (hkind : t.kind ≠ .endIf) (hnew : ∀ c, (read.length, c) ∉ pairs) :
    Waiting (read ++ [line]) (⟨t, read.length⟩ :: opened) pairs where
  sorted := by
    refine List.pairwise_cons.2 ⟨?_, h.sorted⟩
    intro e he
    exact lt_of_toggleAt ((h.mem_iff e).1 he).1
  mem_iff := by
    intro e
    rw [List.mem_cons, h.mem_iff]
    constructor
    · intro he
      rcases he with rfl | ⟨he, hrest⟩
      · exact ⟨(toggleAt_length read line []).trans ht, hkind, hnew⟩
      · rw [toggleAt_append (lt_of_toggleAt he)]
        exact ⟨he, hrest⟩
    · intro he
      obtain ⟨he, hrest⟩ := he
      have hlt := lt_of_toggleAt he
      rw [List.length_append, List.length_singleton] at hlt
      rcases Nat.lt_succ_iff_lt_or_eq.1 hlt with hlt | heq
      · rw [toggleAt_append hlt] at he
        exact .inr ⟨he, hrest⟩
      · rw [heq, toggleAt_length, ht] at he
        left
        cases e
        simp_all

/-- An entry taken out of the middle of the stack leaves those that are still in no pair. -/
theorem remove {before after : List OpenToggle} {e : OpenToggle}
    (h : Waiting read (before ++ e :: after) pairs) (n : Nat) :
    Waiting read (before ++ after) (pairs ++ [(e.line, n)]) where
  sorted := by
    refine h.sorted.sublist ?_
    exact (List.sublist_cons_self e after).append_left before
  mem_iff := by
    intro f
    have hsorted := List.pairwise_append.1 h.sorted
    have hafter := (List.pairwise_cons.1 hsorted.2.1).1
    have hmem := h.mem_iff f
    -- Lines on the stack are all different, so the pair that is added closes one entry only.
    have hne : f ∈ before ++ after ↔ f ∈ before ++ e :: after ∧ f.line ≠ e.line := by
      constructor
      · intro hf
        rcases List.mem_append.1 hf with hf | hf
        · have hlt := hsorted.2.2 f hf e List.mem_cons_self
          exact ⟨List.mem_append_left _ hf, Nat.ne_of_gt hlt⟩
        · have hlt := hafter f hf
          exact ⟨List.mem_append_right _ (List.mem_cons_of_mem _ hf), Nat.ne_of_lt hlt⟩
      · intro hf
        obtain ⟨hf, hline⟩ := hf
        rcases List.mem_append.1 hf with hf | hf
        · exact List.mem_append_left _ hf
        · rcases List.mem_cons.1 hf with rfl | hf
          · exact absurd rfl hline
          · exact List.mem_append_right _ hf
    rw [hne, hmem]
    simp only [List.mem_append, List.mem_singleton, Prod.mk.injEq, not_or]
    constructor
    · intro hf
      obtain ⟨⟨ht, hkind, hopen⟩, hline⟩ := hf
      exact ⟨ht, hkind, fun c => ⟨hopen c, fun heq => hline heq.1⟩⟩
    · intro hf
      obtain ⟨ht, hkind, hopen⟩ := hf
      exact ⟨⟨ht, hkind, fun c => (hopen c).1⟩, fun heq => (hopen n).2 ⟨heq, rfl⟩⟩

/-- On the stack, a later line stands before an earlier one. -/
theorem mem_before {before after : List OpenToggle} {e f : OpenToggle}
    (h : Waiting read (before ++ e :: after) pairs) (hf : f ∈ before ++ e :: after)
    (hlt : e.line < f.line) : f ∈ before := by
  have hafter := (List.pairwise_cons.1 (List.pairwise_append.1 h.sorted).2.1).1
  rcases List.mem_append.1 hf with hf | hf
  · exact hf
  · rcases List.mem_cons.1 hf with rfl | hf
    · exact absurd hlt (Nat.lt_irrefl _)
    · exact absurd hlt (Nat.lt_asymm (hafter f hf))

/-- A line that can be closed is on the stack or has been closed. -/
theorem mem_or_closed (h : Waiting read opened pairs) {s : Nat} {t u : Toggle}
    (hs : toggleAt read s = some t) (hclose : u.CanClose t) :
    ⟨t, s⟩ ∈ opened ∨ ∃ c, (s, c) ∈ pairs := by
  by_cases hclosed : ∃ c, (s, c) ∈ pairs
  · exact .inr hclosed
  · exact .inl ((h.mem_iff ⟨t, s⟩).2 ⟨hs, hclose.opens, not_exists.1 hclosed⟩)

theorem closes_iff (h : Waiting read opened pairs) {e : OpenToggle} (he : e ∈ opened)
    (u : Toggle) : u.closes e.toggle = true ↔ u.CanClose e.toggle :=
  Toggle.closes_iff ((h.mem_iff e).1 he).2.1

end Waiting

/-- The pair of lines that a line brings to a close. -/
def closing? (opened : List OpenToggle) (n : Nat) (line : Line) : Option (Nat × Nat) :=
  (Toggle.parse? line).bind fun t => (opened.find? (t.closes ·.toggle)).map (·.line, n)

def closings : List OpenToggle → Nat → List Line → List (Nat × Nat)
  | _, _, [] => []
  | opened, n, line :: rest =>
    (closing? opened n line).toList ++ closings (toggleTracker.step opened n line).1 (n + 1) rest

theorem run_toggleTracker (opened : List OpenToggle) (n : Nat) (lines : List Line) :
    toggleTracker.run opened n lines =
      (closings opened n lines).filterMap fun p => upTo? .region p.1 p.2 := by
  induction lines generalizing opened n with
  | nil => rfl
  | cons line rest ih =>
    have hstep : (toggleTracker.step opened n line).2 =
        (closing? opened n line).toList.filterMap fun p => upTo? .region p.1 p.2 := by
      unfold closing?
      simp only [toggleTracker]
      cases Toggle.parse? line with
      | none => rfl
      | some t =>
        simp only [stepToggle, Option.bind_some]
        cases opened.find? (t.closes ·.toggle) with
        | none => rfl
        | some e =>
          simp only [Option.bind_some, Option.map_some, Option.toList_some, List.filterMap_cons]
          cases upTo? .region e.line n <;> rfl
    rw [Tracker.run, closings, List.filterMap_append, ih, hstep]

section Step

variable {read : List Line} {opened : List OpenToggle} {pairs : List (Nat × Nat)}

/-- What a toggle opens is put on the stack after the toggle has closed what it can. -/
theorem Waiting.enter {kept : List OpenToggle} {line : Line} {t : Toggle}
    (h : Waiting read kept pairs) (ht : Toggle.parse? line = some t)
    (hnew : ∀ c, (read.length, c) ∉ pairs) :
    Waiting (read ++ [line]) (if t.kind = .endIf then kept else ⟨t, read.length⟩ :: kept)
      pairs := by
  by_cases hkind : t.kind = .endIf
  · rw [if_pos hkind]
    apply h.pass
    intro u hu
    rw [ht] at hu
    rw [← Option.some.inj hu]
    exact hkind
  · rw [if_neg hkind]
    exact h.push ht hkind hnew

/-- A toggle that finds nothing on the stack leaves the pairs as they are. -/
theorem Pairing.of_forall_not (hp : Pairing read pairs) (hw : Waiting read opened pairs)
    {line : Line} {u : Toggle} (hu : Toggle.parse? line = some u)
    (hnone : ∀ e ∈ opened, ¬ u.closes e.toggle = true) : Pairing (read ++ [line]) pairs := by
  apply hp.append_other
  intro s hs
  obtain ⟨t, v, hs, hv, hclose⟩ := eligible_last_iff.1 hs
  obtain rfl := Option.some.inj (hu.symm.trans hv)
  apply (hw.mem_or_closed hs hclose).resolve_left
  intro hmem
  exact hnone _ hmem ((hw.closes_iff hmem u).2 hclose)

/-- The first entry on the stack that a toggle closes is the latest that it can close. -/
theorem Pairing.of_first (hp : Pairing read pairs) {before after : List OpenToggle}
    {e : OpenToggle} (hw : Waiting read (before ++ e :: after) pairs) {line : Line} {u : Toggle}
    (hu : Toggle.parse? line = some u) (hskip : ∀ f ∈ before, ¬ u.closes f.toggle = true)
    (hclose : u.closes e.toggle = true) :
    Pairing (read ++ [line]) (pairs ++ [(e.line, read.length)]) := by
  have hmem : e ∈ before ++ e :: after := by simp
  have he := (hw.mem_iff e).1 hmem
  have hcan := (hw.closes_iff hmem u).1 hclose
  refine hp.append_pair (eligible_last_iff.2 ⟨e.toggle, u, he.1, hu, hcan⟩) he.2.2 ?_
  intro r hr heligible
  obtain ⟨t, v, ht, hv, hlater⟩ := eligible_last_iff.1 heligible
  obtain rfl := Option.some.inj (hu.symm.trans hv)
  apply (hw.mem_or_closed ht hlater).resolve_left
  intro hopen
  exact hskip _ (hw.mem_before hopen hr) ((hw.closes_iff hopen u).2 hlater)

/-- One line keeps the stack and the pairs in line with what has been read. -/
theorem Waiting.step (hw : Waiting read opened pairs) (hp : Pairing read pairs) (line : Line) :
    Waiting (read ++ [line]) (toggleTracker.step opened read.length line).1
        (pairs ++ (closing? opened read.length line).toList) ∧
      Pairing (read ++ [line]) (pairs ++ (closing? opened read.length line).toList) := by
  unfold closing?
  simp only [toggleTracker]
  cases hu : Toggle.parse? line with
  | none =>
    simp only [Option.bind_none, Option.toList_none, List.append_nil]
    constructor
    · exact hw.pass (by simp [hu])
    · exact hp.append_other (by simp [eligible_last_iff, hu])
  | some u =>
    simp only [Option.bind_some, stepToggle]
    cases hfind : opened.find? (u.closes ·.toggle) with
    | none =>
      have hnone := List.find?_eq_none.1 hfind
      rw [List.eraseP_of_forall_not hnone]
      simp only [Option.map_none, Option.toList_none, List.append_nil]
      exact ⟨hw.enter hu hp.length_notMem, hp.of_forall_not hw hu hnone⟩
    | some e =>
      obtain ⟨hclose, before, after, rfl, hbefore⟩ := List.find?_eq_some_iff_append.1 hfind
      have hskip : ∀ f ∈ before, ¬ u.closes f.toggle = true := by
        intro f hf
        simpa using hbefore f hf
      have hkept : (before ++ e :: after).eraseP (u.closes ·.toggle) = before ++ after := by
        rw [List.eraseP_append_right _ hskip]
        simp [hclose]
      have hline : e.line < read.length :=
        lt_of_toggleAt ((hw.mem_iff e).1 (by simp)).1
      simp only [hkept, Option.map_some, Option.toList_some]
      refine ⟨(hw.remove read.length).enter hu ?_, hp.of_first hw hu hskip hclose⟩
      intro c hc
      rcases List.mem_append.1 hc with hc | hc
      · exact hp.length_notMem c hc
      · rw [List.mem_singleton, Prod.mk.injEq] at hc
        omega

theorem Pairing.closings (hw : Waiting read opened pairs) (hp : Pairing read pairs)
    (rest : List Line) :
    Pairing (read ++ rest) (pairs ++ closings opened read.length rest) := by
  induction rest generalizing read opened pairs with
  | nil =>
    rw [Fold.closings, List.append_nil, List.append_nil]
    exact hp
  | cons line rest ih =>
    have hstep := hw.step hp line
    have hrest := ih hstep.1 hstep.2
    rw [List.length_append, List.length_singleton, List.append_assoc, List.append_assoc] at hrest
    exact hrest

end Step

theorem pairing_closings (lines : List Line) : Pairing lines (closings [] 0 lines) := by
  have hw : Waiting [] [] [] := ⟨.nil, by simp [toggleAt]⟩
  have hp : Pairing [] [] := ⟨by simp, .nil, .nil, by simp, by simp [Eligible, toggleAt]⟩
  exact hp.closings hw lines

/--
The folds of toggles are the paired lines with more than one line between them, each without its
closing line. They come in the order of their last lines, and no two begin on the same line.
-/
theorem toggles_paired (lines : List Line) :
    ∃ pairs : List (Nat × Nat), Pairing lines pairs ∧
      (∀ fold, fold ∈ toggles lines ↔
        fold.kind = .region ∧ fold.first < fold.last ∧ (fold.first, fold.last + 1) ∈ pairs) ∧
      (toggles lines).Pairwise fun fold later =>
        fold.first ≠ later.first ∧ fold.last < later.last := by
  have hp := pairing_closings lines
  have hrun : toggles lines = _ := run_toggleTracker [] 0 lines
  refine ⟨closings [] 0 lines, hp, ?_, ?_⟩
  · intro fold
    rw [hrun, List.mem_filterMap]
    constructor
    · intro h
      obtain ⟨⟨s, c⟩, hmem, hfold⟩ := h
      obtain ⟨hkind, hlt, rfl, rfl⟩ := upTo?_eq_some_iff.1 hfold
      exact ⟨hkind, hlt, hmem⟩
    · intro h
      obtain ⟨hkind, hlt, hmem⟩ := h
      exact ⟨_, hmem, upTo?_eq_some_iff.2 ⟨hkind, hlt, rfl, rfl⟩⟩
  · rw [hrun, List.pairwise_filterMap]
    refine (hp.distinct.and hp.inOrder).imp ?_
    intro p q hpq fold hfold later hlater
    obtain ⟨-, -, hfirst, hlast⟩ := upTo?_eq_some_iff.1 hfold
    obtain ⟨-, -, hfirst', hlast'⟩ := upTo?_eq_some_iff.1 hlater
    have hne := hpq.1
    have hlt := hpq.2
    rw [hfirst, hfirst']
    exact ⟨hne, by omega⟩

end Fold

end TalOutline
