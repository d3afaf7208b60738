import TalOutline.Proofs.Outline.Nodes
import TalOutline.Proofs.Outline.Visits
import TalOutline.Proofs.Scanner.Polling

/-!
When a scan is cancelled. It stops exactly if it asks once more after the moment of cancelling, which
depends on the lines that it reads again. Otherwise it gives its whole result.
-/
namespace TalOutline

namespace CancelPoint

theorem guard_eq_cancelled_iff {α : Type} {point : CancelPoint} {visits : List Nat} {result : α} :
    point.guard visits result = .error .cancelled ↔ point.stops visits = true := by
  unfold guard
  split
  · next h => simp [h]
  · next h => simp [h]

/-- A scan gives all or nothing, and all if there is no moment of cancelling. -/
theorem guard_cases {α : Type} (point : CancelPoint) (visits : List Nat) (result : α) :
    point.guard visits result = .ok result ∨
      point ≠ .never ∧ point.guard visits result = .error .cancelled := by
  unfold guard
  split
  · next hstops =>
    refine .inr ⟨?_, rfl⟩
    rintro rfl
    cases hstops
  · exact .inl rfl

variable {count : Nat} {again visits : List Nat}

theorem stops_atLine_iff (h : Reads 0 count again visits) (k : Int) :
    (atLine k).stops visits = true ↔ 0 < count ∧ (k < count - 1 ∨ ∃ n ∈ again, k = n) := by
  by_cases hcount : 0 < count
  · unfold atLine
    split
    · next hneg =>
      have hstops : already.stops visits = true := by simp [stops, h.ne_nil hcount]
      have hk : k < count - 1 := by omega
      simp [hstops, hcount, hk]
    · next hnonneg =>
      have hbefore : k.toNat + 1 < count ↔ k < count - 1 := by omega
      have hagain : k.toNat ∈ again ↔ ∃ n ∈ again, k = n := by
        constructor
        · exact fun hmem => ⟨k.toNat, hmem, by omega⟩
        · rintro ⟨n, hn, rfl⟩
          exact hn
      rw [stops, List.contains_iff_mem, h.mem_dropLast_iff hcount, hbefore, hagain]
      simp [hcount]
  · have hnil : visits = [] := by
      refine List.getLast?_eq_none_iff.1 (Option.eq_none_iff_forall_not_mem.2 fun n hn => ?_)
      have hadd := h.last n hn
      omega
    have hstops : (atLine k).stops visits = false := by
      rw [hnil]
      cases atLine k <;> rfl
    simp [hstops, hcount]

end CancelPoint

namespace Fold

theorem reads_scanFrom (opened : List OpenToggle) (run : Option CommentRun) (stack : List Nat)
    (n : Nat) (lines : List Line) :
    Reads n (n + lines.length) [] (scanFrom opened run stack n lines).visits := by
  induction lines generalizing opened run stack n with
  | nil => exact .nil n
  | cons line rest ih =>
    have hlen : n + (line :: rest).length = n + 1 + rest.length := by
      rw [List.length_cons]
      omega
    rw [hlen]
    exact (Reads.single n).append (ih _ _ _ (n + 1))

theorem reads_scan (lines : List Line) : Reads 0 lines.length [] (scan lines).visits := by
  have h := reads_scanFrom [] none [] 0 lines
  rwa [Nat.zero_add] at h

theorem scanUntil_cases (point : CancelPoint) (lines : List Line) :
    scanUntil point lines = .ok (all lines) ∨
      point ≠ .never ∧ scanUntil point lines = .error .cancelled := by
  rw [scanUntil_eq_guard]
  exact point.guard_cases (scan lines).visits (all lines)

end Fold

namespace Outline

theorem scanUntil_cases (point : CancelPoint) (lines : List Line) :
    scanUntil point lines = .ok (symbols lines) ∨
      point ≠ .never ∧ scanUntil point lines = .error .cancelled := by
  rw [scanUntil_eq_guard]
  exact point.guard_cases (visits lines) (symbols lines)

variable {lines : List Line}

/-- A subproc declared on the last line keeps its proc from ending without a body. -/
theorem item_mem_below {p : Proc} (hp : p ∈ (Survey.ofLines lines).procs) {s : Subproc}
    (hs : s ∈ p.subprocs) (hlast : s.start + 1 = lines.length) : s.item ∈ p.below := by
  have hbody : ∀ linkage, p.body.ending ≠ .bodyless linkage := by
    intro linkage hend
    -- Such a proc ends at a line of its own, which comes after all its subprocs.
    have hlt : s.start < s.body.next := ((Survey.subprocs_inOrder hp).bounds_of_mem hs).2.1
    have hnext : s.body.next < p.body.next := Survey.next_subproc_lt hp (by rw [hend]; nofun) hs
    have hle : p.body.next ≤ lines.length := ((Survey.ofLines_inOrder lines).bounds_of_mem hp).2.2
    omega
  unfold Proc.below
  split
  · next linkage hend => exact absurd hend (hbody linkage)
  · exact Proc.mem_entries.2 (.inl ⟨s, hs, rfl⟩)

/-- On the last line, a declaration is read again exactly if its entry is in the outline. -/
theorem mem_declarations_iff (hprocs : (Survey.ofLines lines).procs ≠ []) {n : Nat}
    (hn : n + 1 = lines.length) :
    n ∈ (Survey.ofLines lines).procs.flatMap Proc.declarations ↔
      ∃ e ∈ nodes lines, (e.2.kind = .proc ∨ e.2.kind = .subproc) ∧ e.2.range.start.line = n := by
  constructor
  · intro hmem
    obtain ⟨p, hp, hdeclared⟩ := List.mem_flatMap.1 hmem
    rcases List.mem_cons.1 hdeclared with rfl | hsub
    · exact ⟨_, (mem_nodes_of_procs hprocs).2 ⟨p, hp, .inl rfl⟩, .inl p.kind_tree, p.first_tree⟩
    · obtain ⟨s, hs, rfl⟩ := List.mem_map.1 hsub
      have hbelow := item_mem_below hp hs hn
      exact ⟨_, (mem_nodes_of_procs hprocs).2 ⟨p, hp, .inr ⟨_, hbelow, rfl⟩⟩, .inr rfl, rfl⟩
  · rintro ⟨e, he, hkind, rfl⟩
    obtain ⟨p, hp, rfl | ⟨item, hitem, rfl⟩⟩ := (mem_nodes_of_procs hprocs).1 he
    · exact List.mem_flatMap.2 ⟨p, hp, List.mem_cons.2 (.inl p.first_tree)⟩
    · rcases Proc.mem_entries.1 (Proc.mem_entries_of_below hitem) with ⟨s, hs, rfl⟩ | hmain
      · refine List.mem_flatMap.2 ⟨p, hp, List.mem_cons_of_mem _ ?_⟩
        exact List.mem_map.2 ⟨s, hs, rfl⟩
      · obtain ⟨s, -, -, rfl⟩ := Proc.mainItem?_eq_some_iff.1 hmain
        exact absurd hkind (by simp [Item.measure])

theorem lt_of_mem_reread {n : Nat} (hn : n ∈ reread lines) : n < lines.length := by
  unfold reread at hn
  split at hn
  · exact List.mem_range.1 hn
  · obtain ⟨p, hp, hdeclared⟩ := List.mem_flatMap.1 hn
    have hproc := (Survey.ofLines_inOrder lines).bounds_of_mem hp
    rcases List.mem_cons.1 hdeclared with rfl | hsub
    · exact Nat.lt_of_lt_of_le hproc.2.1 hproc.2.2
    · obtain ⟨s, hs, rfl⟩ := List.mem_map.1 hsub
      have hlt : s.start < s.body.next := ((Survey.subprocs_inOrder hp).bounds_of_mem hs).2.1
      have hle : s.body.next ≤ p.body.next := ((Survey.subprocs_inOrder hp).bounds_of_mem hs).2.2
      have hnext : p.body.next ≤ lines.length := hproc.2.2
      omega

/-- The outline has no proc, or a proc or subproc in it is declared on the last line. -/
def RereadsLast (lines : List Line) : Prop :=
  (∀ e ∈ nodes lines, e.2.kind ≠ .proc) ∨
    ∃ e ∈ nodes lines, (e.2.kind = .proc ∨ e.2.kind = .subproc) ∧
      e.2.range.start.line = lines.length - 1

theorem mem_reread_iff {n : Nat} (hn : n + 1 = lines.length) :
    n ∈ reread lines ↔ RereadsLast lines := by
  by_cases hprocs : (Survey.ofLines lines).procs = []
  · have hnone : ∀ e ∈ nodes lines, e.2.kind ≠ .proc := by
      intro e he hkind
      rcases kind_of_no_procs hprocs he with h | h <;> rw [h] at hkind <;> cases hkind
    have hmem : n ∈ reread lines := by
      unfold reread
      rw [hprocs]
      exact List.mem_range.2 (by omega)
    exact ⟨fun _ => .inl hnone, fun _ => hmem⟩
  · have hsome : ¬ ∀ e ∈ nodes lines, e.2.kind ≠ .proc := by
      intro hnone
      obtain ⟨p, hp⟩ := List.exists_mem_of_ne_nil _ hprocs
      exact hnone _ ((mem_nodes_of_procs hprocs).2 ⟨p, hp, .inl rfl⟩) p.kind_tree
    have hlast : lines.length - 1 = n := by omega
    have hreread : reread lines = (Survey.ofLines lines).procs.flatMap Proc.declarations := by
      unfold reread
      simp [hprocs]
    rw [hreread, mem_declarations_iff hprocs hn, RereadsLast, hlast]
    exact (or_iff_right hsome).symm

/-- Lines read again lie in the document, so only the last one makes a difference. -/
theorem exists_reread_iff {k : Int} (hpos : 0 < lines.length) :
    (k < lines.length - 1 ∨ ∃ n ∈ reread lines, k = n) ↔
      k < lines.length - 1 ∨ k = lines.length - 1 ∧ RereadsLast lines := by
  constructor
  · rintro (hk | ⟨n, hn, rfl⟩)
    · exact .inl hk
    · have hlt := lt_of_mem_reread hn
      by_cases hlast : n + 1 = lines.length
      · exact .inr ⟨by omega, (mem_reread_iff hlast).1 hn⟩
      · exact .inl (by omega)
  · rintro (hk | ⟨hk, hlast⟩)
    · exact .inl hk
    · have hn : lines.length - 1 + 1 = lines.length := by omega
      exact .inr ⟨lines.length - 1, (mem_reread_iff hn).2 hlast, by omega⟩

end Outline

/--
A scan is cancelled exactly if it asks after the moment of cancelling: before the last line, or on it
when the outline reads it again. Otherwise, and always without such a moment, its whole result comes.
-/
theorem scanUntil_eq_cancelled_iff (lines : List Line) (k : Int) :
    (Fold.scanUntil (.atLine k) lines = .error .cancelled ↔
      0 < lines.length ∧ k < lines.length - 1) ∧
    (Fold.scanUntil (.atLine k) lines ≠ .error .cancelled →
      Fold.scanUntil (.atLine k) lines = .ok (Fold.all lines)) ∧
    (Outline.scanUntil (.atLine k) lines = .error .cancelled ↔
      0 < lines.length ∧
        (k < lines.length - 1 ∨ k = lines.length - 1 ∧ Outline.RereadsLast lines)) ∧
    (Outline.scanUntil (.atLine k) lines ≠ .error .cancelled →
      Outline.scanUntil (.atLine k) lines = .ok (Outline.symbols lines)) ∧
    Fold.scanUntil .never lines = .ok (Fold.all lines) ∧
    Outline.scanUntil .never lines = .ok (Outline.symbols lines) := by
  refine ⟨?_, fun h => (Fold.scanUntil_cases _ lines).resolve_right fun hc => h hc.2, ?_,
    fun h => (Outline.scanUntil_cases _ lines).resolve_right fun hc => h hc.2,
    Fold.scanUntil_eq_guard .never lines, Outline.scanUntil_eq_guard .never lines⟩
  · have hstops := CancelPoint.stops_atLine_iff (Fold.reads_scan lines) k
    rw [Fold.scanUntil_eq_guard, CancelPoint.guard_eq_cancelled_iff, hstops]
    simp
  · have hstops := CancelPoint.stops_atLine_iff (Outline.reads_visits lines) k
    rw [Outline.scanUntil_eq_guard, CancelPoint.guard_eq_cancelled_iff, hstops]
    exact and_congr_right Outline.exists_reread_iff

end TalOutline
