import Mathlib.Data.List.Basic
import Mathlib.Data.List.TakeWhile

/-!
Texts split at a mark, and at the end of a run. A text has one piece more than marks: it is its only
piece, or its first piece and, behind a mark, a text split likewise. Marks that open and close in turn
make every other piece different, which the parity of its index tells. A run of entries with a property
ends where an entry without it follows, or nothing does.
-/
namespace TalOutline.Text

variable {α : Type}

/-- To show something of every text, go from the last of its pieces to the first. -/
theorem split_induction [DecidableEq α] {motive : List α → Prop} (mark : α)
    (last : ∀ piece, mark ∉ piece → motive piece)
    (step : ∀ piece rest, mark ∉ piece → motive rest → motive (piece ++ mark :: rest))
    (text : List α) : motive text := by
  induction hlength : text.length using Nat.strongRecOn generalizing text with
  | _ n ih =>
    by_cases hmark : mark ∈ text
    · obtain ⟨piece, rest, rfl, hpiece⟩ := List.eq_append_cons_of_mem hmark
      refine step piece rest hpiece (ih rest.length ?_ rest rfl)
      rw [← hlength, List.length_append, List.length_cons]
      omega
    · exact last text hmark

/-- Splitting from the end, one entry after another, comes to splitting at the mark. -/
theorem eq_splitOn_of_cons [DecidableEq α] {mark : α} {split : List α → List (List α)}
    (hnil : split [] = [[]]) (hmark : ∀ rest, split (mark :: rest) = [] :: split rest)
    (hother : ∀ a rest piece pieces, a ≠ mark → split rest = piece :: pieces →
      split (a :: rest) = (a :: piece) :: pieces) (text : List α) :
    split text = text.splitOn mark := by
  induction text with
  | nil => rw [hnil, List.splitOn_nil]
  | cons a rest ih =>
    rw [List.splitOn_cons_eq_if_modifyHead]
    by_cases ha : a = mark
    · rw [if_pos (beq_iff_eq.2 ha), ha, hmark, ih]
    · rw [if_neg (fun h => ha (beq_iff_eq.1 h))]
      obtain ⟨piece, pieces, hrest⟩ := List.exists_cons_of_ne_nil (List.splitOn_ne_nil mark rest)
      rw [hrest, List.modifyHead_cons]
      exact hother a rest piece pieces ha (ih.trans hrest)

theorem count_append_mark [DecidableEq α] {mark : α} {piece : List α} (h : mark ∉ piece)
    (rest : List α) : (piece ++ mark :: rest).count mark = rest.count mark + 1 := by
  rw [List.count_append, List.count_eq_zero.2 h, List.count_cons_self, Nat.zero_add]

theorem length_splitOn [DecidableEq α] (mark : α) (text : List α) :
    (text.splitOn mark).length = text.count mark + 1 := by
  induction text using split_induction mark with
  | last piece hpiece =>
    rw [List.splitOn_eq_singleton hpiece, List.count_eq_zero.2 hpiece]
    rfl
  | step piece rest hpiece ih =>
    rw [List.splitOn_append_cons_self_of_not_mem hpiece, List.length_cons, ih,
      count_append_mark hpiece]

/-- The entries of a list whose index has the parity of the given number. -/
def sameParity (n : Nat) (entries : List α) : List α :=
  (entries.zipIdx.filter fun e => e.2 % 2 == n % 2).map Prod.fst

theorem sameParity_congr {m n : Nat} (h : m % 2 = n % 2) (entries : List α) :
    sameParity m entries = sameParity n entries := by
  unfold sameParity
  rw [h]

theorem sameParity_cons (n : Nat) (a : α) (entries : List α) :
    sameParity n (a :: entries) =
      (if n % 2 = 0 then [a] else []) ++ sameParity (n + 1) entries := by
  have hshift : (fun e : α × Nat => (e.2 + 1) % 2 == n % 2) =
      fun e => e.2 % 2 == (n + 1) % 2 := by
    funext e
    rw [Bool.eq_iff_iff, beq_iff_eq, beq_iff_eq]
    omega
  have htail : ((entries.zipIdx 1).filter fun e => e.2 % 2 == n % 2).map Prod.fst =
      sameParity (n + 1) entries := by
    unfold sameParity
    rw [List.zipIdx_succ, List.filter_map, List.map_map, ← hshift]
    rfl
  unfold sameParity at htail ⊢
  rw [List.zipIdx_cons, List.filter_cons, Nat.zero_add]
  by_cases hn : n % 2 = 0
  · rw [if_pos (by simp [hn]), if_pos hn, List.map_cons, htail]
    rfl
  · rw [if_neg (by simp [Ne.symm hn]), if_neg hn, htail]
    rfl

section Run

variable {p : α → Bool} {run run' rest rest' : List α}

theorem takeWhile_run (hrun : ∀ a ∈ run, p a = true) (hstop : rest.head?.any p = false) :
    (run ++ rest).takeWhile p = run := by
  rw [List.takeWhile_append_of_pos hrun]
  cases rest with
  | nil => simp
  | cons a rest =>
    have ha : p a = false := hstop
    simp [ha]

theorem dropWhile_run (hrun : ∀ a ∈ run, p a = true) (hstop : rest.head?.any p = false) :
    (run ++ rest).dropWhile p = rest := by
  rw [List.dropWhile_append_of_pos hrun]
  cases rest with
  | nil => rfl
  | cons a rest =>
    have ha : p a = false := hstop
    simp [ha]

theorem any_head?_dropWhile (p : α → Bool) (text : List α) :
    (text.dropWhile p).head?.any p = false := by
  have hnot := List.head?_dropWhile_not p text
  cases hhead : (text.dropWhile p).head? with
  | none => rfl
  | some a =>
    rw [hhead] at hnot
    simpa using hnot

/-- A text begins with one run of a property, which may be empty, and in one way only. -/
theorem eq_of_run_append (hrun : ∀ a ∈ run, p a = true) (hstop : rest.head?.any p = false)
    (hrun' : ∀ a ∈ run', p a = true) (hstop' : rest'.head?.any p = false)
    (h : run ++ rest = run' ++ rest') : run = run' ∧ rest = rest' := by
  have htake := takeWhile_run hrun hstop
  have hdrop := dropWhile_run hrun hstop
  rw [h, takeWhile_run hrun' hstop'] at htake
  rw [h, dropWhile_run hrun' hstop'] at hdrop
  exact ⟨htake.symm, hdrop.symm⟩

theorem exists_run (p : α → Bool) (text : List α) :
    ∃ run rest, text = run ++ rest ∧ (∀ a ∈ run, p a = true) ∧ rest.head?.any p = false :=
  ⟨text.takeWhile p, text.dropWhile p, List.takeWhile_append_dropWhile.symm,
    fun _ ha => List.mem_takeWhile_imp ha, any_head?_dropWhile p text⟩

end Run

/-- The last mark of a text tells what is before it and what is behind it. -/
theorem eq_of_last_mark [DecidableEq α] {mark : α} {before before' behind behind' : List α}
    (hbehind : mark ∉ behind) (hbehind' : mark ∉ behind')
    (h : before ++ mark :: behind = before' ++ mark :: behind') :
    before = before' ∧ behind = behind' := by
  have hrun {text : List α} (htext : mark ∉ text) : ∀ a ∈ text.reverse, (a != mark) = true := by
    intro a ha
    rw [bne_iff_ne]
    intro hmark
    rw [hmark, List.mem_reverse] at ha
    exact htext ha
  have hstop (text : List α) : (mark :: text.reverse).head?.any (· != mark) = false := by simp
  have hreverse : behind.reverse ++ mark :: before.reverse =
      behind'.reverse ++ mark :: before'.reverse := by
    simpa using congrArg List.reverse h
  obtain ⟨hbehinds, hbefores⟩ := eq_of_run_append (hrun hbehind) (hstop before) (hrun hbehind')
    (hstop before') hreverse
  exact ⟨List.reverse_inj.1 (List.cons.inj hbefores).2, List.reverse_inj.1 hbehinds⟩

end TalOutline.Text
