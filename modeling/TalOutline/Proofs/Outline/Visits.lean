import TalOutline.Proofs.Outline.Extent

/-!
The lines that are read to find the outline. Every line of the document is read, the last one at the
end. A line is read once more exactly if it declares a routine that is found there, or if there is no
proc and the document is gone through again for directives.
-/
namespace TalOutline

/--
The lines from one up to another have been read, the last of them at the end, each of them once and
some once more.
-/
structure Reads (low high : Nat) (again visits : List Nat) : Prop where
  le : low ≤ high
  perm : visits.Perm (List.range' low (high - low) ++ again)
  last : ∀ n ∈ visits.getLast?, n + 1 = high

namespace Reads

variable {low mid high : Nat} {again more visits later : List Nat}

theorem nil (n : Nat) : Reads n n [] [] :=
  ⟨Nat.le_refl n, by simp, nofun⟩

theorem single (n : Nat) : Reads n (n + 1) [] [n] :=
  ⟨Nat.le_succ n, by simp, by simp⟩

theorem ne_nil (h : Reads low high again visits) (hlt : low < high) : visits ≠ [] := by
  rintro rfl
  have hlen := h.perm.length_eq
  simp only [List.length_nil, List.length_append, List.length_range'] at hlen
  omega

theorem eq_of_nil (h : Reads low high again []) : low = high := by
  have hle := h.le
  have hnlt : ¬ low < high := fun hlt => h.ne_nil hlt rfl
  omega

theorem append (h : Reads low mid again visits) (hlater : Reads mid high more later) :
    Reads low high (again ++ more) (visits ++ later) where
  le := Nat.le_trans h.le hlater.le
  perm := by
    have hrange : List.range' low (high - low) =
        List.range' low (mid - low) ++ List.range' mid (high - mid) := by
      have hlow := h.le
      have hhigh := hlater.le
      have hlen : high - low = mid - low + (high - mid) := by omega
      have hstart : low + (mid - low) = mid := by omega
      rw [hlen, ← List.range'_append_1, hstart]
    have hswap : (again ++ List.range' mid (high - mid)).Perm
        (List.range' mid (high - mid) ++ again) := List.perm_append_comm
    have hmove := (hswap.append_right more).append_left (List.range' low (mid - low))
    have hall := (h.perm.append hlater.perm).trans (by simpa using hmove)
    simpa [hrange] using hall
  last := by
    intro n hn
    cases later with
    | nil =>
      have hmid : mid = high := hlater.eq_of_nil
      rw [← hmid]
      exact h.last n (by simpa using hn)
    | cons m later =>
      refine hlater.last n ?_
      simpa [List.getLast?_append] using hn

/-- Reading a line again before all others, none of which is read for the first time then. -/
theorem cons (h : Reads low high again visits) (hlt : low < high) (n : Nat) :
    Reads low high (n :: again) (n :: visits) where
  le := h.le
  perm := (h.perm.cons n).trans List.perm_middle.symm
  last := by
    intro m hm
    rw [List.getLast?_cons_of_ne_nil (h.ne_nil hlt)] at hm
    exact h.last m hm

/-- Going through all lines once more, in their order. -/
theorem append_range (h : Reads 0 high again visits) :
    Reads 0 high (again ++ List.range high) (visits ++ List.range high) where
  le := h.le
  perm := by
    have hall := h.perm.append_right (List.range high)
    rwa [List.append_assoc] at hall
  last := by
    intro n hn
    cases high with
    | zero => exact h.last n (by simpa using hn)
    | succ high =>
      rw [List.range_succ, ← List.append_assoc, List.getLast?_concat, Option.mem_some_iff] at hn
      rw [hn]

/-- All but the last read are of lines before the last one and of lines read once more. -/
theorem mem_dropLast_iff (h : Reads 0 high again visits) (hlt : 0 < high) {n : Nat} :
    n ∈ visits.dropLast ↔ n + 1 < high ∨ n ∈ again := by
  have hne : visits ≠ [] := h.ne_nil hlt
  have hlast : visits.getLast hne = high - 1 := by
    have hadd := h.last _ (List.getLast?_eq_some_getLast hne)
    omega
  have hvisits : visits = visits.dropLast ++ [high - 1] := by
    rw [← hlast, List.dropLast_concat_getLast]
  have hrange : List.range' 0 (high - 0) = List.range' 0 (high - 1) ++ [high - 1] := by
    have hhigh : high - 0 = high - 1 + 1 := by omega
    rw [hhigh, List.range'_concat]
    simp
  have hperm : (visits.dropLast ++ [high - 1]).Perm
      ((List.range' 0 (high - 1) ++ again) ++ [high - 1]) := by
    have hmove : ([high - 1] ++ again).Perm (again ++ [high - 1]) := List.perm_append_comm
    have hall := h.perm
    rw [hvisits, hrange] at hall
    exact hall.trans (by simpa using hmove.append_left (List.range' 0 (high - 1)))
  have hdrop : visits.dropLast.Perm (List.range' 0 (high - 1) ++ again) :=
    (List.perm_append_right_iff [high - 1]).1 hperm
  have hbefore : n ∈ List.range' 0 (high - 1) ↔ n + 1 < high := by
    rw [List.mem_range'_1]
    omega
  rw [hdrop.mem_iff, List.mem_append, hbefore]

end Reads

theorem Body.reads_stop (ending : Ending) (n : Nat) :
    Reads n (stop ending n).next [] (stop ending n).visits :=
  .single n

theorem Body.reads_read (depth n : Nat) (lines : List Facts) :
    Reads n (read depth n lines).next [] (read depth n lines).visits := by
  induction lines generalizing depth n with
  | nil => exact .nil n
  | cons f rest ih =>
    rw [read]
    split
    · exact reads_stop _ n
    · split
      · exact reads_stop _ n
      · exact (Reads.single n).append (ih (f.depthAfter depth) (n + 1))

/-- The lines of the declarations in a proc's body are read for the proc and for the subproc. -/
theorem Proc.reads_readBody (skip depth n : Nat) (lines : List Facts) (h : skip ≤ lines.length) :
    Reads (n + skip) (readBody skip depth n lines).1.next
      ((readBody skip depth n lines).2.map Subproc.start)
      (readBody skip depth n lines).1.visits := by
  induction lines generalizing skip depth n with
  | nil =>
    obtain rfl : skip = 0 := by simpa using h
    exact .nil n
  | cons f rest ih =>
    cases skip with
    | succ k =>
      have hk := ih k depth (n + 1) (by simpa using h)
      rw [readBody]
      rwa [Nat.add_right_comm] at hk
    | zero =>
      rw [readBody]
      split
      · exact Body.reads_stop _ n
      · split
        · -- The body of a subproc begins with its declaration, which has just been read.
          have hlt := Body.lt_next_read 0 n f rest
          have hle := Body.next_read_le 0 n (f :: rest)
          rw [List.length_cons] at hle
          have hsub := (Body.reads_read 0 n (f :: rest)).cons hlt n
          have hlater := ih ((Body.read 0 n (f :: rest)).next - (n + 1)) depth (n + 1) (by omega)
          rw [Nat.add_sub_cancel' hlt] at hlater
          exact hsub.append hlater
        · split
          · exact Body.reads_stop _ n
          · exact (Reads.single n).append (ih 0 (f.depthAfter depth) (n + 1) (Nat.zero_le _))

/-- The lines that declare a proc or one of its subprocs. -/
def Proc.declarations (p : Proc) : List Nat :=
  p.start :: p.subprocs.map Subproc.start

/-- The search for procs reads a declaration once to find it and once more for its body. -/
theorem Survey.reads_readFrom (skip n : Nat) (lines : List Facts) (h : skip ≤ lines.length) :
    Reads (n + skip) (n + lines.length) ((readFrom skip n lines).procs.flatMap Proc.declarations)
      (readFrom skip n lines).visits := by
  induction lines generalizing skip n with
  | nil =>
    obtain rfl : skip = 0 := by simpa using h
    exact .nil n
  | cons f rest ih =>
    have hlen : n + (f :: rest).length = n + 1 + rest.length := by
      rw [List.length_cons]
      omega
    rw [hlen]
    cases skip with
    | succ k =>
      have hk := ih k (n + 1) (by simpa using h)
      rw [readFrom]
      rwa [Nat.add_right_comm n 1 k] at hk
    | zero =>
      rw [readFrom]
      split
      · exact (Reads.single n).append (ih 0 (n + 1) (Nat.zero_le _))
      · next name hname =>
        have hlt := (Proc.read_inOrder (.ofList name) n rest
          (Facts.declares?_subproc_of_proc hname)).le
        have hle := Proc.next_read_le (.ofList name) n (f :: rest)
        rw [hlen] at hle
        have hproc := (Proc.reads_readBody 0 0 n (f :: rest) (Nat.zero_le _)).cons hlt n
        have hlater := ih ((Proc.read (.ofList name) n (f :: rest)).body.next - (n + 1)) (n + 1)
          (by omega)
        rw [Nat.add_sub_cancel' hlt] at hlater
        exact hproc.append hlater

theorem Survey.reads_ofLines (lines : List Line) :
    Reads 0 lines.length ((ofLines lines).procs.flatMap Proc.declarations)
      (ofLines lines).visits := by
  have h := reads_readFrom 0 0 (lines.map Facts.ofLine) (Nat.zero_le _)
  rwa [List.length_map, Nat.add_zero, Nat.zero_add] at h

/-- The lines that are read once more: those of declarations, or all of them without a proc. -/
def Outline.reread (lines : List Line) : List Nat :=
  if (Survey.ofLines lines).procs.isEmpty then List.range lines.length
  else (Survey.ofLines lines).procs.flatMap Proc.declarations

theorem Outline.reads_visits (lines : List Line) :
    Reads 0 lines.length (reread lines) (visits lines) := by
  have hsurvey := Survey.reads_ofLines lines
  unfold reread visits
  simp only
  split
  · next hempty =>
    rw [List.isEmpty_iff.1 hempty] at hsurvey
    exact hsurvey.append_range
  · exact hsurvey

end TalOutline
