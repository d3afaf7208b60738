import TalOutline.Proofs.Fold.Toggles

/-!
Toggles of different ids do not interfere. The entries of one id on the common stack are the whole
stack of the document in which the toggles of all other ids are blanked out.
-/
namespace TalOutline

namespace Toggle

def hasId (x : List Char) (t : Toggle) : Bool :=
  Text.sameAsciiCase t.id x

/-- The line itself, or an empty one in place of a toggle with another id. -/
def blankOthers (x : List Char) (line : Line) : Line :=
  match parse? line with
  | none => line
  | some t => if t.hasId x then line else []

theorem hasId_eq_of_closes {t earlier : Toggle} (h : t.closes earlier = true) (x : List Char) :
    earlier.hasId x = t.hasId x := by
  unfold closes at h
  have hids : t.id.map Char.toLower = earlier.id.map Char.toLower :=
    beq_iff_eq.1 (Bool.and_eq_true_iff.1 h).1
  unfold hasId Text.sameAsciiCase
  rw [hids]

theorem parse?_blankOthers_of_hasId {x : List Char} {line : Line} {t : Toggle}
    (ht : parse? line = some t) (hid : t.hasId x = true) :
    parse? (blankOthers x line) = some t := by
  unfold blankOthers
  rw [ht]
  simp only [hid, if_true]
  exact ht

theorem parse?_blankOthers_of_not {x : List Char} {line : Line}
    (h : ∀ t, parse? line = some t → t.hasId x = false) : parse? (blankOthers x line) = none := by
  unfold blankOthers
  cases ht : parse? line with
  | none => exact ht
  | some t =>
    simp only [h t ht, Bool.false_eq_true, if_false]
    rfl

end Toggle

namespace Fold

def OpenToggle.hasId (x : List Char) (e : OpenToggle) : Bool :=
  e.toggle.hasId x

section Step

variable {x : List Char} {t : Toggle} {opened : List OpenToggle} {n : Nat}

theorem mem_of_mem_stepToggle {e : OpenToggle} (he : e ∈ (stepToggle opened n t).1) :
    e = ⟨t, n⟩ ∨ e ∈ opened := by
  unfold stepToggle at he
  by_cases hkind : t.kind = .endIf
  · simp only [hkind, if_true] at he
    exact .inr (List.mem_of_mem_eraseP he)
  · simp only [hkind, if_false] at he
    rcases List.mem_cons.1 he with he | he
    · exact .inl he
    · exact .inr (List.mem_of_mem_eraseP he)

theorem first_of_mem_stepToggle {fold : Fold} (hfold : fold ∈ (stepToggle opened n t).2) :
    ∃ e ∈ opened, t.closes e.toggle = true ∧ fold.first = e.line := by
  unfold stepToggle at hfold
  obtain ⟨e, he, hupTo⟩ := Option.bind_eq_some_iff.1 (Option.mem_toList.1 hfold)
  have hclose : t.closes e.toggle = true := by simpa using List.find?_some he
  have hfirst : fold.first = e.line := (upTo?_eq_some_iff.1 hupTo).2.2.1
  exact ⟨e, List.mem_of_find?_eq_some he, hclose, hfirst⟩

/-- Entries of other ids make no difference to a toggle. -/
theorem stepToggle_filter_hasId (ht : t.hasId x = true) :
    stepToggle (opened.filter (·.hasId x)) n t =
      ((stepToggle opened n t).1.filter (·.hasId x), (stepToggle opened n t).2) := by
  have hcloses (e : OpenToggle) :
      (t.closes e.toggle && e.hasId x) = t.closes e.toggle := by
    cases hc : t.closes e.toggle with
    | false => rfl
    | true => exact (Toggle.hasId_eq_of_closes hc x).trans ht
  have hfind : (opened.filter (·.hasId x)).find? (t.closes ·.toggle) =
      opened.find? (t.closes ·.toggle) := by
    rw [List.find?_filter]
    congr 1
    funext e
    rw [← hcloses e]
    simp
  have herase : (opened.filter (·.hasId x)).eraseP (t.closes ·.toggle) =
      (opened.eraseP (t.closes ·.toggle)).filter (·.hasId x) := by
    rw [List.eraseP_filter]
    simp only [hcloses]
  have hnew : OpenToggle.hasId x ⟨t, n⟩ = true := ht
  unfold stepToggle
  rw [hfind, herase]
  by_cases hkind : t.kind = .endIf
  · simp [hkind]
  · simp [hkind, hnew]

/-- A toggle makes no difference to the entries of other ids. -/
theorem filter_stepToggle_of_not (ht : t.hasId x = false) :
    (stepToggle opened n t).1.filter (·.hasId x) = opened.filter (·.hasId x) := by
  have herase : (opened.eraseP (t.closes ·.toggle)).filter (·.hasId x) =
      opened.filter (·.hasId x) := by
    by_cases hclose : ∃ e ∈ opened, t.closes e.toggle = true
    · obtain ⟨e, he, hc⟩ := hclose
      obtain ⟨f, before, after, -, hf, hopened, hkept⟩ :=
        List.exists_of_eraseP (p := (t.closes ·.toggle)) he hc
      have hid : f.hasId x = false := (Toggle.hasId_eq_of_closes hf x).trans ht
      rw [hkept, hopened]
      simp [hid]
    · rw [List.eraseP_of_forall_not]
      intro e he hc
      exact hclose ⟨e, he, hc⟩
  have hnew : OpenToggle.hasId x ⟨t, n⟩ = false := ht
  unfold stepToggle
  by_cases hkind : t.kind = .endIf
  · simp only [hkind, if_true]
    exact herase
  · simp only [hkind, if_false, List.filter_cons, hnew, Bool.false_eq_true]
    exact herase

end Step

/-- Whether a fold starts on a line with a toggle of an id. -/
def startsAt (lines : List Line) (x : List Char) (fold : Fold) : Bool :=
  (toggleAt lines fold.first).any (·.hasId x)

/-- The stack holds toggles with the lines that they stand on. -/
def Recorded (lines : List Line) (opened : List OpenToggle) : Prop :=
  ∀ e ∈ opened, toggleAt lines e.line = some e.toggle

namespace Recorded

variable {lines : List Line} {opened : List OpenToggle} {n : Nat}

theorem stepToggle (h : Recorded lines opened) {t : Toggle} (ht : toggleAt lines n = some t) :
    Recorded lines (stepToggle opened n t).1 := by
  intro e he
  rcases mem_of_mem_stepToggle he with rfl | he
  · exact ht
  · exact h e he

theorem startsAt_eq (h : Recorded lines opened) (x : List Char) {t : Toggle} {fold : Fold}
    (hfold : fold ∈ (Fold.stepToggle opened n t).2) : startsAt lines x fold = t.hasId x := by
  obtain ⟨e, he, hclose, hfirst⟩ := first_of_mem_stepToggle hfold
  unfold startsAt
  rw [hfirst, h e he]
  exact Toggle.hasId_eq_of_closes hclose x

/-- A line of the document, and in its place a blank one, keep the two stacks in step. -/
theorem step (h : Recorded lines opened) (x : List Char) {line : Line}
    (hline : toggleAt lines n = Toggle.parse? line) :
    toggleTracker.step (opened.filter (·.hasId x)) n (Toggle.blankOthers x line) =
        ((toggleTracker.step opened n line).1.filter (·.hasId x),
          (toggleTracker.step opened n line).2.filter (startsAt lines x)) ∧
      Recorded lines (toggleTracker.step opened n line).1 := by
  simp only [toggleTracker]
  cases ht : Toggle.parse? line with
  | none =>
    rw [Toggle.parse?_blankOthers_of_not (by simp [ht])]
    exact ⟨rfl, h⟩
  | some t =>
    refine ⟨?_, h.stepToggle (hline.trans ht)⟩
    cases hid : t.hasId x with
    | true =>
      have hown : (Fold.stepToggle opened n t).2.filter (startsAt lines x) =
          (Fold.stepToggle opened n t).2 := by
        rw [List.filter_eq_self]
        intro fold hfold
        exact (h.startsAt_eq x hfold).trans hid
      rw [Toggle.parse?_blankOthers_of_hasId ht hid]
      simp only [hown]
      exact stepToggle_filter_hasId hid
    | false =>
      have hother : (Fold.stepToggle opened n t).2.filter (startsAt lines x) = [] := by
        rw [List.filter_eq_nil_iff]
        intro fold hfold
        rw [h.startsAt_eq x hfold, hid]
        exact Bool.false_ne_true
      have hnot : ∀ u, Toggle.parse? line = some u → u.hasId x = false := by
        intro u hu
        rw [← Option.some.inj (ht.symm.trans hu)]
        exact hid
      rw [Toggle.parse?_blankOthers_of_not hnot]
      simp only [hother, filter_stepToggle_of_not hid]

theorem run {read rest : List Line} (h : Recorded (read ++ rest) opened) (x : List Char) :
    toggleTracker.run (opened.filter (·.hasId x)) read.length (rest.map (Toggle.blankOthers x)) =
      (toggleTracker.run opened read.length rest).filter (startsAt (read ++ rest) x) := by
  induction rest generalizing read opened with
  | nil => rfl
  | cons line rest ih =>
    obtain ⟨hstep, hnext⟩ := h.step x (toggleAt_length read line rest)
    rw [List.append_cons] at hnext
    have hrest := ih hnext
    rw [List.length_append, List.length_singleton] at hrest
    rw [List.map_cons, Tracker.run, Tracker.run, hstep, List.filter_append, hrest,
      ← List.append_cons]

end Recorded

/--
Where all toggles but those of one id are blanked out, just the folds that start at a toggle of that
id are left, in the same order.
-/
theorem toggles_blankOthers (lines : List Line) (x : List Char) :
    toggles (lines.map (Toggle.blankOthers x)) = (toggles lines).filter (startsAt lines x) := by
  have hstart : Recorded ([] ++ lines) [] := nofun
  exact hstart.run x

end Fold

end TalOutline
