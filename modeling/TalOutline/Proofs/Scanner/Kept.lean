import TalOutline.Proofs.Scanner.Polling
import TalOutline.Scanner

/-!
What a cache keeps. A property of every result that has been put into a cache holds of every
answer taken from it, so an answer is right as soon as the property leaves no other.
-/
namespace TalOutline

namespace Cache

variable {α : Type}

/-- Every result kept has a property, which may depend on its document and version. -/
def Holds (P : String → Int → α → Prop) (c : Cache α) : Prop :=
  ∀ uri stored, c.latest? uri = some stored → P uri stored.version stored.value

variable {P Q : String → Int → α → Prop} {c : Cache α}

theorem holds_empty : Holds P (∅ : Cache α) :=
  nofun

theorem Holds.imp (h : c.Holds P) (hPQ : ∀ uri version value, P uri version value →
    Q uri version value) : c.Holds Q :=
  fun uri stored hs => hPQ _ _ _ (h uri stored hs)

theorem Holds.set (h : c.Holds P) {uri : String} {version : Int} {value : α}
    (hv : P uri version value) : (c.set uri version value).Holds P := by
  intro other stored hs
  rw [latest?_set] at hs
  split at hs
  · next he =>
    obtain rfl := Option.some.inj hs
    rw [he]
    exact hv
  · exact h other stored hs

theorem Holds.remove (h : c.Holds P) (uri : String) :
    (c.remove uri).1.Holds fun other version value => other ≠ uri ∧ P other version value := by
  intro other stored hs
  rw [latest?_remove] at hs
  split at hs
  · cases hs
  · next hne => exact ⟨hne, h other stored hs⟩

theorem get?_eq_some_iff {uri : String} {version : Int} {value : α} :
    c.get? uri version = some value ↔ c.latest? uri = some ⟨version, value⟩ := by
  unfold get?
  cases c.latest? uri with
  | none => simp
  | some stored =>
    obtain ⟨v, x⟩ := stored
    by_cases hv : v = version
    · simp [hv]
    · simp [hv]

variable {scan : List Line → Except Error α}

/-- An answer is kept for the version asked for, or else it is the scan's, kept if it may be. -/
theorem answer_cases (enabled : Bool) (c : Cache α) (d : Document)
    (scan : List Line → Except Error α) :
    (∃ value, c.latest? d.uri = some ⟨d.version, value⟩ ∧
      c.answer enabled d scan = (.ok value, c)) ∨
    (c.answer enabled d scan).1 = scan d.lines ∧
      ((c.answer enabled d scan).2 = c ∨ ∃ value, scan d.lines = .ok value ∧
        (c.answer enabled d scan).2 = c.set d.uri d.version value) := by
  unfold Cache.answer
  split
  · next value h =>
    refine .inl ⟨value, ?_, rfl⟩
    cases enabled with
    | true => exact get?_eq_some_iff.1 h
    | false => cases h
  · cases hs : scan d.lines with
    | error e => exact .inr ⟨rfl, .inl rfl⟩
    | ok value =>
      cases enabled with
      | true => exact .inr ⟨rfl, .inr ⟨value, rfl, rfl⟩⟩
      | false => exact .inr ⟨rfl, .inl rfl⟩

/-- With keeping allowed, an answer is kept for its version, where it was not already. -/
theorem latest?_answer {d : Document} {value : α} (h : (c.answer true d scan).1 = .ok value) :
    (c.answer true d scan).2.latest? d.uri = some ⟨d.version, value⟩ := by
  revert h
  unfold Cache.answer
  split
  · next kept hkept =>
    intro h
    rw [Except.ok.inj h] at hkept
    exact get?_eq_some_iff.1 hkept
  · split
    · nofun
    · intro h
      rw [Except.ok.inj h]
      simp [latest?_set]

theorem Holds.answer (h : c.Holds P) (enabled : Bool) (d : Document)
    (hscan : ∀ value, scan d.lines = .ok value → P d.uri d.version value) :
    (c.answer enabled d scan).2.Holds P := by
  rcases answer_cases enabled c d scan with ⟨value, -, ha⟩ | ⟨-, ha | ⟨value, hv, ha⟩⟩
  · rw [ha]
    exact h
  · rw [ha]
    exact h
  · rw [ha]
    exact h.set (hscan value hv)

/-- A cache gives the scan's result if the property leaves no other for the version asked for. -/
theorem Holds.answer_eq (h : c.Holds P) (enabled : Bool) (d : Document) {value : α}
    (hscan : scan d.lines = .ok value) (honly : ∀ kept, P d.uri d.version kept → kept = value) :
    (c.answer enabled d scan).1 = .ok value := by
  rcases answer_cases enabled c d scan with ⟨kept, hk, ha⟩ | ⟨ha, -⟩
  · rw [ha, honly kept (h d.uri ⟨d.version, kept⟩ hk)]
  · rw [ha, hscan]

end Cache

@[simp] theorem Fold.scanUntil_never (lines : List Line) :
    Fold.scanUntil .never lines = .ok (Fold.all lines) :=
  Fold.scanUntil_eq_guard .never lines

@[simp] theorem Outline.scanUntil_never (lines : List Line) :
    Outline.scanUntil .never lines = .ok (Outline.symbols lines) :=
  Outline.scanUntil_eq_guard .never lines

end TalOutline
