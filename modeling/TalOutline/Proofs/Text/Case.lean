import Mathlib.Data.List.TakeWhile
import TalOutline.Text.Blank
import TalOutline.Text.Letter
import TalOutline.Text.Units
import TalOutline.Text.Word

/-!
Texts in lower case. A class of characters that has each capital together with its small letter cannot
tell a text from the same text in lower case, so what is read off the front of the one is read off the
front of the other.
-/
namespace TalOutline.Text

/-- The text with its ASCII capitals made small. -/
def lower (text : List Char) : List Char :=
  text.map Char.toLower

@[simp] theorem lower_nil : lower [] = [] := rfl

@[simp] theorem lower_cons (c : Char) (text : List Char) :
    lower (c :: text) = c.toLower :: lower text :=
  rfl

theorem lower_append (a b : List Char) : lower (a ++ b) = lower a ++ lower b :=
  List.map_append

theorem sameAsciiCase_iff {a b : List Char} : sameAsciiCase a b = true ↔ lower a = lower b :=
  beq_iff_eq

section Characters

theorem isUpper_iff_toNat {c : Char} :
    c.isUpper = true ↔ 'A'.toNat ≤ c.toNat ∧ c.toNat ≤ 'Z'.toNat :=
  decide_eq_true_iff

theorem isLower_iff_toNat {c : Char} :
    c.isLower = true ↔ 'a'.toNat ≤ c.toNat ∧ c.toNat ≤ 'z'.toNat := by
  have hclass : c.isLower = (decide ('a'.toNat ≤ c.toNat) && decide (c.toNat ≤ 'z'.toNat)) := rfl
  rw [hclass, Bool.and_eq_true, decide_eq_true_iff, decide_eq_true_iff]

theorem isDigit_of_isAlpha {c : Char} (h : c.isAlpha = true) : c.isDigit = false := by
  have h9 : '9'.toNat < 'A'.toNat ∧ '9'.toNat < 'a'.toNat := by decide
  apply Bool.eq_false_iff.2
  intro hdigit
  obtain ⟨-, hle⟩ := Char.isDigit_iff_toNat.1 hdigit
  rcases Bool.or_eq_true_iff.1 h with hupper | hlower
  · have hge := (isUpper_iff_toNat.1 hupper).1
    omega
  · have hge := (isLower_iff_toNat.1 hlower).1
    omega

/-- The twenty-six capitals, from `A` on. -/
def capitals : List Char :=
  (List.range 26).map fun i => Char.ofNat ('A'.toNat + i)

/-- A character that is not a capital is its own lower case. -/
theorem capital_or (c : Char) :
    c.isUpper = true ∧ c ∈ capitals ∨ c.isUpper = false ∧ c.toLower = c := by
  cases hupper : c.isUpper with
  | true =>
    obtain ⟨hge, hle⟩ := isUpper_iff_toNat.1 hupper
    have hcount : 'Z'.toNat = 'A'.toNat + 25 := rfl
    have hindex : 'A'.toNat + (c.toNat - 'A'.toNat) = c.toNat := by omega
    refine .inl ⟨rfl, List.mem_map.2 ⟨c.toNat - 'A'.toNat, List.mem_range.2 (by omega), ?_⟩⟩
    rw [hindex, Char.ofNat_toNat]
  | false => exact .inr ⟨rfl, dif_neg (of_decide_eq_false hupper)⟩

/-- What a reader may ask of a character. -/
structure Traits where
  blank : Bool
  word : Bool
  digit : Bool
  alpha : Bool
  nameStart : Bool
  nameChar : Bool
  units : Nat
  folded : Char
  lowered : Char
  deriving DecidableEq

def traits (c : Char) : Traits where
  blank := isBlank c
  word := isWord c
  digit := c.isDigit
  alpha := c.isAlpha
  nameStart := isNameStart c
  nameChar := isNameChar c
  units := charUnits c
  folded := foldCase c
  lowered := c.toLower

/-- Nothing that is asked of a character depends on its case. -/
theorem traits_toLower (c : Char) : traits c.toLower = traits c := by
  have hcapitals : (capitals.all fun c => traits c.toLower = traits c) = true := by decide
  rcases capital_or c with ⟨-, hc⟩ | ⟨-, hc⟩
  · exact of_decide_eq_true (List.all_eq_true.1 hcapitals c hc)
  · rw [hc]

@[simp] theorem isBlank_toLower (c : Char) : isBlank c.toLower = isBlank c :=
  congrArg Traits.blank (traits_toLower c)

@[simp] theorem isWord_toLower (c : Char) : isWord c.toLower = isWord c :=
  congrArg Traits.word (traits_toLower c)

@[simp] theorem isDigit_toLower (c : Char) : c.toLower.isDigit = c.isDigit :=
  congrArg Traits.digit (traits_toLower c)

@[simp] theorem isAlpha_toLower (c : Char) : c.toLower.isAlpha = c.isAlpha :=
  congrArg Traits.alpha (traits_toLower c)

@[simp] theorem isNameStart_toLower (c : Char) : isNameStart c.toLower = isNameStart c :=
  congrArg Traits.nameStart (traits_toLower c)

@[simp] theorem isNameChar_toLower (c : Char) : isNameChar c.toLower = isNameChar c :=
  congrArg Traits.nameChar (traits_toLower c)

@[simp] theorem charUnits_toLower (c : Char) : charUnits c.toLower = charUnits c :=
  congrArg Traits.units (traits_toLower c)

@[simp] theorem foldCase_toLower (c : Char) : foldCase c.toLower = foldCase c :=
  congrArg Traits.folded (traits_toLower c)

@[simp] theorem toLower_toLower (c : Char) : c.toLower.toLower = c.toLower :=
  congrArg Traits.lowered (traits_toLower c)

theorem isLower_toLower (c : Char) : c.toLower.isLower = c.isAlpha := by
  have hcapitals : (capitals.all fun c => c.toLower.isLower) = true := by decide
  have halpha : c.isAlpha = (c.isUpper || c.isLower) := rfl
  rcases capital_or c with ⟨hupper, hc⟩ | ⟨hupper, hc⟩
  · rw [List.all_eq_true.1 hcapitals c hc, halpha, hupper, Bool.true_or]
  · rw [hc, halpha, hupper, Bool.false_or]

theorem toLower_of_not_isAlpha {c : Char} (h : c.isAlpha = false) : c.toLower = c := by
  obtain ⟨hupper, -⟩ := Bool.or_eq_false_iff.1 h
  rcases capital_or c with ⟨hcapital, -⟩ | ⟨-, hc⟩
  · cases hcapital.symm.trans hupper
  · exact hc

/-- A character without case is the lower case of itself only. -/
theorem toLower_eq_iff {c mark : Char} (hmark : mark.isAlpha = false) :
    c.toLower = mark ↔ c = mark := by
  constructor
  · intro h
    have hc : c.isAlpha = false := by rw [← isAlpha_toLower, h, hmark]
    rw [← h, toLower_of_not_isAlpha hc]
  · intro h
    rw [h, toLower_of_not_isAlpha hmark]

end Characters

@[simp] theorem lower_lower (text : List Char) : lower (lower text) = lower text := by
  unfold lower
  rw [List.map_map]
  exact List.map_congr_left fun c _ => toLower_toLower c

section Runs

variable {p : Char → Bool} (hp : ∀ c, p c.toLower = p c) (text : List Char)
include hp

theorem takeWhile_lower : (lower text).takeWhile p = lower (text.takeWhile p) := by
  have hcomp : p ∘ Char.toLower = p := funext hp
  unfold lower
  rw [List.takeWhile_map, hcomp]

theorem dropWhile_lower : (lower text).dropWhile p = lower (text.dropWhile p) := by
  have hcomp : p ∘ Char.toLower = p := funext hp
  unfold lower
  rw [List.dropWhile_map, hcomp]

end Runs

@[simp] theorem isEmpty_lower (text : List Char) : (lower text).isEmpty = text.isEmpty := by
  cases text <;> rfl

@[simp] theorem trimStart_lower (text : List Char) : trimStart (lower text) = lower (trimStart text) :=
  dropWhile_lower isBlank_toLower text

@[simp] theorem skipBlanks?_lower (text : List Char) :
    skipBlanks? (lower text) = (skipBlanks? text).map lower := by
  cases text with
  | nil => rfl
  | cons c text =>
    rw [lower_cons, skipBlanks?, skipBlanks?, isBlank_toLower, trimStart_lower]
    split <;> rfl

@[simp] theorem skipWord?_lower (word text : List Char) :
    skipWord? word (lower text) = (skipWord? word text).map lower := by
  fun_induction skipWord? word text with
  | case1 text => rw [skipWord?, Option.map_some]
  | case2 w word => rfl
  | case3 word c text ih => rw [lower_cons, skipWord?, foldCase_toLower, if_pos rfl, ih]
  | case4 w word c text hne => rw [lower_cons, skipWord?, foldCase_toLower, if_neg hne, Option.map_none]

@[simp] theorem skipOneOf?_lower (words : List (List Char)) (text : List Char) :
    skipOneOf? words (lower text) = (skipOneOf? words text).map lower := by
  unfold skipOneOf?
  rw [List.map_findSome?]
  congr 1
  funext word
  rw [skipWord?_lower, Function.comp_apply]

@[simp] theorem name?_lower (text : List Char) : name? (lower text) = (name? text).map lower := by
  cases text with
  | nil => rfl
  | cons c text =>
    rw [lower_cons, name?, name?, isNameStart_toLower, takeWhile_lower isNameChar_toLower]
    split <;> rfl

@[simp] theorem skipName?_lower (text : List Char) :
    skipName? (lower text) = (skipName? text).map lower := by
  cases text with
  | nil => rfl
  | cons c text =>
    rw [lower_cons, skipName?, skipName?, isNameStart_toLower, dropWhile_lower isNameChar_toLower]
    split <;> rfl

@[simp] theorem units_lower (text : List Char) : units (lower text) = units text := by
  induction text with
  | nil => rfl
  | cons c text ih => rw [lower_cons, units, units, charUnits_toLower, ih]

end TalOutline.Text
