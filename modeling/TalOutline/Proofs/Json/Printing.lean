import Mathlib.Tactic.SplitIfs
import TalOutline.Json.Printer
import TalOutline.Proofs.Json.Grammar

/-!
The printed text of a value is a text of the grammar, written for that value: no character of a string can
be taken for its closing quote, no number begins with a needless zero, and the brackets, commas and colons
stand where the grammar has them.
-/
namespace TalOutline.Json

theorem hexUnit?_control :
    ∀ n < 0x20, hexUnit? ['0', '0', Nat.digitChar (n / 16), Nat.digitChar (n % 16)] = some n := by
  decide

theorem written_hexEscape {c : Char} (h : c.toNat < 0x20) : Written c (hexEscape c) := by
  have hwritten : Written (.ofNat c.toNat) (hexEscape c) :=
    .unit (hexUnit?_control c.toNat h) (by simp [isHigh]; omega) (by simp [isLow]; omega)
  rwa [Char.ofNat_toNat] at hwritten

theorem written_short {c letter : Char} {n : Nat} (hmem : (letter, .ofNat n) ∈ shortEscapes)
    (hc : c.toNat = n) : Written c ['\\', letter] := by
  rw [← hc, Char.ofNat_toNat] at hmem
  exact .short hmem

/-- A character is escaped by its own letter, by its number, or not at all. -/
theorem written_escapeChar (c : Char) : Written c (escapeChar c) := by
  unfold escapeChar
  split_ifs with hquote hbackslash hback htab hline hform hreturn hcontrol
  · rw [hquote]
    exact .short (by decide)
  · rw [hbackslash]
    exact .short (by decide)
  · exact written_short (by decide) hback
  · exact written_short (by decide) htab
  · exact written_short (by decide) hline
  · exact written_short (by decide) hform
  · exact written_short (by decide) hreturn
  · exact written_hexEscape hcontrol
  · exact .plain (Nat.le_of_not_lt hcontrol) hquote hbackslash

theorem allWritten_escaped (cs : List Char) : AllWritten cs (cs.flatMap escapeChar) := by
  induction cs with
  | nil => exact .nil
  | cons c cs ih =>
    rw [List.flatMap_cons]
    exact .cons (written_escapeChar c) ih

theorem quoted_quote (text : String) : Quoted text (quote text) := by
  have hquoted := Quoted.mk (allWritten_escaped text.toList)
  rwa [String.ofList_toList] at hquoted

theorem allDigits_toDigits (n : Nat) : AllDigits (Nat.toDigits 10 n) := by
  intro c hc
  exact Nat.isDigit_of_mem_toDigits (by decide) (by decide) hc

theorem decimal_toDigits (n : Nat) : decimal (Nat.toDigits 10 n) = n :=
  Nat.ofDigitChars_ten_toDigits

theorem exists_first_toDigits (n : Nat) (hn : 0 < n) :
    ∃ d ds, Nat.toDigits 10 n = d :: ds ∧ d ≠ '0' := by
  induction n using Nat.strongRecOn with
  | _ n ih =>
    rw [Nat.toDigits_eq_if (by decide)]
    split_ifs with hsmall
    · refine ⟨_, [], rfl, ?_⟩
      rw [Ne, Nat.digitChar_eq_zero]
      omega
    · obtain ⟨d, ds, hds, hzero⟩ := ih (n / 10) (by omega) (by omega)
      rw [hds]
      exact ⟨d, _, rfl, hzero⟩

theorem wholePart_toDigits (n : Nat) : WholePart (Nat.toDigits 10 n) := by
  have hall := allDigits_toDigits n
  by_cases hn : n = 0
  · rw [hn]
    exact .zero
  · obtain ⟨d, ds, hds, hzero⟩ := exists_first_toDigits n (Nat.pos_of_ne_zero hn)
    rw [hds] at hall ⊢
    obtain ⟨hd, hds'⟩ := List.forall_mem_cons.1 hall
    exact .positive hd hzero hds'

theorem magnitude_toDigits (n : Nat) {e : Int} {t : List Char} (h : ExponentPart e t) :
    Magnitude n e (Nat.toDigits 10 n ++ t) := by
  have hmagnitude := Magnitude.mk (wholePart_toDigits n) .absent h
  rw [List.append_nil, decimal_toDigits] at hmagnitude
  simpa using hmagnitude

theorem signedDigits_intChars (n : Int) : SignedDigits n (intChars n) := by
  cases n with
  | ofNat n =>
    have hdigits := SignedDigits.bare (allDigits_toDigits n) Nat.toDigits_ne_nil
    rwa [decimal_toDigits] at hdigits
  | negSucc n =>
    have hdigits := SignedDigits.minus (allDigits_toDigits (n + 1)) Nat.toDigits_ne_nil
    rwa [decimal_toDigits] at hdigits

theorem numeral_intChars (m : Int) {e : Int} {t : List Char} (h : ExponentPart e t) :
    Numeral m e (intChars m ++ t) := by
  cases m with
  | ofNat n => exact .plain (magnitude_toDigits n h)
  | negSucc n => exact .minus (magnitude_toDigits (n + 1) h)

theorem numeral_numberChars (m e : Int) : Numeral m e (numberChars m e) := by
  unfold numberChars
  split_ifs with he
  · rw [he, ← List.append_nil (intChars m)]
    exact numeral_intChars m .absent
  · exact numeral_intChars m (.present (.inl rfl) (signedDigits_intChars e))

theorem space_newline (level : Nat) : Space (newline level) := by
  intro c hc
  obtain rfl | hc := List.mem_cons.1 hc
  · rfl
  · rw [List.eq_of_mem_replicate hc]
    rfl

theorem member_pretty {v : Json} {s : List Char} (key : String) (h : Value v s) :
    Member Value (key, v) (quote key ++ ':' :: ' ' :: s) :=
  .mk (quoted_quote key) (List.forall_mem_nil _) (List.forall_mem_singleton.2 rfl) h

mutual

/-- A value is printed by the grammar, at any level of nesting. -/
theorem value_pretty (level : Nat) : (v : Json) → Value v (pretty level v)
  | .null => .null
  | .bool true => .isTrue
  | .bool false => .isFalse
  | .number m e => .number (numeral_numberChars m e)
  | .string text => .string (quoted_quote text)
  | .array [] => .array (.empty (List.forall_mem_nil _))
  | .array (v :: vs) => by
    have hitems := items_prettyElements (level + 1) level (value_pretty (level + 1) v) vs
    have henclosed := Enclosed.items (space_newline (level + 1)) hitems
    simpa only [pretty, List.cons_append, List.append_assoc] using Value.array henclosed
  | .object [] => .object (.empty (List.forall_mem_nil _))
  | .object ((key, v) :: members) => by
    have hmember := member_pretty key (value_pretty (level + 1) v)
    have hitems := items_prettyMembers (level + 1) level hmember members
    have henclosed := Enclosed.items (space_newline (level + 1)) hitems
    simpa only [pretty, List.cons_append, List.append_assoc, List.nil_append] using
      Value.object henclosed

theorem items_prettyElements (level outer : Nat) {v : Json} {s : List Char} (h : Value v s) :
    (vs : List Json) →
      Items Value ']' (v :: vs) (s ++ (prettyElements level vs ++ (newline outer ++ [']'])))
  | [] => .last h (space_newline outer)
  | w :: vs => by
    have hitems := items_prettyElements level outer (value_pretty level w) vs
    have hcons := Items.cons h (List.forall_mem_nil _) (space_newline level) hitems
    simpa only [prettyElements, List.cons_append, List.append_assoc, List.nil_append] using hcons

theorem items_prettyMembers (level outer : Nat) {member : String × Json} {s : List Char}
    (h : Member Value member s) : (members : List (String × Json)) →
      Items (Member Value) '\x7d' (member :: members)
        (s ++ (prettyMembers level members ++ (newline outer ++ ['\x7d'])))
  | [] => .last h (space_newline outer)
  | (key, v) :: members => by
    have hmember := member_pretty key (value_pretty level v)
    have hitems := items_prettyMembers level outer hmember members
    have hcons := Items.cons h (List.forall_mem_nil _) (space_newline level) hitems
    simpa only [prettyMembers, List.cons_append, List.append_assoc, List.nil_append] using hcons

end

end TalOutline.Json
