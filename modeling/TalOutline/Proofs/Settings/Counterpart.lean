import TalOutline.Proofs.Settings.Decoding
import TalOutline.Settings.Toml

/-!
Settings from TOML and from the same values in JSON. They are the same, except that a section written as an
array may have more elements in TOML, where only the first one is looked at.
-/
namespace TalOutline

namespace Toml

mutual

/-- The JSON value that stands for a TOML value. Dates, times, infinities and NaN have none. -/
def Value.json? : Value → Option Json
  | .boolean b => some (.bool b)
  | .integer n => some (.number n 0)
  | .float mantissa exponent => some (.number mantissa exponent)
  | .string text => some (.string text)
  | .array elements => (elementsJson? elements).map .array
  | .table entries => (entriesJson? entries).map .object
  | .infinite _ | .nan | .dateTime _ => none

def elementsJson? : List Value → Option (List Json)
  | [] => some []
  | v :: vs => do
    let w ← v.json?
    let ws ← elementsJson? vs
    return w :: ws

def entriesJson? : List (String × Value) → Option (List (String × Json))
  | [] => some []
  | (key, v) :: entries => do
    let w ← v.json?
    let members ← entriesJson? entries
    return (key, w) :: members

end

/-- What stands under a key of a table, and what stands under it in JSON. -/
inductive Counterparts : Option Value → Option Json → Prop
  | absent : Counterparts none none
  | present {v : Value} {w : Json} : v.json? = some w → Counterparts (some v) (some w)

theorem lookup_counterparts {entries : List (String × Value)} {members : List (String × Json)}
    (h : entriesJson? entries = some members) (key : String) :
    Counterparts (entries.lookup key) (Json.member? members key) := by
  induction entries generalizing members with
  | nil =>
    rw [entriesJson?, Option.some_inj] at h
    rw [← h]
    exact .absent
  | cons entry entries ih =>
    obtain ⟨key', v⟩ := entry
    rw [entriesJson?] at h
    obtain ⟨w, hw, h⟩ := Option.bind_eq_some_iff.1 h
    obtain ⟨rest, hrest, h⟩ := Option.bind_eq_some_iff.1 h
    obtain rfl : (key', w) :: rest = members := Option.some.inj h
    rw [Json.member?, List.lookup_cons, List.lookup_cons]
    by_cases hkey : key = key'
    · rw [beq_iff_eq.2 hkey]
      exact .present hw
    · rw [beq_eq_false_iff_ne.2 hkey]
      exact ih hrest

theorem json?_eq_bool_iff {v : Value} {b : Bool} : v.json? = some (.bool b) ↔ v = .boolean b := by
  cases v <;> simp [Value.json?]

end Toml

namespace Settings

/-- An array with its first element only. -/
def firstOnly : Json → Json
  | .array (v :: _) => .array [v]
  | v => v

/-- An object in which each section that is an array has its first element only. -/
def withFirstOnly (members : List (String × Json)) : List (String × Json) :=
  members.map fun (key, v) => (key, if key ∈ sectionNames then firstOnly v else v)

def flagOfJson? : Json → Option Bool
  | .bool b => some b
  | _ => none

def flagOfToml? : Toml.Value → Option Bool
  | .boolean b => some b
  | _ => none

theorem flagOfToml?_eq {v : Toml.Value} {w : Json} (h : v.json? = some w) :
    flagOfToml? v = flagOfJson? w := by
  by_cases hb : ∃ b, v = .boolean b
  · obtain ⟨b, rfl⟩ := hb
    rw [Toml.Value.json?, Option.some_inj] at h
    rw [← h]
    rfl
  · have hv : flagOfToml? v = none := by
      cases v with
      | boolean b => exact absurd ⟨b, rfl⟩ hb
      | _ => rfl
    have hw : flagOfJson? w = none := by
      cases w with
      | bool b => exact absurd ⟨b, Toml.json?_eq_bool_iff.1 h⟩ hb
      | _ => rfl
    rw [hv, hw]

theorem absentOr_eq_of_counterparts {decode : Toml.Value → Option Bool} {decode' : Json → Option Bool}
    (h : ∀ v w, v.json? = some w → decode v = decode' w) {v? : Option Toml.Value} {w? : Option Json}
    (hv : Toml.Counterparts v? w?) : absentOr decode v? = absentOr decode' w? := by
  cases hv with
  | absent => rfl
  | present hw => exact h _ _ hw

theorem absentOr_map (decode : Json → Option Bool) (f : Json → Json) (v? : Option Json) :
    absentOr decode (v?.map f) = absentOr (decode ∘ f) v? := by
  cases v? with
  | none => rfl
  | some v => rfl

theorem sectionOfJson?_object (members : List (String × Json)) :
    sectionOfJson? (.object members) = absentOr flagOfJson? (Json.member? members "enabled") := by
  rw [sectionOfJson?]
  cases Json.member? members "enabled" with
  | none => rfl
  | some v => cases v <;> rfl

theorem sectionOfToml?_table (entries : List (String × Toml.Value)) :
    sectionOfToml? (.table entries) = absentOr flagOfToml? (entries.lookup "enabled") := by
  rw [sectionOfToml?]
  cases entries.lookup "enabled" with
  | none => rfl
  | some v => cases v <;> rfl

/-- A section gives the same flag in TOML and in JSON, once an array there has at most one element. -/
theorem sectionOfToml?_eq {v : Toml.Value} {w : Json} (h : v.json? = some w) :
    sectionOfToml? v = sectionOfJson? (firstOnly w) := by
  cases v with
  | table entries =>
    obtain ⟨members, hmembers, rfl⟩ := Option.map_eq_some_iff.1 h
    rw [firstOnly, sectionOfToml?_table, sectionOfJson?_object]
    · exact absentOr_eq_of_counterparts (fun _ _ => flagOfToml?_eq)
        (Toml.lookup_counterparts hmembers "enabled")
    · nofun
  | array elements =>
    obtain ⟨values, hvalues, rfl⟩ := Option.map_eq_some_iff.1 h
    cases elements with
    | nil =>
      rw [Toml.elementsJson?, Option.some_inj] at hvalues
      rw [← hvalues]
      rfl
    | cons v elements =>
      obtain ⟨w, hw, hvalues⟩ := Option.bind_eq_some_iff.1 hvalues
      obtain ⟨rest, -, hvalues⟩ := Option.bind_eq_some_iff.1 hvalues
      obtain rfl : w :: rest = values := Option.some.inj hvalues
      have htoml : sectionOfToml? (.array (v :: elements)) = flagOfToml? v := by cases v <;> rfl
      have hjson : sectionOfJson? (firstOnly (.array (w :: rest))) = flagOfJson? w := by
        cases w <;> rfl
      rw [htoml, hjson, flagOfToml?_eq hw]
  | boolean _ | integer _ | float _ _ | string _ =>
    obtain rfl := Option.some.inj h
    rfl
  | infinite _ | nan | dateTime _ => cases h

theorem member?_withFirstOnly {members : List (String × Json)} {name : String}
    (h : name ∈ sectionNames) :
    Json.member? (withFirstOnly members) name = (Json.member? members name).map firstOnly := by
  unfold Json.member? withFirstOnly
  induction members with
  | nil => rfl
  | cons member members ih =>
    obtain ⟨key, v⟩ := member
    rw [List.map_cons, List.lookup_cons, List.lookup_cons, ih]
    by_cases hkey : name = key
    · rw [beq_iff_eq.2 hkey, if_pos (hkey ▸ h)]
      rfl
    · rw [beq_eq_false_iff_ne.2 hkey]

theorem ofEntries?_eq {entries : List (String × Toml.Value)} {members : List (String × Json)}
    (h : Toml.entriesJson? entries = some members) :
    ofEntries? entries = ofJson? (.object (withFirstOnly members)) := by
  have hflag : ∀ name ∈ sectionNames, absentOr sectionOfToml? (entries.lookup name) =
      absentOr sectionOfJson? (Json.member? (withFirstOnly members) name) := by
    intro name hname
    rw [member?_withFirstOnly hname, absentOr_map]
    exact absentOr_eq_of_counterparts (fun _ _ => sectionOfToml?_eq) (Toml.lookup_counterparts h name)
  rw [ofEntries?, ofJson?]
  exact ofFlags?_congr hflag

/-- Nothing is cut off where no section is an array of more than one element. -/
theorem ofJson?_withFirstOnly {members : List (String × Json)}
    (h : ∀ name ∈ sectionNames, ∀ elements,
      Json.member? members name = some (.array elements) → elements.length ≤ 1) :
    ofJson? (.object (withFirstOnly members)) = ofJson? (.object members) := by
  apply ofJson?_object_congr
  intro name hname
  rw [member?_withFirstOnly hname]
  cases hmember : Json.member? members name with
  | none => rfl
  | some v =>
    have hsame : firstOnly v = v := by
      match v with
      | .array (first :: second :: rest) =>
        have hshort := h name hname _ hmember
        simp at hshort
      | .array [first] => rfl
      | .array [] => rfl
      | .null | .bool _ | .number _ _ | .string _ | .object _ => rfl
    rw [Option.map_some, hsame]

/--
A JSON value gives settings exactly if it is valid, and each flag is then the one given, or on. Fields that
are not known make no difference, nor does writing a record as an array. A TOML text gives the settings of
its values in JSON, with only the first element of a section that is an array; so it gives the settings of
its values in JSON if no section is an array of more than one.
-/
theorem decoding_exact :
    (∀ v s, ofJson? v = some s ↔
      Valid v ∧ s = ⟨flag "symbols" v, flag "folding" v, flag "cache" v⟩) ∧
    (∀ v w, Rewritten v w → ofJson? v = ofJson? w) ∧
    ∀ text entries members, Toml.parse? text.toList = some entries →
      Toml.entriesJson? entries = some members →
      ofToml? text = ofJson? (.object (withFirstOnly members)) ∧
        ((∀ name ∈ sectionNames, ∀ elements,
            Json.member? members name = some (.array elements) → elements.length ≤ 1) →
          ofToml? text = ofJson? (.object members)) := by
  refine ⟨fun v s => ofJson?_eq_some_iff, fun v w => ofJson?_of_rewritten, ?_⟩
  intro text entries members hparse hjson
  have htoml : ofToml? text = ofJson? (.object (withFirstOnly members)) := by
    rw [ofToml?, hparse]
    exact ofEntries?_eq hjson
  refine ⟨htoml, fun hshort => ?_⟩
  rw [htoml, ofJson?_withFirstOnly hshort]

/-- Settings as an object and as an array, and a section of one element in TOML and in JSON. -/
theorem decoding_exact_listed :
    Rewritten (.object [("symbols", .object [("enabled", .bool false)]), ("tabs", .null)])
        (.array [.object [("enabled", .bool false)]]) ∧
      ofJson? (.object [("symbols", .object [("enabled", .bool false)]), ("tabs", .null)]) =
        ofJson? (.array [.object [("enabled", .bool false)]]) ∧
      ofToml? "symbols = [false]\ntabs = true" =
        ofJson? (.object [("symbols", .array [.bool false]), ("tabs", .bool true)]) := by
  have hlists : Rewritten (.object [("symbols", .object [("enabled", .bool false)]), ("tabs", .null)])
      (.array [.object [("enabled", .bool false)]]) := .listed ⟨2, rfl⟩
  refine ⟨hlists, decoding_exact.2.1 _ _ hlists, ?_⟩
  have hparse : Toml.parse? "symbols = [false]\ntabs = true".toList =
      some [("symbols", .array [.boolean false]), ("tabs", .boolean true)] := rfl
  apply (decoding_exact.2.2 _ _ _ hparse rfl).2
  intro name hname elements helements
  have hsection : name = "symbols" ∨ name = "folding" ∨ name = "cache" := by
    simpa [sectionNames] using hname
  obtain rfl | rfl | rfl := hsection
  · cases helements
    exact Nat.le_refl 1
  · cases helements
  · cases helements

/-- An array of two flags is refused in JSON, and in TOML the first one counts. -/
theorem not_ofToml?_eq_counterpart :
    ¬∀ text entries members, Toml.parse? text.toList = some entries →
      Toml.entriesJson? entries = some members → ofToml? text = ofJson? (.object members) := by
  intro h
  have hsame := h "symbols = [false, true]" _ [("symbols", .array [.bool false, .bool true])] rfl rfl
  revert hsame
  decide +kernel

end Settings

end TalOutline
