import TalOutline.Settings.Json

/-!
Which JSON values give settings, and which settings they give. A record may be written as an object, with
its fields under their names and others that do not count, or as an array of its fields in order. It makes
no difference which, nor what else an object has.
-/
namespace TalOutline.Settings

def sectionNames : List String := ["symbols", "folding", "cache"]

def flagNames : List String := ["enabled"]

def ValidSection : Json → Prop
  | .object members => ∀ v, Json.member? members "enabled" = some v → ∃ b, v = .bool b
  | .array elements => elements.length ≤ 1 ∧ ∀ v ∈ elements, ∃ b, v = .bool b
  | _ => False

def Valid : Json → Prop
  | .object members => ∀ name ∈ sectionNames, ∀ v, Json.member? members name = some v → ValidSection v
  | .array elements => elements.length ≤ 3 ∧ ∀ v ∈ elements, ValidSection v
  | _ => False

/-- What a record has for a field, under its name or in its place. -/
def given? (names : List String) (name : String) : Json → Option Json
  | .object members => Json.member? members name
  | .array elements => elements[names.idxOf name]?
  | _ => none

def sectionFlag (v : Json) : Bool :=
  match given? flagNames "enabled" v with
  | some (.bool b) => b
  | _ => true

def flag (name : String) (v : Json) : Bool :=
  ((given? sectionNames name v).map sectionFlag).getD true

theorem sectionOfJson?_eq_some_iff {v : Json} {b : Bool} :
    sectionOfJson? v = some b ↔ ValidSection v ∧ b = sectionFlag v := by
  cases v with
  | object members =>
    simp only [sectionOfJson?, ValidSection, sectionFlag, given?]
    cases Json.member? members "enabled" with
    | none => simp [eq_comm]
    | some v => cases v <;> simp [eq_comm]
  | array elements =>
    match elements with
    | [] => simp [sectionOfJson?, ValidSection, sectionFlag, given?, eq_comm]
    | [v] => cases v <;> simp [sectionOfJson?, ValidSection, sectionFlag, given?, flagNames, eq_comm]
    | v :: w :: rest => cases v <;> simp [sectionOfJson?, ValidSection]
  | _ => simp [sectionOfJson?, ValidSection]

theorem absentOr_eq_some_iff {o : Option Json} {b : Bool} :
    absentOr sectionOfJson? o = some b ↔
      (∀ v, o = some v → ValidSection v) ∧ b = (o.map sectionFlag).getD true := by
  cases o with
  | none => simp [absentOr, eq_comm]
  | some v => simp [absentOr, sectionOfJson?_eq_some_iff]

theorem ofFlags?_eq_some_iff {a b c : Option Bool} {s : Settings} :
    ofFlags? a b c = some s ↔ a = some s.symbols ∧ b = some s.folding ∧ c = some s.cache := by
  obtain ⟨symbols, folding, cache⟩ := s
  cases a <;> cases b <;> cases c <;> simp [ofFlags?]

theorem ofFlags?_congr {f g : String → Option Bool} (h : ∀ name ∈ sectionNames, f name = g name) :
    ofFlags? (f "symbols") (f "folding") (f "cache") =
      ofFlags? (g "symbols") (g "folding") (g "cache") := by
  rw [h "symbols" (by simp [sectionNames]), h "folding" (by simp [sectionNames]),
    h "cache" (by simp [sectionNames])]

theorem ofFlags?_absentOr_eq_some_iff {a b c : Option Json} {s : Settings} :
    ofFlags? (absentOr sectionOfJson? a) (absentOr sectionOfJson? b) (absentOr sectionOfJson? c) = some s ↔
      (∀ o ∈ [a, b, c], ∀ v, o = some v → ValidSection v) ∧
        s = ⟨(a.map sectionFlag).getD true, (b.map sectionFlag).getD true,
          (c.map sectionFlag).getD true⟩ := by
  obtain ⟨symbols, folding, cache⟩ := s
  simp only [ofFlags?_eq_some_iff, absentOr_eq_some_iff, List.forall_mem_cons, mk.injEq]
  constructor
  · rintro ⟨⟨ha, rfl⟩, ⟨hb, rfl⟩, hc, rfl⟩
    exact ⟨⟨ha, hb, hc, nofun⟩, rfl, rfl, rfl⟩
  · rintro ⟨⟨ha, hb, hc, -⟩, rfl, rfl, rfl⟩
    exact ⟨⟨ha, rfl⟩, ⟨hb, rfl⟩, hc, rfl⟩

theorem valid_object_iff {members : List (String × Json)} :
    Valid (.object members) ↔
      ∀ o ∈ sectionNames.map (Json.member? members), ∀ v, o = some v → ValidSection v := by
  rw [List.forall_mem_map]
  rfl

theorem valid_array_iff {elements : List Json} (h : elements.length ≤ 3) :
    Valid (.array elements) ↔
      ∀ o ∈ [elements[0]?, elements[1]?, elements[2]?], ∀ v, o = some v → ValidSection v := by
  have hmem : ∀ v, v ∈ elements ↔ some v ∈ [elements[0]?, elements[1]?, elements[2]?] := by
    intro v
    match elements, h with
    | [], _ => simp
    | [_], _ => simp
    | [_, _], _ => simp
    | [_, _, _], _ => simp
  constructor
  · rintro ⟨-, hvalid⟩ o ho v rfl
    exact hvalid v ((hmem v).2 ho)
  · intro hvalid
    exact ⟨h, fun v hv => hvalid _ ((hmem v).1 hv) v rfl⟩

/-- A value gives settings exactly if it is valid, and each flag is then the one given, or on. -/
theorem ofJson?_eq_some_iff {v : Json} {s : Settings} :
    ofJson? v = some s ↔ Valid v ∧ s = ⟨flag "symbols" v, flag "folding" v, flag "cache" v⟩ := by
  cases v with
  | object members =>
    rw [ofJson?, ofFlags?_absentOr_eq_some_iff, valid_object_iff]
    rfl
  | array elements =>
    rw [ofJson?]
    by_cases hlength : elements.length ≤ 3
    · rw [if_pos hlength, ofFlags?_absentOr_eq_some_iff, valid_array_iff hlength]
      rfl
    · rw [if_neg hlength]
      refine iff_of_false nofun ?_
      rintro ⟨⟨hshort, -⟩, -⟩
      exact hlength hshort
  | _ => simp [ofJson?, Valid]

/-! Writing a record in another way. -/

/-- The fields of an object that are there, in order, when none is there behind one that is not. -/
def Lists (names : List String) (members : List (String × Json)) (present : List Json) : Prop :=
  ∃ absent, names.map (Json.member? members) = present.map some ++ List.replicate absent none

/-- A section written in another way: with one more field, or as an array. -/
inductive SectionRewritten : Json → Json → Prop
  | unknown {before after : List (String × Json)} {key : String} (v : Json) :
    key ∉ flagNames →
      SectionRewritten (.object (before ++ after)) (.object (before ++ (key, v) :: after))
  | listed {members : List (String × Json)} {present : List Json} :
    Lists flagNames members present → SectionRewritten (.object members) (.array present)

/-- Settings written in another way: with one more field, as an array, or with a section so written. -/
inductive Rewritten : Json → Json → Prop
  | unknown {before after : List (String × Json)} {key : String} (v : Json) :
    key ∉ sectionNames → Rewritten (.object (before ++ after)) (.object (before ++ (key, v) :: after))
  | listed {members : List (String × Json)} {present : List Json} :
    Lists sectionNames members present → Rewritten (.object members) (.array present)
  | member {before after : List (String × Json)} {key : String} {v w : Json} :
    SectionRewritten v w →
      Rewritten (.object (before ++ (key, v) :: after)) (.object (before ++ (key, w) :: after))
  | element {before after : List Json} {v w : Json} :
    SectionRewritten v w → Rewritten (.array (before ++ v :: after)) (.array (before ++ w :: after))

theorem member?_unknown {before after : List (String × Json)} {key name : String} (v : Json)
    (h : name ≠ key) :
    Json.member? (before ++ (key, v) :: after) name = Json.member? (before ++ after) name := by
  simp only [Json.member?, List.lookup_append, List.lookup_cons, beq_eq_false_iff_ne.2 h]

namespace Lists

variable {names : List String} {members : List (String × Json)} {present : List Json}

theorem length_le (h : Lists names members present) : present.length ≤ names.length := by
  obtain ⟨absent, heq⟩ := h
  have hlength := congrArg List.length heq
  simp only [List.length_map, List.length_append, List.length_replicate] at hlength
  omega

/-- An array has in its places what the object has under the names. -/
theorem getElem?_eq (h : Lists names members present) {i : Nat} {name : String}
    (hname : names[i]? = some name) : present[i]? = Json.member? members name := by
  obtain ⟨absent, heq⟩ := h
  have hi : some (Json.member? members name) =
      if i < present.length then (present[i]?).map some
      else if i - present.length < absent then some none else none := by
    have hget := congrArg (·[i]?) heq
    simpa only [List.getElem?_map, hname, Option.map_some, List.getElem?_append, List.length_map,
      List.getElem?_replicate] using hget
  by_cases hlt : i < present.length
  · rw [if_pos hlt, List.getElem?_eq_getElem hlt, Option.map_some, Option.some_inj] at hi
    rw [hi, List.getElem?_eq_getElem hlt]
  · rw [if_neg hlt] at hi
    rw [List.getElem?_eq_none (Nat.le_of_not_lt hlt)]
    split at hi
    · exact (Option.some.inj hi).symm
    · cases hi

end Lists

theorem sectionOfJson?_of_rewritten {v w : Json} (h : SectionRewritten v w) :
    sectionOfJson? v = sectionOfJson? w := by
  cases h with
  | @unknown before after key v hkey =>
    have hname : "enabled" ≠ key := fun heq => hkey (heq ▸ List.mem_singleton_self "enabled")
    rw [sectionOfJson?, sectionOfJson?, member?_unknown v hname]
  | @listed members present hlists =>
    have hget : present[0]? = Json.member? members "enabled" := hlists.getElem?_eq rfl
    rw [sectionOfJson?, ← hget]
    match present, hlists.length_le with
    | [], _ => rfl
    | [v], _ => cases v <;> rfl

/-- Of an object only what it has under the three names counts. -/
theorem ofJson?_object_congr {members members' : List (String × Json)}
    (h : ∀ name ∈ sectionNames, absentOr sectionOfJson? (Json.member? members name) =
      absentOr sectionOfJson? (Json.member? members' name)) :
    ofJson? (.object members) = ofJson? (.object members') := by
  rw [ofJson?, ofJson?]
  exact ofFlags?_congr h

theorem ofJson?_array_congr {elements elements' : List Json} (hlength : elements.length = elements'.length)
    (h : ∀ i : Nat, absentOr sectionOfJson? elements[i]? = absentOr sectionOfJson? elements'[i]?) :
    ofJson? (.array elements) = ofJson? (.array elements') := by
  rw [ofJson?, ofJson?]
  simp only [hlength, h]

/-- However they are written, settings stay the same, or stay invalid. -/
theorem ofJson?_of_rewritten {v w : Json} (h : Rewritten v w) : ofJson? v = ofJson? w := by
  cases h with
  | @unknown before after key v hkey =>
    apply ofJson?_object_congr
    intro name hname
    have hne : name ≠ key := fun heq => hkey (heq ▸ hname)
    rw [member?_unknown v hne]
  | @listed members present hlists =>
    have hsymbols : present[0]? = Json.member? members "symbols" := hlists.getElem?_eq rfl
    have hfolding : present[1]? = Json.member? members "folding" := hlists.getElem?_eq rfl
    have hcache : present[2]? = Json.member? members "cache" := hlists.getElem?_eq rfl
    have hlength : present.length ≤ 3 := hlists.length_le
    rw [ofJson?, ofJson?]
    simp only [hsymbols, hfolding, hcache, hlength, if_true]
  | @member before after key v w hsection =>
    apply ofJson?_object_congr
    intro name _
    simp only [Json.member?, List.lookup_append, List.lookup_cons]
    cases before.lookup name with
    | some found => rfl
    | none =>
      by_cases hkey : name = key
      · simp only [hkey, beq_self_eq_true, Option.none_or, absentOr, sectionOfJson?_of_rewritten hsection]
      · simp only [beq_eq_false_iff_ne.2 hkey]
  | @element before after v w hsection =>
    apply ofJson?_array_congr
    · simp
    · intro i
      simp only [List.getElem?_append, List.getElem?_cons]
      split
      · rfl
      · split
        · simp only [absentOr, sectionOfJson?_of_rewritten hsection]
        · rfl

end TalOutline.Settings
