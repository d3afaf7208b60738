import TalOutline.Proofs.Json.Printing
import TalOutline.Proofs.Json.Reader
import TalOutline.Report.Basic

/-!
Reports for other programs lose nothing. The fields of a record are looked up by their keys, and its kind
and detail by their spellings; what is read in this way from the text of a report is what the report was
made of. So different results are never reported alike.
-/
namespace TalOutline.Report

def natOf? : Json → Option Nat
  | .number (.ofNat n) 0 => some n
  | _ => none

def stringOf? : Json → Option String
  | .string text => some text
  | _ => none

/-- The value among the given ones whose spelling is the text. -/
def spelled? {α : Type} (all : List α) (spelling : α → String) (text : String) : Option α :=
  all.find? fun a => spelling a == text

/-- The member of an object by its key. -/
def field? (key : String) : Json → Option Json
  | .object members => Json.member? members key
  | _ => none

def foldKinds : List FoldKind := [.region, .comment]

def itemKinds : List ItemKind := [.proc, .subproc, .sect, .page, .main]

def details : List (Option Linkage) := [none, some .forward, some .external]

def foldOf? (v : Json) : Option Fold := do
  let first ← (field? "start_line" v).bind natOf?
  let last ← (field? "end_line" v).bind natOf?
  let kind ← (field? "kind" v).bind stringOf?
  return ⟨first, last, ← spelled? foldKinds FoldKind.text kind⟩

def foldsOf? : Json → Option (List Fold)
  | .array vs => vs.mapM foldOf?
  | _ => none

def positionOf? (v : Json) : Option Position := do
  let line ← (field? "line" v).bind natOf?
  let character ← (field? "character" v).bind natOf?
  return ⟨line, character⟩

def rangeOf? (v : Json) : Option Range := do
  let start ← (field? "start" v).bind positionOf?
  let stop ← (field? "end" v).bind positionOf?
  return ⟨start, stop⟩

/-- An entry of an outline without the entries below it. -/
def labelOf? (v : Json) : Option Symbol := do
  let name ← (field? "name" v).bind stringOf?
  let kind ← (field? "kind" v).bind stringOf?
  let detail ← (field? "detail" v).bind stringOf?
  let range ← (field? "range" v).bind rangeOf?
  let selection ← (field? "selection_range" v).bind rangeOf?
  return ⟨name, ← spelled? itemKinds ItemKind.text kind, ← spelled? details detailText detail, range,
    selection⟩

mutual

def symbolOf? : Json → Option (Tree Symbol)
  | .object members => do
    let s ← labelOf? (.object members)
    let children ← childrenIn? members
    return .node s children
  | _ => none

/-- The entries under the key for what stands below. -/
def childrenIn? : List (String × Json) → Option (List (Tree Symbol))
  | [] => none
  | (key, v) :: members => if key = "children" then symbolsOf? v else childrenIn? members

def symbolsOf? : Json → Option (List (Tree Symbol))
  | .array vs => symbolsIn? vs
  | _ => none

def symbolsIn? : List Json → Option (List (Tree Symbol))
  | [] => some []
  | v :: vs => do
    let t ← symbolOf? v
    let ts ← symbolsIn? vs
    return t :: ts

end

theorem spelled?_foldKinds (kind : FoldKind) : spelled? foldKinds FoldKind.text kind.text = some kind := by
  cases kind <;> decide

theorem spelled?_itemKinds (kind : ItemKind) : spelled? itemKinds ItemKind.text kind.text = some kind := by
  cases kind <;> decide

theorem spelled?_details (detail : Option Linkage) :
    spelled? details detailText (detailText detail) = some detail := by
  obtain _ | linkage := detail
  · decide
  · cases linkage <;> decide

theorem field?_cons (key key' : String) (v : Json) (members : List (String × Json)) :
    field? key (.object ((key', v) :: members)) =
      if key = key' then some v else field? key (.object members) := by
  rw [field?, Json.member?, List.lookup_cons]
  by_cases h : key = key'
  · rw [if_pos h, beq_iff_eq.2 h]
  · rw [if_neg h, beq_eq_false_iff_ne.2 h]
    rfl

theorem natOf?_nat (n : Nat) : natOf? (.nat n) = some n :=
  rfl

theorem foldOf?_foldJson (fold : Fold) : foldOf? (foldJson fold) = some fold := by
  simp [foldOf?, foldJson, field?_cons, natOf?_nat, stringOf?, spelled?_foldKinds]

theorem foldsOf?_array (folds : List Fold) : foldsOf? (.array (folds.map foldJson)) = some folds := by
  rw [foldsOf?]
  induction folds with
  | nil => rfl
  | cons fold folds ih => simp [foldOf?_foldJson, ih]

theorem positionOf?_positionJson (p : Position) : positionOf? (positionJson p) = some p := by
  simp [positionOf?, positionJson, field?_cons, natOf?_nat]

theorem rangeOf?_rangeJson (r : Range) : rangeOf? (rangeJson r) = some r := by
  simp [rangeOf?, rangeJson, field?_cons, positionOf?_positionJson]

theorem labelOf?_symbolJson (t : Tree Symbol) : labelOf? (symbolJson t) = some t.label := by
  cases t with
  | node s children =>
    simp [labelOf?, symbolJson, field?_cons, stringOf?, spelled?_itemKinds, spelled?_details,
      rangeOf?_rangeJson, Tree.label]

mutual

theorem symbolOf?_symbolJson : (t : Tree Symbol) → symbolOf? (symbolJson t) = some t
  | .node s children => by
    have hlabel := labelOf?_symbolJson (.node s children)
    rw [symbolJson] at hlabel ⊢
    rw [symbolOf?, hlabel]
    simp [childrenIn?, symbolsOf?, symbolsIn?_symbolsJson children, Tree.label]

theorem symbolsIn?_symbolsJson : (ts : List (Tree Symbol)) → symbolsIn? (symbolsJson ts) = some ts
  | [] => rfl
  | t :: ts => by
    simp [symbolsJson, symbolsIn?, symbolOf?_symbolJson t, symbolsIn?_symbolsJson ts]

end

/-- A text that is one array and a line feed, and from which records are read back: whatever value the
grammar takes the text for. -/
structure Recovers {α : Type} (ofJson? : Json → Option α) (text : String) (a : α) : Prop where
  array : ∃ vs body, text = .ofList (body ++ ['\n']) ∧ Json.Value (.array vs) body
  grammar : ∀ v, Json.Text v text.toList → ofJson? v = some a
  reads : (Json.read? text.toList).bind ofJson? = some a

variable {α : Type} {ofJson? : Json → Option α}

theorem text_jsonArray (vs : List Json) : Json.Text (.array vs) (jsonArray vs) :=
  @Json.Text.mk _ [] _ ['\n'] (List.forall_mem_nil _) (Json.value_pretty 0 _)
    (List.forall_mem_singleton.2 rfl)

theorem recovers_jsonArray {vs : List Json} {a : α} (h : ofJson? (.array vs) = some a) :
    Recovers ofJson? (.ofList (jsonArray vs)) a where
  array := ⟨vs, _, rfl, Json.value_pretty 0 _⟩
  grammar := by
    intro v hv
    rw [String.toList_ofList] at hv
    rw [hv.unique (text_jsonArray vs)]
    exact h
  reads := by
    rw [String.toList_ofList, (text_jsonArray vs).read?]
    exact h

theorem Recovers.unique {text : String} {a b : α} (ha : Recovers ofJson? text a)
    (hb : Recovers ofJson? text b) : a = b := by
  have hreads := ha.reads
  rw [hb.reads, Option.some_inj] at hreads
  exact hreads.symm

theorem recovers_folds (fs : List Fold) : Recovers foldsOf? (folds .json fs) fs :=
  recovers_jsonArray (foldsOf?_array fs)

theorem recovers_symbols (outline : List (Tree Symbol)) :
    Recovers symbolsOf? (symbols .json outline) outline := by
  apply recovers_jsonArray
  rw [symbolsOf?]
  exact symbolsIn?_symbolsJson outline

/-- Folds and outlines are read back from their reports in full and in order, so no two of them are
reported alike. -/
theorem json_lossless :
    (∀ fs, Recovers foldsOf? (folds .json fs) fs) ∧
      (∀ outline, Recovers symbolsOf? (symbols .json outline) outline) ∧
      Function.Injective (folds .json) ∧ Function.Injective (symbols .json) := by
  refine ⟨recovers_folds, recovers_symbols, ?_, ?_⟩
  · intro fs gs h
    have hrecovers := recovers_folds gs
    rw [← h] at hrecovers
    exact (recovers_folds fs).unique hrecovers
  · intro outline outline' h
    have hrecovers := recovers_symbols outline'
    rw [← h] at hrecovers
    exact (recovers_symbols outline).unique hrecovers

/-- An entry below another is told from one behind it, whatever the name tries to close. -/
theorem json_lossless_nested :
    symbols .json [.node ⟨"p", .proc, none, ⟨⟨0, 0⟩, ⟨3, 4⟩⟩, ⟨⟨0, 0⟩, ⟨0, 7⟩⟩⟩
        [.leaf ⟨"\"]\\\x01😀", .page, none, ⟨⟨1, 0⟩, ⟨1, 2⟩⟩, ⟨⟨1, 0⟩, ⟨1, 2⟩⟩⟩]] ≠
      symbols .json [.leaf ⟨"p", .proc, none, ⟨⟨0, 0⟩, ⟨3, 4⟩⟩, ⟨⟨0, 0⟩, ⟨0, 7⟩⟩⟩,
        .leaf ⟨"\"]\\\x01😀", .page, none, ⟨⟨1, 0⟩, ⟨1, 2⟩⟩, ⟨⟨1, 0⟩, ⟨1, 2⟩⟩⟩] := by
  apply json_lossless.2.2.2.ne
  intro h
  exact absurd (congrArg List.length h) (by decide)

end TalOutline.Report
