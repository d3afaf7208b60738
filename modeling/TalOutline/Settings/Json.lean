import TalOutline.Json.Basic
import TalOutline.Settings.Basic

/-!
Settings from JSON. The three sections, and the flag of a section, may be given by name or in
order; what is not given is on.
-/
namespace TalOutline.Settings

def sectionOfJson? : Json → Option Bool
  | .object members =>
    match Json.member? members "enabled" with
    | none => some true
    | some (.bool b) => some b
    | some _ => none
  | .array [] => some true
  | .array [.bool b] => some b
  | _ => none

def absentOr {α : Type} (decode : α → Option Bool) : Option α → Option Bool
  | none => some true
  | some v => decode v

/-- The settings with three flags, if there are three. -/
def ofFlags? (symbols folding cache : Option Bool) : Option Settings := do
  return { symbols := ← symbols, folding := ← folding, cache := ← cache }

def ofJson? : Json → Option Settings
  | .object members =>
    let flag (key : String) := absentOr sectionOfJson? (Json.member? members key)
    ofFlags? (flag "symbols") (flag "folding") (flag "cache")
  | .array elements =>
    let flag (i : Nat) := absentOr sectionOfJson? elements[i]?
    if elements.length ≤ 3 then ofFlags? (flag 0) (flag 1) (flag 2) else none
  | _ => none

end TalOutline.Settings
