import TalOutline.Settings.Json
import TalOutline.Toml.Document

/-!
Settings from TOML. A section is a table, or an array whose first element is the flag. A date or
time counts as a table without the flag.
-/
namespace TalOutline.Settings

def sectionOfToml? : Toml.Value → Option Bool
  | .table entries =>
    match entries.lookup "enabled" with
    | none => some true
    | some (.boolean b) => some b
    | some _ => none
  | .array [] => some true
  | .array (.boolean b :: _) => some b
  | .dateTime _ => some true
  | _ => none

/-- The settings that the table of a TOML document gives. -/
def ofEntries? (entries : List (String × Toml.Value)) : Option Settings :=
  let flag (key : String) := absentOr sectionOfToml? (entries.lookup key)
  ofFlags? (flag "symbols") (flag "folding") (flag "cache")

def ofToml? (text : String) : Option Settings :=
  (Toml.parse? text.toList).bind ofEntries?

end TalOutline.Settings
