import TalOutline.Disk.Basic
import TalOutline.Disk.Path
import TalOutline.Settings.Toml

/-! Settings from files. -/
namespace TalOutline.Settings

def fileName : String := "talscan.toml"

def load (disk : Disk) (path : String) : Except Error Settings :=
  match (disk path).text with
  | .error cause => .error (.unreadableSettings path cause)
  | .ok text =>
    match ofToml? text with
    | none => .error (.invalidSettings path)
    | some settings => .ok settings

/-- The settings of a directory, with everything on when it has no settings file. -/
def discover (disk : Disk) (dir : String) : Except Error Settings :=
  let path := Path.join dir fileName
  if (disk path).isFile then load disk path else .ok {}

end TalOutline.Settings
