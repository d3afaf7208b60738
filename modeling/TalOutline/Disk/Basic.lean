import TalOutline.Error

/-! What stands at a path. -/
namespace TalOutline

/-- What a path leads to. -/
inductive Entry where
  | missing
  | notDirectory -- a part of the path that should be a directory is a file
  | directory
  | file (contents : ByteArray)
  deriving Inhabited

namespace Entry

def isPresent : Entry → Bool
  | .directory | .file _ => true
  | _ => false

def isFile : Entry → Bool
  | .file _ => true
  | _ => false

def text : Entry → Except ReadError String
  | .missing => .error .missing
  | .notDirectory => .error .notDirectory
  | .directory => .error .isDirectory
  | .file contents =>
    match String.fromUTF8? contents with
    | some text => .ok text
    | none => .error .notText

end Entry

abbrev Disk := String → Entry

end TalOutline
