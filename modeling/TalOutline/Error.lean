/-! What can go wrong, and the wording of it. -/
namespace TalOutline

inductive ReadError where
  | missing
  | notDirectory
  | isDirectory
  | notText
  deriving DecidableEq, Repr

def ReadError.message : ReadError → String
  | .missing => "No such file or directory (os error 2)"
  | .notDirectory => "Not a directory (os error 20)"
  | .isDirectory => "Is a directory (os error 21)"
  | .notText => "stream did not contain valid UTF-8"

inductive Error where
  | cancelled
  | unreadableSettings (path : String) (cause : ReadError)
  | invalidSettings (path : String)
  deriving DecidableEq, Repr

namespace Error

/-- The code of an error, the same for all errors of its sort. -/
def code : Error → String
  | .cancelled => "TALSCAN001"
  | .unreadableSettings .. => "TALSCAN002"
  | .invalidSettings .. => "TALSCAN003"

/-- What stands behind an error, if something does. -/
def cause? : Error → Option String
  | .cancelled => none
  | .unreadableSettings _ cause => some cause.message
  | .invalidSettings _ => some "<toml>"

def message : Error → String
  | .cancelled => "Scan cancelled"
  | .unreadableSettings path cause =>
    "Failed to read configuration " ++ path ++ ": " ++ cause.message
  | .invalidSettings path => "Invalid configuration " ++ path ++ ": <toml>"

end Error

end TalOutline
