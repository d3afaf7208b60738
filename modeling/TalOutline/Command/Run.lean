import TalOutline.Command.Arguments
import TalOutline.Report.File

/-! Running a command line. -/
namespace TalOutline.Command

structure Outcome where
  code : Nat
  printed : String
  error : Option String
  deriving DecidableEq, Repr

def versionText : String := "talscan 0.1.0\n"

def usageText : String :=
  "usage: talscan [-c PATH] folds|symbols [-c PATH] [-f text|json] INPUT"

/-- The first line of an error message. A carriage return at its end belongs to the line break. -/
def firstLine (text : String) : String :=
  .ofList (Document.dropReturn (text.toList.takeWhile (· != '\n')))

def failure (e : ReportError) : Outcome :=
  ⟨1, "", some (firstLine ("Error: " ++ e.chain.headD ""))⟩

def Asked.outcome (disk : Disk) : Asked → Outcome
  | .version => ⟨0, versionText, none⟩
  | .misuse => ⟨2, "", none⟩
  | .report r =>
    match Report.ofFile disk r.subject r.format r.input r.config with
    | .ok text => ⟨0, text, none⟩
    | .error e => failure e

/-- The paths that a command line has looked at, settings first. -/
def Asked.paths : Asked → List String
  | .report r =>
    [r.config.getD (Path.join ((Path.parent? r.input).getD ".") Settings.fileName), r.input]
  | _ => []

def run (disk : Disk) (args : List String) : Outcome :=
  (read args).outcome disk

end TalOutline.Command
