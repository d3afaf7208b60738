import TalOutline.Report.Basic
import TalOutline.Scanner
import TalOutline.Settings.File

/-! Reports on files. The settings are loaded before the file is looked at. -/
namespace TalOutline

inductive ReportError where
  | explicitSettings (path : String) (cause : Error)
  | workspaceSettings (cause : Error)
  | inputMissing (path : String)
  | inputUnreadable (path : String) (cause : ReadError)
  | scan (subject : Subject) (cause : Error)
  deriving DecidableEq, Repr

/-- The wording of an error and of what stands behind it. -/
def Error.chain (e : Error) : List String :=
  e.message :: e.cause?.toList

def ReportError.chain : ReportError → List String
  | .explicitSettings path cause => ("Failed to load configuration: " ++ path) :: cause.chain
  | .workspaceSettings cause => "Failed to load workspace configuration" :: cause.chain
  | .inputMissing path => ["Input file not found: " ++ path]
  | .inputUnreadable path cause => ["Failed to read input file: " ++ path, cause.message]
  | .scan .folds cause => "Folding scan failed" :: cause.chain
  | .scan .symbols cause => "Symbol scan failed" :: cause.chain

namespace Report

/-- The settings in the file given, or else those of the directory of the input. -/
def settings (disk : Disk) (input : String) : Option String → Except ReportError Settings
  | some path => (Settings.load disk path).mapError (.explicitSettings path)
  | none =>
    (Settings.discover disk ((Path.parent? input).getD ".")).mapError .workspaceSettings

def document (disk : Disk) (input : String) : Except ReportError Document :=
  if (disk input).isPresent then
    match (disk input).text with
    | .ok text => .ok (.ofText input 1 text)
    | .error cause => .error (.inputUnreadable input cause)
  else .error (.inputMissing input)

def ofDocument (scanner : Scanner) (subject : Subject) (format : Format) (d : Document) :
    Except ReportError String :=
  match subject with
  | .folds => ((scanner.requestFolds .never d).1.map (folds format)).mapError (.scan .folds)
  | .symbols => ((scanner.requestSymbols .never d).1.map (symbols format)).mapError (.scan .symbols)

def ofFile (disk : Disk) (subject : Subject) (format : Format) (input : String)
    (config : Option String) : Except ReportError String := do
  let settings ← settings disk input config
  let d ← document disk input
  ofDocument (.new settings) subject format d

end Report

end TalOutline
