import TalOutline.Editor.Convert
import TalOutline.Scanner
import TalOutline.Settings.File

/-!
A session with an editor. A request for folds or symbols takes a snapshot of the document first and
is completed later, so that other messages may come in between.
-/
namespace TalOutline.Editor

structure Session where
  settings : Settings
  scanner : Scanner
  documents : Table Document

/-- Where an editor works: the directory of a folder, or nothing when it is not on the disk. -/
abbrev Workplace := Option Disk

structure Start where
  options : Option Json
  folders : List Workplace
  root : Workplace

def Start.directory? (start : Start) : Option Disk :=
  match start.folders with
  | folder :: _ => folder
  | [] => start.root

/-- The settings of a session: the editor's if they are valid, or else those of its directory. -/
def Start.settings (start : Start) : Settings :=
  match start.options.bind Settings.ofJson? with
  | some settings => settings
  | none =>
    match start.directory? with
    | none => {}
    | some disk => ((Settings.discover disk "").toOption).getD {}

namespace Session

def new : Session :=
  ⟨{}, .new {}, ∅⟩

/-- Starts over with new settings. Open documents stay open. -/
def configure (s : Session) (settings : Settings) : Session :=
  { s with settings := settings, scanner := .new settings }

def store (s : Session) (uri : String) (version : Int) (text : String) : Session :=
  { s with documents := s.documents.insert uri (.ofText uri version text) }

/-- Takes in changes of a document, each with its whole text. The last one counts. -/
def change (s : Session) (uri : String) (version : Int) (texts : List String) : Session :=
  match texts.getLast? with
  | none => s
  | some text => s.store uri version text

def close (s : Session) (uri : String) : Session :=
  { s with scanner := s.scanner.forget uri, documents := s.documents.erase uri }

/-- Begins a request for folds: the document to be scanned, unless there is none or folding is off. -/
def snapshotFolds? (s : Session) (uri : String) : Option Document :=
  if s.settings.folding then s.documents.get? uri else none

def snapshotSymbols? (s : Session) (uri : String) : Option Document :=
  if s.settings.symbols then s.documents.get? uri else none

def completeFolds (s : Session) (d : Document) : Option (List Fold) × Session :=
  let answer := s.scanner.requestFolds .never d
  (answer.1.toOption, { s with scanner := answer.2 })

def completeSymbols (s : Session) (d : Document) : Option (List (Tree DocumentSymbol)) × Session :=
  let answer := s.scanner.requestSymbols .never d
  (answer.1.toOption.map documentSymbols, { s with scanner := answer.2 })

def folds (s : Session) (uri : String) : Option (List Fold) × Session :=
  match s.snapshotFolds? uri with
  | none => (none, s)
  | some d => s.completeFolds d

def symbols (s : Session) (uri : String) : Option (List (Tree DocumentSymbol)) × Session :=
  match s.snapshotSymbols? uri with
  | none => (none, s)
  | some d => s.completeSymbols d

end Session

end TalOutline.Editor
