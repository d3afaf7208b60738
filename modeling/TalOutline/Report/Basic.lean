import TalOutline.Fold.All
import TalOutline.Json.Printer
import TalOutline.Outline.Symbols
import TalOutline.Report.Json

/-! Reports on a document, for people to read or for other programs. Lines count from one. -/
namespace TalOutline

inductive Format where
  | text
  | json
  deriving DecidableEq, Repr

inductive Subject where
  | folds
  | symbols
  deriving DecidableEq, Repr

namespace Report

/-- A number of a line, counted from one. -/
def lineNumber (n : Nat) : List Char :=
  Nat.toDigits 10 (n + 1)

def lineSpan (first last : Nat) : List Char :=
  lineNumber first ++ '-' :: lineNumber last

def padded (width : Nat) (text : List Char) : List Char :=
  text ++ List.replicate (width - text.length) ' '

def foldLine (fold : Fold) : List Char :=
  padded 8 fold.kind.text.toList ++ ' ' :: lineSpan fold.first fold.last ++ ['\n']

/-- The kind of an entry, after its detail if it has one. -/
def kindLabel (s : Symbol) : List Char :=
  match s.detail with
  | none => s.kind.text.toList
  | some linkage => linkage.text.toList ++ ' ' :: s.kind.text.toList

/-- The line of an entry, indented by its depth: its name, kind and lines. -/
def symbolLine (depth : Nat) (s : Symbol) : List Char :=
  List.replicate (2 * depth) ' ' ++ s.name.toList ++ [' ', '('] ++ kindLabel s ++ [')', ' '] ++
    lineSpan s.range.start.line s.range.stop.line ++ ['\n']

def jsonArray (elements : List Json) : List Char :=
  (Json.array elements).pretty 0 ++ ['\n']

def folds (format : Format) (folds : List Fold) : String :=
  .ofList <|
    match format with
    | .text => folds.flatMap foldLine
    | .json => jsonArray (folds.map foldJson)

def symbols (format : Format) (outline : List (Tree Symbol)) : String :=
  .ofList <|
    match format with
    | .text => (Tree.preorderForest 0 outline).flatMap fun (depth, s) => symbolLine depth s
    | .json => jsonArray (symbolsJson outline)

def ofLines (subject : Subject) (format : Format) (lines : List Line) : String :=
  match subject with
  | .folds => folds format (Fold.all lines)
  | .symbols => symbols format (Outline.symbols lines)

end Report

end TalOutline
