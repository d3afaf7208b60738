import TalOutline.Cache
import TalOutline.Document
import TalOutline.Fold.Polling
import TalOutline.Outline.Polling
import TalOutline.Settings.Basic

/-! A scanner answers requests on documents and keeps the answers, when its settings allow that. -/
namespace TalOutline

structure Scanner where
  settings : Settings
  folds : Cache (List Fold)
  symbols : Cache (List (Tree Symbol))

/-- The answer kept for a document's version, or else the scan's, which is then kept. -/
def Cache.answer {α : Type} (enabled : Bool) (c : Cache α) (d : Document)
    (scan : List Line → Except Error α) : Except Error α × Cache α :=
  match if enabled then c.get? d.uri d.version else none with
  | some value => (.ok value, c)
  | none =>
    match scan d.lines with
    | .error e => (.error e, c)
    | .ok value => (.ok value, if enabled then c.set d.uri d.version value else c)

namespace Scanner

def new (settings : Settings) : Scanner :=
  ⟨settings, ∅, ∅⟩

def requestFolds (s : Scanner) (point : CancelPoint) (d : Document) :
    Except Error (List Fold) × Scanner :=
  let answer := s.folds.answer s.settings.cache d (Fold.scanUntil point)
  (answer.1, { s with folds := answer.2 })

def requestSymbols (s : Scanner) (point : CancelPoint) (d : Document) :
    Except Error (List (Tree Symbol)) × Scanner :=
  let answer := s.symbols.answer s.settings.cache d (Outline.scanUntil point)
  (answer.1, { s with symbols := answer.2 })

def latestSymbols? (s : Scanner) (uri : String) : Option (List (Tree Symbol)) :=
  (s.symbols.latest? uri).map Stored.value

/-- The first and last line of the innermost entry around a line, in the outline kept. -/
def narrowingSpan? (s : Scanner) (uri : String) (line : Nat) : Option (Nat × Nat) :=
  ((s.latestSymbols? uri).bind (Tree.descendForest (·.range.containsLine line))).map fun symbol =>
    (symbol.range.start.line, symbol.range.stop.line)

def forget (s : Scanner) (uri : String) : Scanner :=
  { s with folds := (s.folds.remove uri).1, symbols := (s.symbols.remove uri).1 }

end Scanner

end TalOutline
