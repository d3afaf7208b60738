import TalOutline.Cancel
import TalOutline.Outline.Symbols

/-!
The readers of the outline as they work when the scan may be cancelled. Each asks before it reads a
line and otherwise goes on as the plain reader does.
-/
namespace TalOutline

def Body.readPolling (depth n : Nat) : List Facts → Polling Body
  | [] => return read depth n []
  | f :: rest => do
    Polling.ask n
    match f.linkageAt depth with
    | some linkage => return stop (.bodyless linkage) n
    | none =>
      if f.closes depth then return stop .closed n
      else
        let later ← readPolling (f.depthAfter depth) (n + 1) rest
        return later.visit [n]

def Proc.readBodyPolling (skip depth n : Nat) : List Facts → Polling (Body × List Subproc)
  | [] => return readBody skip depth n []
  | f :: rest =>
    match skip with
    | k + 1 => readBodyPolling k depth (n + 1) rest
    | 0 => do
      Polling.ask n
      match f.linkageAt depth with
      | some linkage => return (.stop (.bodyless linkage) n, [])
      | none =>
        match f.declares? .subproc with
        | some name =>
          let body ← Body.readPolling 0 n (f :: rest)
          let later ← readBodyPolling (body.next - (n + 1)) depth (n + 1) rest
          return (later.1.visit (n :: body.visits), ⟨.ofList name, n, body⟩ :: later.2)
        | none =>
          if f.closes depth then return (.stop .closed n, [])
          else
            let later ← readBodyPolling 0 (f.depthAfter depth) (n + 1) rest
            return (later.1.visit [n], later.2)

def Survey.readPolling (skip n : Nat) : List Facts → Polling Survey
  | [] => return readFrom skip n []
  | f :: rest =>
    match skip with
    | k + 1 => readPolling k (n + 1) rest
    | 0 => do
      Polling.ask n
      match f.declares? .proc with
      | none =>
        let later ← readPolling 0 (n + 1) rest
        return { later with visits := n :: later.visits }
      | some name =>
        let found ← Proc.readBodyPolling 0 0 n (f :: rest)
        let later ← readPolling (found.1.next - (n + 1)) (n + 1) rest
        return ⟨⟨.ofList name, n, found.1, found.2⟩ :: later.procs,
          n :: found.1.visits ++ later.visits⟩

/-- The pass over the lines for sections and pages, with the entries found so far. -/
def Heading.treesPolling (found : List (Tree Item)) (n : Nat) :
    List Line → Polling (List (Tree Item))
  | [] => return changeLast (closeEntry (n - 1)) found
  | line :: rest => do
    Polling.ask n
    match ofLine? n line with
    | none => treesPolling found (n + 1) rest
    | some h => treesPolling (put found h) (n + 1) rest

namespace Outline

def itemsPolling (lines : List Line) : Polling (List (Tree Item)) := do
  let survey ← Survey.readPolling 0 0 (lines.map Facts.ofLine)
  match survey.procs with
  | [] => Heading.treesPolling [] 0 lines
  | procs => return procs.map Proc.tree

/-- The outline of a document, unless the scan is cancelled. -/
def scanUntil (point : CancelPoint) (lines : List Line) : Except Error (List (Tree Symbol)) :=
  (Tree.mapForest (Item.measure lines) <$> itemsPolling lines).run' point

end Outline

end TalOutline
