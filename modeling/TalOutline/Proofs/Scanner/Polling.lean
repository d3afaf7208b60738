import TalOutline.Outline.Polling
import TalOutline.Fold.Polling

/-!
What a scan that may be cancelled comes to. It asks before the lines that its plain twin reads, in the
same order. So it gives the twin's whole result, or else nothing.
-/
namespace TalOutline

namespace CancelPoint

/-- Whether a scan that reads these lines in turn asks after the moment of cancelling. -/
def stops (point : CancelPoint) (visits : List Nat) : Bool :=
  match point with
  | .never => false
  | .already => !visits.isEmpty
  | .reading line => visits.dropLast.contains line

/-- The result of a scan that reads these lines in turn. -/
def guard {α : Type} (point : CancelPoint) (visits : List Nat) (result : α) : Except Error α :=
  if point.stops visits then .error .cancelled else .ok result

private theorem stops_reading_cons (line n : Nat) (rest : List Nat) :
    (reading line).stops (n :: rest) =
      if line = n then already.stops rest else (reading line).stops rest := by
  cases rest with
  | nil => simp [stops]
  | cons m rest =>
    by_cases h : line = n
    · simp [stops, h]
    · simp [stops, h]

/-- The scan's result is what comes of asking before each line, one after the other. -/
theorem guard_eq_foldlM_poll {α : Type} (point : CancelPoint) (visits : List Nat) (result : α) :
    point.guard visits result = (visits.foldlM poll point).map fun _ => result := by
  induction visits generalizing point with
  | nil => cases point <;> rfl
  | cons n rest ih =>
    cases point with
    | never => exact ih .never
    | already => rfl
    | reading line =>
      have hstep : (n :: rest).foldlM poll (reading line) =
          rest.foldlM poll (if line = n then already else reading line) := rfl
      rw [hstep, ← ih, guard, guard, stops_reading_cons]
      by_cases h : line = n
      · rw [if_pos h, if_pos h]
      · rw [if_neg h, if_neg h]

end CancelPoint

namespace Polling

variable {α β : Type} {m : Polling α} {visits later : List Nat} {a : α} {b : β}

/-- A scan that asks before each of these lines in turn and then has a result. -/
def Asks (m : Polling α) (visits : List Nat) (result : α) : Prop :=
  ∀ point, m point = (visits.foldlM CancelPoint.poll point).map (result, ·)

theorem asks_pure (a : α) : Asks (pure a) [] a := by
  intro point
  rfl

theorem Asks.bind (hm : Asks m visits a) {f : α → Polling β} (hf : Asks (f a) later b) :
    Asks (m >>= f) (visits ++ later) b := by
  intro point
  show (m point >>= fun next => f next.1 next.2) = _
  rw [hm point, List.foldlM_append]
  cases visits.foldlM CancelPoint.poll point with
  | error e => rfl
  | ok next => exact hf next

theorem Asks.bind_return (hm : Asks m visits a) (f : α → β) :
    Asks (m >>= fun x => pure (f x)) visits (f a) := by
  rw [← List.append_nil visits]
  exact hm.bind (asks_pure (f a))

/-- A line that is asked about comes before what is asked about later. -/
theorem Asks.ask_bind (hm : Asks m visits a) (n : Nat) :
    Asks (ask n >>= fun _ => m) (n :: visits) a := by
  have hask : Asks (ask n) [n] () := by
    intro point
    show (point.poll n).map ((), ·) = (point.poll n >>= pure).map ((), ·)
    rw [bind_pure]
  exact hask.bind hm

theorem Asks.run'_eq (hm : Asks m visits a) (point : CancelPoint) :
    m.run' point = point.guard visits a := by
  rw [CancelPoint.guard_eq_foldlM_poll]
  show Prod.fst <$> m point = _
  rw [hm point]
  cases visits.foldlM CancelPoint.poll point <;> rfl

theorem Asks.map (hm : Asks m visits a) (f : α → β) : Asks (f <$> m) visits (f a) := by
  rw [map_eq_pure_bind]
  exact hm.bind_return f

end Polling

open Polling

theorem Fold.asks_scanPolling (opened : List OpenToggle) (run : Option CommentRun)
    (stack : List Nat) (n : Nat) (lines : List Line) :
    Asks (scanPolling opened run stack n lines) (scanFrom opened run stack n lines).visits
      (scanFrom opened run stack n lines) := by
  induction lines generalizing opened run stack n with
  | nil => exact asks_pure _
  | cons line rest ih =>
    have hlater := ih (toggleTracker.step opened n line).1 (commentTracker.step run n line).1
      (blockTracker.step stack n line).1 (n + 1)
    exact (hlater.bind_return _).ask_bind n

/-- A pass over a document for folds asks before each line. -/
theorem Fold.scanUntil_eq_guard (point : CancelPoint) (lines : List Line) :
    scanUntil point lines = point.guard (scan lines).visits (all lines) :=
  ((asks_scanPolling [] none [] 0 lines).map Found.all).run'_eq point

theorem Body.asks_readPolling (depth n : Nat) (lines : List Facts) :
    Asks (readPolling depth n lines) (read depth n lines).visits (read depth n lines) := by
  induction lines generalizing depth n with
  | nil => exact asks_pure _
  | cons f rest ih =>
    rw [readPolling, read]
    cases f.linkageAt depth with
    | some linkage => exact (asks_pure _).ask_bind n
    | none =>
      dsimp only
      split
      · exact (asks_pure _).ask_bind n
      · exact ((ih (f.depthAfter depth) (n + 1)).bind_return _).ask_bind n

theorem Proc.asks_readBodyPolling (skip depth n : Nat) (lines : List Facts) :
    Asks (readBodyPolling skip depth n lines) (readBody skip depth n lines).1.visits
      (readBody skip depth n lines) := by
  induction lines generalizing skip depth n with
  | nil => exact asks_pure _
  | cons f rest ih =>
    cases skip with
    | succ k => exact ih k depth (n + 1)
    | zero =>
      rw [readBodyPolling, readBody]
      cases f.linkageAt depth with
      | some linkage => exact (asks_pure _).ask_bind n
      | none =>
        cases f.declares? .subproc with
        | some name =>
          have hbody := Body.asks_readPolling 0 n (f :: rest)
          exact (hbody.bind ((ih _ depth (n + 1)).bind_return _)).ask_bind n
        | none =>
          dsimp only
          split
          · exact (asks_pure _).ask_bind n
          · exact ((ih 0 (f.depthAfter depth) (n + 1)).bind_return _).ask_bind n

theorem Survey.asks_readPolling (skip n : Nat) (lines : List Facts) :
    Asks (readPolling skip n lines) (readFrom skip n lines).visits (readFrom skip n lines) := by
  induction lines generalizing skip n with
  | nil => exact asks_pure _
  | cons f rest ih =>
    cases skip with
    | succ k => exact ih k (n + 1)
    | zero =>
      rw [readPolling, readFrom]
      cases f.declares? .proc with
      | none => exact ((ih 0 (n + 1)).bind_return _).ask_bind n
      | some name =>
        have hbody := Proc.asks_readBodyPolling 0 0 n (f :: rest)
        exact (hbody.bind ((ih _ (n + 1)).bind_return _)).ask_bind n

namespace Heading

/-- The pass for sections and pages reads every line, the one that has a heading or not. -/
theorem asks_treesPolling (found : List (Tree Item)) (n : Nat) (lines : List Line) :
    Asks (treesPolling found n lines) (List.range' n lines.length)
      (changeLast (closeEntry (n + lines.length - 1))
        (((lines.zipIdx n).filterMap fun (line, n) => ofLine? n line).foldl put found)) := by
  induction lines generalizing found n with
  | nil => exact asks_pure _
  | cons line rest ih =>
    have hend : n + (line :: rest).length = n + 1 + rest.length := by
      rw [List.length_cons]
      omega
    rw [treesPolling, hend, List.zipIdx_cons, List.filterMap_cons]
    cases hline : ofLine? n line with
    | none =>
      simp only [hline]
      exact (ih found (n + 1)).ask_bind n
    | some h =>
      simp only [hline]
      exact (ih (put found h) (n + 1)).ask_bind n

end Heading

namespace Outline

/-- A document without procs is read once more, for its headings. -/
theorem asks_itemsPolling (lines : List Line) :
    Asks (itemsPolling lines) (visits lines) (items lines) := by
  have hsurvey : Asks (Survey.readPolling 0 0 (lines.map Facts.ofLine))
      (Survey.ofLines lines).visits (Survey.ofLines lines) :=
    Survey.asks_readPolling 0 0 (lines.map Facts.ofLine)
  have htrees : Asks (Heading.treesPolling [] 0 lines) (List.range lines.length)
      (Heading.trees lines) := by
    have hall := Heading.asks_treesPolling [] 0 lines
    rwa [Nat.zero_add, ← List.range_eq_range'] at hall
  unfold itemsPolling visits items
  dsimp only
  cases hprocs : (Survey.ofLines lines).procs with
  | nil =>
    rw [if_pos List.isEmpty_nil]
    apply hsurvey.bind
    rw [hprocs]
    exact htrees
  | cons p procs =>
    rw [if_neg (by simp), ← List.append_nil (Survey.ofLines lines).visits]
    apply hsurvey.bind
    rw [hprocs]
    exact asks_pure _

theorem scanUntil_eq_guard (point : CancelPoint) (lines : List Line) :
    scanUntil point lines = point.guard (visits lines) (symbols lines) :=
  ((asks_itemsPolling lines).map (Tree.mapForest (Item.measure lines))).run'_eq point

end Outline

end TalOutline
