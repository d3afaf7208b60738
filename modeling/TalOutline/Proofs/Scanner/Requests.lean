import TalOutline.Proofs.Scanner.Cancelled
import TalOutline.Proofs.Scanner.Kept

/-!
Runs of a scanner. What it keeps comes from requests since their document was last forgotten, so as
long as a version stands for the same lines the answers do not depend on what is kept.
-/
namespace TalOutline.Scanner

/-- What a scanner can be told to do. -/
inductive Operation where
  | folds (point : CancelPoint) (d : Document)
  | symbols (point : CancelPoint) (d : Document)
  | latest (uri : String)
  | span (uri : String) (line : Nat)
  | forget (uri : String)
  deriving DecidableEq

inductive Answer where
  | folds (found : Except Error (List Fold))
  | symbols (found : Except Error (List (Tree Symbol)))
  | latest (kept : Option (List (Tree Symbol)))
  | span (lines : Option (Nat × Nat))
  | nothing

def perform (s : Scanner) : Operation → Answer × Scanner
  | .folds point d => (.folds (s.requestFolds point d).1, (s.requestFolds point d).2)
  | .symbols point d => (.symbols (s.requestSymbols point d).1, (s.requestSymbols point d).2)
  | .latest uri => (.latest (s.latestSymbols? uri), s)
  | .span uri line => (.span (s.narrowingSpan? uri line), s)
  | .forget uri => (.nothing, s.forget uri)

/-- The scanner after a run of operations on a new one. -/
def after (settings : Settings) (history : List Operation) : Scanner :=
  history.foldl (fun s op => (s.perform op).2) (.new settings)

theorem settings_perform (s : Scanner) (op : Operation) : (s.perform op).2.settings = s.settings := by
  cases op <;> rfl

theorem settings_after (settings : Settings) (history : List Operation) :
    (after settings history).settings = settings := by
  have hfoldl (s : Scanner) :
      (history.foldl (fun s op => (s.perform op).2) s).settings = s.settings := by
    induction history generalizing s with
    | nil => rfl
    | cons op rest ih => exact (ih _).trans (settings_perform s op)
  exact hfoldl (.new settings)

/-- The document that a request asks to scan. -/
def Operation.document? : Operation → Option Document
  | .folds _ d | .symbols _ d => some d
  | .latest _ | .span _ _ | .forget _ => none

/--
Two requests for the same version of a document carry the same lines, unless the document is
forgotten in between.
-/
def Steady : List Operation → Prop
  | [] => True
  | op :: rest =>
    (∀ d ∈ op.document?, ∀ e ∈ (rest.takeWhile (· ≠ .forget d.uri)).filterMap Operation.document?,
      e.uri = d.uri → e.version = d.version → e.lines = d.lines) ∧ Steady rest

theorem Steady.of_append {earlier later : List Operation} (h : Steady (earlier ++ later)) :
    Steady later := by
  induction earlier with
  | nil => exact h
  | cons op earlier ih => exact ih h.2

/-- A document has been requested and not been forgotten since. -/
def Requested (history : List Operation) (d : Document) : Prop :=
  ∃ earlier op later, history = earlier ++ op :: later ∧ op.document? = some d ∧
    .forget d.uri ∉ later

theorem requested_append {history : List Operation} {op : Operation} {d : Document}
    (hop : op.document? = some d) : Requested (history ++ [op]) d :=
  ⟨history, op, [], rfl, hop, nofun⟩

theorem Requested.append {history : List Operation} {d : Document} (h : Requested history d)
    {op : Operation} (hop : op ≠ .forget d.uri) : Requested (history ++ [op]) d := by
  obtain ⟨earlier, first, later, rfl, hfirst, hlater⟩ := h
  refine ⟨earlier, first, later ++ [op], by simp, hfirst, ?_⟩
  intro hmem
  rcases List.mem_append.1 hmem with hmem | hmem
  · exact hlater hmem
  · exact hop (List.mem_singleton.1 hmem).symm

/-- In a steady run, a request carries the lines of every earlier one for the same version. -/
theorem Steady.lines_eq {history later : List Operation} {op : Operation} {d e : Document}
    (h : Steady (history ++ op :: later)) (hd : Requested history d) (hop : op.document? = some e)
    (huri : e.uri = d.uri) (hversion : e.version = d.version) : e.lines = d.lines := by
  obtain ⟨earlier, first, between, rfl, hfirst, hbetween⟩ := hd
  rw [List.append_assoc, List.cons_append] at h
  have hopen : ∀ o ∈ between ++ [op], decide (o ≠ .forget d.uri) = true := by
    intro o ho
    rw [decide_eq_true_eq]
    rintro rfl
    rcases List.mem_append.1 ho with ho | ho
    · exact hbetween ho
    · rw [← List.mem_singleton.1 ho] at hop
      cases hop
  refine h.of_append.1 d hfirst e (List.mem_filterMap.2 ⟨op, ?_, hop⟩) huri hversion
  rw [List.append_cons, List.takeWhile_append_of_pos hopen]
  simp

/-- A result that a scan gave for a document requested with the version. -/
def Kept {α : Type} (scan : List Line → α) (history : List Operation) (uri : String)
    (version : Int) (value : α) : Prop :=
  ∃ d, Requested history d ∧ d.uri = uri ∧ d.version = version ∧ value = scan d.lines

theorem Kept.append {α : Type} {scan : List Line → α} {history : List Operation} {uri : String}
    {version : Int} {value : α} (h : Kept scan history uri version value) {op : Operation}
    (hop : op ≠ .forget uri) : Kept scan (history ++ [op]) uri version value := by
  obtain ⟨d, hd, rfl, hversion, hvalue⟩ := h
  exact ⟨d, hd.append hop, rfl, hversion, hvalue⟩

/-- What a scanner keeps comes from the requests of the run that led to it. -/
structure Follows (history : List Operation) (s : Scanner) : Prop where
  folds : s.folds.Holds (Kept Fold.all history)
  symbols : s.symbols.Holds (Kept Outline.symbols history)

namespace Follows

variable {history : List Operation} {s : Scanner}

theorem new (settings : Settings) : Follows [] (.new settings) :=
  ⟨Cache.holds_empty, Cache.holds_empty⟩

private theorem holds_append {α : Type} {scan : List Line → α} {c : Cache α}
    (hc : c.Holds (Kept scan history)) {op : Operation} (hop : ∀ uri, op ≠ .forget uri) :
    c.Holds (Kept scan (history ++ [op])) :=
  hc.imp fun uri _ _ h => h.append (hop uri)

private theorem holds_answer {α : Type} {scan : List Line → α} {c : Cache α}
    (hc : c.Holds (Kept scan history)) {op : Operation} {d : Document}
    (hop : op.document? = some d) {point : CancelPoint} {scanUntil : List Line → Except Error α}
    (hscan : ∀ lines, scanUntil lines = .ok (scan lines) ∨
      point ≠ .never ∧ scanUntil lines = .error .cancelled) (enabled : Bool) :
    (c.answer enabled d scanUntil).2.Holds (Kept scan (history ++ [op])) := by
  have hkeep : ∀ uri, op ≠ .forget uri := by
    rintro uri rfl
    cases hop
  refine (holds_append hc hkeep).answer enabled d fun value hvalue => ?_
  refine ⟨d, requested_append hop, rfl, rfl, ?_⟩
  rcases hscan d.lines with hok | ⟨-, herror⟩
  · exact Except.ok.inj (hvalue.symm.trans hok)
  · rw [herror] at hvalue
    cases hvalue

private theorem holds_remove {α : Type} {scan : List Line → α} {c : Cache α}
    (hc : c.Holds (Kept scan history)) (uri : String) :
    (c.remove uri).1.Holds (Kept scan (history ++ [.forget uri])) := by
  refine (hc.remove uri).imp ?_
  rintro other version value ⟨hne, h⟩
  exact h.append fun he => hne (Operation.forget.inj he).symm

/-- Every operation keeps the scanner in line with the run. -/
theorem perform (h : Follows history s) (op : Operation) :
    Follows (history ++ [op]) (s.perform op).2 := by
  cases op with
  | folds point d =>
    exact ⟨holds_answer h.folds rfl (Fold.scanUntil_cases point) _, holds_append h.symbols nofun⟩
  | symbols point d =>
    exact ⟨holds_append h.folds nofun, holds_answer h.symbols rfl (Outline.scanUntil_cases point) _⟩
  | latest uri | span uri line =>
    exact ⟨holds_append h.folds nofun, holds_append h.symbols nofun⟩
  | forget uri => exact ⟨holds_remove h.folds uri, holds_remove h.symbols uri⟩

theorem foldl (h : Follows history s) (later : List Operation) :
    Follows (history ++ later) (later.foldl (fun s op => (s.perform op).2) s) := by
  induction later generalizing history s with
  | nil => rwa [List.append_nil]
  | cons op rest ih =>
    have hnext := ih (h.perform op)
    rwa [List.append_assoc] at hnext

theorem after (settings : Settings) (history : List Operation) :
    Follows history (.after settings history) :=
  (new settings).foldl history

/-- In a steady run, a request gets the result of its own lines, whatever is kept. -/
theorem answer_cases {α : Type} {scan : List Line → α} {c : Cache α}
    (hc : c.Holds (Kept scan history)) {later : List Operation} {op : Operation} {d : Document}
    (hsteady : Steady (history ++ op :: later)) (hop : op.document? = some d) {point : CancelPoint}
    {scanUntil : List Line → Except Error α} (hscan : ∀ lines, scanUntil lines = .ok (scan lines) ∨
      point ≠ .never ∧ scanUntil lines = .error .cancelled) (enabled : Bool) :
    (c.answer enabled d scanUntil).1 = .ok (scan d.lines) ∨
      point ≠ .never ∧ (c.answer enabled d scanUntil).1 = .error .cancelled := by
  rcases Cache.answer_cases enabled c d scanUntil with ⟨value, hkept, hanswer⟩ | ⟨hanswer, -⟩
  · -- The kept result comes from another request, which carried the same lines.
    left
    obtain ⟨e, he, huri, hversion, hvalue⟩ := hc d.uri ⟨d.version, value⟩ hkept
    have hlines : d.lines = e.lines := hsteady.lines_eq he hop huri.symm hversion.symm
    have hown : value = scan d.lines := by rw [hlines]; exact hvalue
    rw [hanswer, hown]
  · rw [hanswer]
    exact hscan d.lines

end Follows

/-- A request gets the result of its own lines, or is cancelled if it has a moment for that. -/
def Operation.Answered : Operation → Answer → Prop
  | .folds point d, answer => answer = .folds (.ok (Fold.all d.lines)) ∨
      point ≠ .never ∧ answer = .folds (.error .cancelled)
  | .symbols point d, answer => answer = .symbols (.ok (Outline.symbols d.lines)) ∨
      point ≠ .never ∧ answer = .symbols (.error .cancelled)
  | .latest _, _ | .span _ _, _ | .forget _, _ => True

theorem Follows.answered {history later : List Operation} {s : Scanner} {op : Operation}
    (h : Follows history s) (hsteady : Steady (history ++ op :: later)) :
    op.Answered (s.perform op).1 := by
  cases op with
  | folds point d =>
    have hcases := answer_cases h.folds hsteady rfl (Fold.scanUntil_cases point) s.settings.cache
    exact hcases.imp (congrArg Answer.folds) fun hc => ⟨hc.1, congrArg Answer.folds hc.2⟩
  | symbols point d =>
    have hcases := answer_cases h.symbols hsteady rfl (Outline.scanUntil_cases point)
      s.settings.cache
    exact hcases.imp (congrArg Answer.symbols) fun hc => ⟨hc.1, congrArg Answer.symbols hc.2⟩
  | latest uri | span uri line | forget uri => trivial

/-- A request that nobody cancels. -/
def Operation.Uncancelled (op : Operation) : Prop :=
  ∃ d, op = .folds .never d ∨ op = .symbols .never d

/-- Only one answer is right for a request that nobody cancels. -/
theorem Operation.Answered.unique {op : Operation} (hop : op.Uncancelled) {a b : Answer}
    (ha : op.Answered a) (hb : op.Answered b) : a = b := by
  obtain ⟨d, rfl | rfl⟩ := hop
  · have hfolds {c : Answer} (hc : (folds .never d).Answered c) :
        c = .folds (.ok (Fold.all d.lines)) := hc.resolve_right fun h => h.1 rfl
    rw [hfolds ha, hfolds hb]
  · have hsymbols {c : Answer} (hc : (symbols .never d).Answered c) :
        c = .symbols (.ok (Outline.symbols d.lines)) := hc.resolve_right fun h => h.1 rfl
    rw [hsymbols ha, hsymbols hb]

/--
In a steady run, every request gets the result of its own lines, or is cancelled if it may be. So two
scanners with different settings give the same answers to requests that nobody cancels.
-/
theorem answered_of_steady (history : List Operation) (hsteady : Steady history)
    (earlier : List Operation) (op : Operation) (later : List Operation)
    (hsplit : history = earlier ++ op :: later) (settings : Settings) :
    op.Answered ((after settings earlier).perform op).1 ∧
    (op.Uncancelled → ∀ other : Settings,
      ((after settings earlier).perform op).1 = ((after other earlier).perform op).1) := by
  rw [hsplit] at hsteady
  have hanswered (settings : Settings) : op.Answered ((after settings earlier).perform op).1 :=
    (Follows.after settings earlier).answered hsteady
  exact ⟨hanswered settings, fun hop other => (hanswered settings).unique hop (hanswered other)⟩

/-- A version is used again for other lines after the document has been forgotten. -/
def reusedVersion : List Operation :=
  [.folds .already ⟨"a", 1, [['e', 'n', 'd']]⟩, .folds .never ⟨"a", 1, [['e', 'n', 'd']]⟩, .forget "a"]

theorem answered_of_steady_reusedVersion :
    Steady (reusedVersion ++ [.folds .never ⟨"a", 1, []⟩]) ∧
      ((after {} reusedVersion).perform (.folds .never ⟨"a", 1, []⟩)).1 =
        .folds (.ok (Fold.all [])) := by
  have hsteady : Steady (reusedVersion ++ [.folds .never ⟨"a", 1, []⟩]) := by
    simp [reusedVersion, Steady, Operation.document?]
  have hanswered := (answered_of_steady _ hsteady reusedVersion _ [] rfl {}).1
  exact ⟨hsteady, hanswered.resolve_right fun h => h.1 rfl⟩

end TalOutline.Scanner
