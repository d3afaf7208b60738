import Mathlib.Data.List.Induction
import TalOutline.Proofs.Scanner.Requests

/-!
What a scanner remembers. Of each kind it keeps the last result that a scan has brought for a
document since the document was forgotten. It gives that result again, without reading anything, to
every request for the same version.
-/
namespace TalOutline

/-- A place in a list that has got longer is its new end, or it was there before. -/
theorem append_singleton_eq_iff {α : Type} {l before after : List α} {last x : α} :
    l ++ [last] = before ++ x :: after ↔
      (after = [] ∧ l = before ∧ last = x) ∨
        ∃ middle, after = middle ++ [last] ∧ l = before ++ x :: middle := by
  constructor
  · intro h
    rcases List.eq_nil_or_concat after with rfl | ⟨middle, y, rfl⟩
    · obtain ⟨hl, hlast⟩ := List.append_inj' h rfl
      exact .inl ⟨rfl, hl, (List.cons.inj hlast).1⟩
    · rw [List.concat_eq_append, ← List.cons_append, ← List.append_assoc] at h
      obtain ⟨hl, hlast⟩ := List.append_inj' h rfl
      refine .inr ⟨middle, ?_, hl⟩
      rw [List.concat_eq_append, hlast]
  · intro h
    rcases h with ⟨rfl, rfl, rfl⟩ | ⟨middle, rfl, rfl⟩
    · rfl
    · rw [List.append_assoc, List.cons_append]

namespace Cache

variable {α : Type} {c : Cache α} {d : Document} {scan : List Line → Except Error α}

theorem answer_of_kept {value : α} (h : c.latest? d.uri = some ⟨d.version, value⟩) :
    c.answer true d scan = (.ok value, c) := by
  unfold answer
  rw [if_pos rfl, get?_eq_some_iff.2 h]

/-- Without a result kept for the version, the scan answers, and its result is kept. -/
theorem answer_of_not_kept (h : ∀ value, c.latest? d.uri ≠ some ⟨d.version, value⟩)
    (scan : List Line → Except Error α) :
    (c.answer true d scan).1 = scan d.lines ∧
      (c.answer true d scan).2.latest? d.uri =
        match scan d.lines with
        | .error _ => c.latest? d.uri
        | .ok value => some ⟨d.version, value⟩ := by
  have hget : c.get? d.uri d.version = none := by
    rw [Option.eq_none_iff_forall_ne_some]
    intro value hvalue
    exact h value (get?_eq_some_iff.1 hvalue)
  unfold answer
  rw [if_pos rfl, hget]
  cases scan d.lines with
  | error e => exact ⟨rfl, rfl⟩
  | ok value =>
    have hset := latest?_set c d.uri d.uri d.version value
    rw [if_pos rfl] at hset
    exact ⟨rfl, hset⟩

theorem answer_false (c : Cache α) (d : Document) (scan : List Line → Except Error α) :
    c.answer false d scan = (scan d.lines, c) := by
  unfold answer
  cases scan d.lines <;> rfl

/-- Where results are kept, the property may leave no other. Elsewhere the scan answers anyway. -/
theorem Holds.answer_own {P : String → Int → α → Prop} (h : c.Holds P) {enabled : Bool} {value : α}
    (hscan : scan d.lines = .ok value)
    (honly : enabled = true → ∀ kept, P d.uri d.version kept → kept = value) :
    (c.answer enabled d scan).1 = .ok value := by
  cases enabled with
  | false =>
    rw [answer_false]
    exact hscan
  | true => exact h.answer_eq true d hscan (honly rfl)

theorem answer_of_error {enabled : Bool} {e : Error} (h : (c.answer enabled d scan).1 = .error e) :
    (c.answer enabled d scan).2 = c := by
  rcases answer_cases enabled c d scan with ⟨value, -, ha⟩ | ⟨ha, hc | ⟨value, hv, -⟩⟩
  · rw [ha]
  · exact hc
  · rw [ha, hv] at h
    cases h

theorem latest?_answer_ne (enabled : Bool) (c : Cache α) (scan : List Line → Except Error α)
    {uri : String} (h : uri ≠ d.uri) :
    (c.answer enabled d scan).2.latest? uri = c.latest? uri := by
  rcases answer_cases enabled c d scan with ⟨value, -, ha⟩ | ⟨-, hc | ⟨value, -, hc⟩⟩
  · rw [ha]
  · rw [hc]
  · rw [hc, latest?_set, if_neg h]

/-- Only what is kept for the document itself bears on a request. -/
theorem answer_congr {c' : Cache α} (enabled : Bool) (h : c.latest? d.uri = c'.latest? d.uri)
    (scan : List Line → Except Error α) :
    (c.answer enabled d scan).1 = (c'.answer enabled d scan).1 ∧
      (c.answer enabled d scan).2.latest? d.uri = (c'.answer enabled d scan).2.latest? d.uri := by
  cases enabled with
  | false =>
    rw [answer_false, answer_false]
    exact ⟨rfl, h⟩
  | true =>
    by_cases hkept : ∃ value, c.latest? d.uri = some ⟨d.version, value⟩
    · obtain ⟨value, hvalue⟩ := hkept
      rw [answer_of_kept hvalue, answer_of_kept (h ▸ hvalue)]
      exact ⟨rfl, h⟩
    · have hnot := answer_of_not_kept (not_exists.1 hkept) scan
      have hnot' := answer_of_not_kept (h ▸ not_exists.1 hkept) scan
      rw [hnot.1, hnot.2, hnot'.1, hnot'.2, h]
      exact ⟨rfl, rfl⟩

end Cache

inductive Service where
  | folds
  | symbols
  deriving DecidableEq

namespace Scanner

def Operation.request (service : Service) (point : CancelPoint) (d : Document) : Operation :=
  match service with
  | .folds => .folds point d
  | .symbols => .symbols point d

def Operation.asked? : Operation → Option (Service × String × Int)
  | .folds _ d => some (.folds, d.uri, d.version)
  | .symbols _ d => some (.symbols, d.uri, d.version)
  | .latest _ | .span _ _ | .forget _ => none

def Operation.uri : Operation → String
  | .folds _ d | .symbols _ d => d.uri
  | .latest uri | .span uri _ | .forget uri => uri

def Operation.isFolds : Operation → Bool
  | .folds _ _ => true
  | _ => false

/-- What a scan brings to a request. -/
def Operation.scanned : Operation → Answer
  | .folds point d => .folds (Fold.scanUntil point d.lines)
  | .symbols point d => .symbols (Outline.scanUntil point d.lines)
  | .latest _ | .span _ _ | .forget _ => .nothing

def Answer.isResult : Answer → Bool
  | .folds (.ok _) | .symbols (.ok _) => true
  | _ => false

def Answer.isError : Answer → Bool
  | .folds (.error _) | .symbols (.error _) => true
  | _ => false

/--
Nothing is read for a request. Whatever lines and moment of cancelling it had, the same would come
of it.
-/
def Unread (s : Scanner) (op : Operation) : Prop :=
  ∀ other : Operation, other.asked? = op.asked? → s.perform other = s.perform op

structure Scans (s : Scanner) (op : Operation) (service : Service) (uri : String) (version : Int)
    (result : Answer) : Prop where
  asked : op.asked? = some (service, uri, version)
  read : ¬ s.Unread op
  answer : (s.perform op).1 = result
  isResult : result.isResult = true

/--
The last result of a kind that a scan has brought for a document, and its version. The document has
not been forgotten since.
-/
def LastResult (settings : Settings) (history : List Operation) (service : Service) (uri : String)
    (version : Int) (result : Answer) : Prop :=
  ∃ earlier op later, history = earlier ++ op :: later ∧
    (after settings earlier).Scans op service uri version result ∧ .forget uri ∉ later ∧
    ∀ between next rest, later = between ++ next :: rest → ∀ v r,
      ¬ (after settings (earlier ++ op :: between)).Scans next service uri v r

def kept? (s : Scanner) (service : Service) (uri : String) : Option (Int × Answer) :=
  match service with
  | .folds => (s.folds.latest? uri).map fun e => (e.version, .folds (.ok e.value))
  | .symbols => (s.symbols.latest? uri).map fun e => (e.version, .symbols (.ok e.value))

theorem after_append (settings : Settings) (history : List Operation) (op : Operation) :
    after settings (history ++ [op]) = ((after settings history).perform op).2 := by
  simp [after]

theorem cache_after {settings : Settings} {enabled : Bool} (h : settings.cache = enabled)
    (history : List Operation) : (after settings history).settings.cache = enabled := by
  rw [settings_after]
  exact h

section Keeping

variable {s : Scanner} {op : Operation} {service : Service} {uri : String} {version : Int}
  {result : Answer}

theorem perform_of_kept (hcache : s.settings.cache = true)
    (hop : op.asked? = some (service, uri, version))
    (hkept : s.kept? service uri = some (version, result)) : s.perform op = (result, s) := by
  cases op with
  | folds point d =>
    cases hop
    obtain ⟨⟨v, value⟩, hlatest, hresult⟩ := Option.map_eq_some_iff.1 hkept
    cases hresult
    simp only [perform, requestFolds, hcache, Cache.answer_of_kept hlatest]
  | symbols point d =>
    cases hop
    obtain ⟨⟨v, value⟩, hlatest, hresult⟩ := Option.map_eq_some_iff.1 hkept
    cases hresult
    simp only [perform, requestSymbols, hcache, Cache.answer_of_kept hlatest]
  | latest _ | span _ _ | forget _ => cases hop

theorem perform_of_not_kept (hcache : s.settings.cache = true)
    (hop : op.asked? = some (service, uri, version))
    (hnot : ∀ r, s.kept? service uri ≠ some (version, r)) :
    (s.perform op).1 = op.scanned ∧
      (s.perform op).2.kept? service uri =
        bif op.scanned.isResult then some (version, op.scanned) else s.kept? service uri := by
  cases op with
  | folds point d =>
    cases hop
    have hlatest : ∀ value, s.folds.latest? d.uri ≠ some ⟨d.version, value⟩ := by
      intro value hvalue
      apply hnot (.folds (.ok value))
      simp only [kept?, hvalue, Option.map_some]
    obtain ⟨hanswer, hkeeps⟩ := Cache.answer_of_not_kept hlatest (Fold.scanUntil point)
    simp only [perform, requestFolds, hcache, hanswer, Operation.scanned, kept?, hkeeps]
    cases Fold.scanUntil point d.lines with
    | error e => exact ⟨trivial, rfl⟩
    | ok value => exact ⟨trivial, rfl⟩
  | symbols point d =>
    cases hop
    have hlatest : ∀ value, s.symbols.latest? d.uri ≠ some ⟨d.version, value⟩ := by
      intro value hvalue
      apply hnot (.symbols (.ok value))
      simp only [kept?, hvalue, Option.map_some]
    obtain ⟨hanswer, hkeeps⟩ := Cache.answer_of_not_kept hlatest (Outline.scanUntil point)
    simp only [perform, requestSymbols, hcache, hanswer, Operation.scanned, kept?, hkeeps]
    cases Outline.scanUntil point d.lines with
    | error e => exact ⟨trivial, rfl⟩
    | ok value => exact ⟨trivial, rfl⟩
  | latest _ | span _ _ | forget _ => cases hop

theorem kept?_perform_other (s : Scanner)
    (hop : ∀ v, op.asked? ≠ some (service, uri, v)) (hforget : op ≠ .forget uri) :
    (s.perform op).2.kept? service uri = s.kept? service uri := by
  cases op with
  | folds point d =>
    cases service with
    | symbols => rfl
    | folds =>
      have hne : uri ≠ d.uri := by
        rintro rfl
        exact hop d.version rfl
      simp only [perform, requestFolds, kept?, Cache.latest?_answer_ne _ _ _ hne]
  | symbols point d =>
    cases service with
    | folds => rfl
    | symbols =>
      have hne : uri ≠ d.uri := by
        rintro rfl
        exact hop d.version rfl
      simp only [perform, requestSymbols, kept?, Cache.latest?_answer_ne _ _ _ hne]
  | latest _ | span _ _ => rfl
  | forget other =>
    have hne : uri ≠ other := by
      rintro rfl
      exact hforget rfl
    cases service <;> simp [perform, forget, kept?, Cache.latest?_remove, hne]

theorem kept?_forget (s : Scanner) (service : Service) (uri : String) :
    (s.perform (.forget uri)).2.kept? service uri = none := by
  cases service <;> simp [perform, forget, kept?, Cache.latest?_remove]

theorem asked?_request (service : Service) (point : CancelPoint) (d : Document) :
    (Operation.request service point d).asked? = some (service, d.uri, d.version) := by
  cases service <;> rfl

/-- Nothing is read for a request exactly if a result is kept for its version. -/
theorem unread_iff (hcache : s.settings.cache = true)
    (hop : op.asked? = some (service, uri, version)) :
    s.Unread op ↔ ∃ r, s.kept? service uri = some (version, r) := by
  constructor
  · intro hunread
    -- A scan would tell a request that is cancelled from one that is not.
    apply Classical.byContradiction
    intro hnone
    have hnot := not_exists.1 hnone
    have hnever := asked?_request service .never ⟨uri, version, []⟩
    have halready := asked?_request service .already ⟨uri, version, [[]]⟩
    have hsame := (hunread _ (hnever.trans hop.symm)).trans
      (hunread _ (halready.trans hop.symm)).symm
    have hscanned := congrArg (Answer.isResult ∘ Prod.fst) hsame
    simp only [Function.comp_apply, (perform_of_not_kept hcache hnever hnot).1,
      (perform_of_not_kept hcache halready hnot).1] at hscanned
    cases service <;> cases hscanned
  · intro hkept other hother
    obtain ⟨r, hr⟩ := hkept
    rw [perform_of_kept hcache hop hr, perform_of_kept hcache (hother.trans hop) hr]

theorem scans_iff (hcache : s.settings.cache = true) :
    s.Scans op service uri version result ↔
      op.asked? = some (service, uri, version) ∧ (∀ r, s.kept? service uri ≠ some (version, r)) ∧
        op.scanned = result ∧ result.isResult = true := by
  constructor
  · intro h
    have hnot : ∀ r, s.kept? service uri ≠ some (version, r) := by
      intro r hr
      exact h.read ((unread_iff hcache h.asked).2 ⟨r, hr⟩)
    have hanswer := (perform_of_not_kept hcache h.asked hnot).1
    exact ⟨h.asked, hnot, hanswer.symm.trans h.answer, h.isResult⟩
  · intro h
    obtain ⟨hop, hnot, hscanned, hresult⟩ := h
    have hread : ¬ s.Unread op := by
      rw [unread_iff hcache hop]
      exact not_exists.2 hnot
    exact ⟨hop, hread, (perform_of_not_kept hcache hop hnot).1.trans hscanned, hresult⟩

/-- One operation on what is kept: a result comes from the scan, or it was kept and nothing came. -/
theorem kept?_perform_iff (hcache : s.settings.cache = true) :
    (s.perform op).2.kept? service uri = some (version, result) ↔
      s.Scans op service uri version result ∨
        s.kept? service uri = some (version, result) ∧ op ≠ .forget uri ∧
          ∀ v r, ¬ s.Scans op service uri v r := by
  by_cases hforget : op = .forget uri
  · subst hforget
    simp [kept?_forget, scans_iff hcache, Operation.asked?]
  by_cases hop : ∃ v, op.asked? = some (service, uri, v)
  · obtain ⟨v, hop⟩ := hop
    by_cases hkept : ∃ r, s.kept? service uri = some (v, r)
    · obtain ⟨r, hr⟩ := hkept
      have hnone : ∀ w q, ¬ s.Scans op service uri w q := by
        intro w q hscans
        exact hscans.read ((unread_iff hcache hop).2 ⟨r, hr⟩)
      rw [perform_of_kept hcache hop hr]
      simp [hnone, hforget]
    · have hnot := not_exists.1 hkept
      have hkeeps := (perform_of_not_kept hcache hop hnot).2
      have hscans (w : Int) (q : Answer) : s.Scans op service uri w q ↔
          w = v ∧ op.scanned = q ∧ op.scanned.isResult = true := by
        rw [scans_iff hcache, hop]
        constructor
        · intro h
          obtain ⟨heq, -, rfl, hresult⟩ := h
          cases heq
          exact ⟨rfl, rfl, hresult⟩
        · intro h
          obtain ⟨rfl, rfl, hresult⟩ := h
          exact ⟨rfl, hnot, rfl, hresult⟩
      rw [hkeeps]
      cases hresult : op.scanned.isResult with
      | false => simp [hscans, hresult, hforget]
      | true =>
        simp only [hscans, hresult, cond_true, Option.some.injEq, Prod.mk.injEq, and_true]
        simp [eq_comm]
  · have hnone : ∀ v r, ¬ s.Scans op service uri v r := by
      intro v r hscans
      exact hop ⟨v, hscans.asked⟩
    rw [kept?_perform_other s (fun v hv => hop ⟨v, hv⟩) hforget]
    simp [hnone, hforget]

end Keeping

section History

variable {settings : Settings} {history : List Operation} {op : Operation} {service : Service}
  {uri : String} {version : Int} {result : Answer}

/-- The last result of a longer run comes from its end, or the end leaves it in place. -/
theorem lastResult_append_iff :
    LastResult settings (history ++ [op]) service uri version result ↔
      (after settings history).Scans op service uri version result ∨
        LastResult settings history service uri version result ∧ op ≠ .forget uri ∧
          ∀ v r, ¬ (after settings history).Scans op service uri v r := by
  constructor
  · intro h
    obtain ⟨earlier, first, later, hsplit, hscans, hforget, hlater⟩ := h
    rcases append_singleton_eq_iff.1 hsplit with ⟨-, rfl, rfl⟩ | ⟨middle, rfl, rfl⟩
    · exact .inl hscans
    · refine .inr ⟨⟨earlier, first, middle, rfl, hscans, ?_, ?_⟩, ?_, ?_⟩
      · intro hmem
        exact hforget (List.mem_append_left _ hmem)
      · intro between next rest hmiddle
        exact hlater between next (rest ++ [op]) (by rw [hmiddle]; simp)
      · rintro rfl
        exact hforget (by simp)
      · exact hlater middle op [] rfl
  · intro h
    rcases h with hscans | ⟨⟨earlier, first, later, rfl, hscans, hforget, hlater⟩, hop, hnone⟩
    · exact ⟨history, op, [], rfl, hscans, nofun, by simp⟩
    · refine ⟨earlier, first, later ++ [op], by simp, hscans, ?_, ?_⟩
      · intro hmem
        rcases List.mem_append.1 hmem with hmem | hmem
        · exact hforget hmem
        · exact hop (List.mem_singleton.1 hmem).symm
      · intro between next rest hsplit
        rcases append_singleton_eq_iff.1 hsplit with ⟨-, rfl, rfl⟩ | ⟨middle, -, hmiddle⟩
        · exact hnone
        · exact hlater between next middle hmiddle

/-- A scanner keeps exactly the last results of its run. -/
theorem kept?_after_iff (hcache : settings.cache = true) :
    (after settings history).kept? service uri = some (version, result) ↔
      LastResult settings history service uri version result := by
  induction history using List.reverseRecOn generalizing version result with
  | nil =>
    constructor
    · cases service <;> nofun
    · intro h
      obtain ⟨earlier, op, later, hsplit, -⟩ := h
      simp at hsplit
  | append_singleton history op ih =>
    rw [after_append, kept?_perform_iff (cache_after hcache history), lastResult_append_iff, ih]

end History

/-- Two scanners have the same settings and keep the same for a document. -/
structure Agree (uri : String) (s t : Scanner) : Prop where
  settings : s.settings = t.settings
  folds : s.folds.latest? uri = t.folds.latest? uri
  symbols : s.symbols.latest? uri = t.symbols.latest? uri

namespace Agree

variable {uri : String} {s t : Scanner} {op : Operation}

theorem perform (h : Agree uri s t) (hop : op.uri = uri) :
    (s.perform op).1 = (t.perform op).1 ∧ Agree uri (s.perform op).2 (t.perform op).2 := by
  subst hop
  cases op with
  | folds point d =>
    have hanswer := Cache.answer_congr s.settings.cache h.folds (Fold.scanUntil point)
    simp only [Scanner.perform, requestFolds, ← h.settings, hanswer.1]
    exact ⟨trivial, rfl, hanswer.2, h.symbols⟩
  | symbols point d =>
    have hanswer := Cache.answer_congr s.settings.cache h.symbols (Outline.scanUntil point)
    simp only [Scanner.perform, requestSymbols, ← h.settings, hanswer.1]
    exact ⟨trivial, rfl, h.folds, hanswer.2⟩
  | latest uri =>
    refine ⟨?_, h⟩
    simp only [Scanner.perform, latestSymbols?]
    rw [show s.symbols.latest? uri = t.symbols.latest? uri from h.symbols]
  | span uri line =>
    refine ⟨?_, h⟩
    simp only [Scanner.perform, narrowingSpan?, latestSymbols?]
    rw [show s.symbols.latest? uri = t.symbols.latest? uri from h.symbols]
  | forget uri =>
    refine ⟨rfl, h.settings, ?_, ?_⟩
    · simp only [Scanner.perform, forget, Operation.uri, Cache.latest?_remove, if_true]
    · simp only [Scanner.perform, forget, Operation.uri, Cache.latest?_remove, if_true]

/-- An operation on another document makes no difference. -/
theorem perform_other (h : Agree uri s t) (hop : op.uri ≠ uri) :
    Agree uri (s.perform op).2 t := by
  have hne := Ne.symm hop
  refine ⟨(settings_perform s op).trans h.settings, ?_, ?_⟩
  · rw [← h.folds]
    cases op with
    | folds point d => exact Cache.latest?_answer_ne _ _ _ hne
    | forget other => exact (Cache.latest?_remove s.folds other uri).trans (if_neg hne)
    | symbols _ _ | latest _ | span _ _ => rfl
  · rw [← h.symbols]
    cases op with
    | symbols point d => exact Cache.latest?_answer_ne _ _ _ hne
    | forget other => exact (Cache.latest?_remove s.symbols other uri).trans (if_neg hne)
    | folds _ _ | latest _ | span _ _ => rfl

theorem after (settings : Settings) (history : List Operation) (uri : String) :
    Agree uri (after settings history) (after settings (history.filter (·.uri = uri))) := by
  induction history using List.reverseRecOn with
  | nil => exact ⟨rfl, rfl, rfl⟩
  | append_singleton history op ih =>
    rw [after_append, List.filter_append]
    by_cases hop : op.uri = uri
    · rw [List.filter_cons_of_pos (by simpa using hop), List.filter_nil, after_append]
      exact (ih.perform hop).2
    · rw [List.filter_cons_of_neg (by simpa using hop), List.filter_nil, List.append_nil]
      exact ih.perform_other hop

end Agree

/-- Requests for folds make no difference to the outlines kept. -/
theorem symbols_after_filter (settings : Settings) (history : List Operation) :
    (after settings (history.filter (!·.isFolds))).symbols = (after settings history).symbols := by
  induction history using List.reverseRecOn with
  | nil => rfl
  | append_singleton history op ih =>
    have hsettings : (after settings (history.filter (!·.isFolds))).settings =
        (after settings history).settings := by
      rw [settings_after, settings_after]
    rw [List.filter_append, after_append]
    cases op with
    | folds point d =>
      rw [List.filter_cons_of_neg (by simp [Operation.isFolds]), List.filter_nil, List.append_nil]
      exact ih
    | symbols point d =>
      rw [List.filter_cons_of_pos rfl, List.filter_nil, after_append]
      simp only [perform, requestSymbols, ih, hsettings]
    | latest _ | span _ _ =>
      rw [List.filter_cons_of_pos rfl, List.filter_nil, after_append]
      exact ih
    | forget uri =>
      rw [List.filter_cons_of_pos rfl, List.filter_nil, after_append]
      simp only [perform, forget, ih]

theorem perform_of_isError {s : Scanner} {op : Operation}
    (h : (s.perform op).1.isError = true) : (s.perform op).2 = s := by
  cases op with
  | folds point d =>
    cases hanswer : (s.folds.answer s.settings.cache d (Fold.scanUntil point)).1 with
    | error e => simp only [perform, requestFolds, Cache.answer_of_error hanswer]
    | ok value => simp [perform, requestFolds, hanswer, Answer.isError] at h
  | symbols point d =>
    cases hanswer : (s.symbols.answer s.settings.cache d (Outline.scanUntil point)).1 with
    | error e => simp only [perform, requestSymbols, Cache.answer_of_error hanswer]
    | ok value => simp [perform, requestSymbols, hanswer, Answer.isError] at h
  | latest _ | span _ _ => rfl
  | forget _ => cases h

theorem symbols_after_of_not_cache {settings : Settings} (hcache : settings.cache = false)
    (history : List Operation) : (after settings history).symbols = ∅ := by
  induction history using List.reverseRecOn with
  | nil => rfl
  | append_singleton history op ih =>
    have hoff := cache_after hcache history
    rw [after_append]
    cases op with
    | symbols point d => simp only [perform, requestSymbols, hoff, Cache.answer_false, ih]
    | folds _ _ | latest _ | span _ _ => exact ih
    | forget uri =>
      simp only [perform, forget, ih]
      rfl

/-- What a run of operations leaves behind in a scanner, as far as later operations can tell. -/
structure Remembers (settings : Settings) (history : List Operation) : Prop where
  /-- The outline kept is the last one that a scan has brought. -/
  latest : settings.cache = true → ∀ uri outline,
    (after settings history).latestSymbols? uri = some outline ↔
      ∃ version, LastResult settings history .symbols uri version (.symbols (.ok outline))
  /-- Nothing is read exactly for the version of the last result. -/
  unread : settings.cache = true → ∀ op service uri version,
    op.asked? = some (service, uri, version) →
      ((after settings history).Unread op ↔
        ∃ result, LastResult settings history service uri version result)
  /-- The last result is given again to every request for its version. -/
  again : settings.cache = true → ∀ op service uri version result,
    op.asked? = some (service, uri, version) →
      LastResult settings history service uri version result →
      ((after settings history).perform op).1 = result
  /-- A request that fails might as well not have been made. -/
  error : ∀ op, ((after settings history).perform op).1.isError = true → ∀ later,
    after settings (history ++ op :: later) = after settings (history ++ later)
  folds : ∀ uri line,
    (after settings history).latestSymbols? uri =
        (after settings (history.filter (!·.isFolds))).latestSymbols? uri ∧
      (after settings history).narrowingSpan? uri line =
        (after settings (history.filter (!·.isFolds))).narrowingSpan? uri line
  apart : ∀ op, ((after settings history).perform op).1 =
    ((after settings (history.filter (·.uri = op.uri))).perform op).1
  off : settings.cache = false → ∀ uri line,
    (after settings history).latestSymbols? uri = none ∧
      (after settings history).narrowingSpan? uri line = none

theorem latestSymbols?_eq_some_iff {s : Scanner} {uri : String} {outline : List (Tree Symbol)} :
    s.latestSymbols? uri = some outline ↔
      ∃ version, s.kept? .symbols uri = some (version, .symbols (.ok outline)) := by
  unfold latestSymbols? kept?
  cases s.symbols.latest? uri with
  | none => simp
  | some e => simp

/-- A scanner remembers the last results of its run and nothing else. -/
theorem remembers (settings : Settings) (history : List Operation) :
    Remembers settings history where
  latest := by
    intro hcache uri outline
    rw [latestSymbols?_eq_some_iff]
    simp only [kept?_after_iff hcache]
  unread := by
    intro hcache op service uri version hop
    rw [unread_iff (cache_after hcache history) hop]
    simp only [kept?_after_iff hcache]
  again := by
    intro hcache op service uri version result hop hlast
    have hkept := (kept?_after_iff hcache).2 hlast
    rw [perform_of_kept (cache_after hcache history) hop hkept]
  error := by
    intro op herror later
    simp only [after, List.foldl_append, List.foldl_cons]
    exact congrArg (later.foldl _) (perform_of_isError herror)
  folds := by
    intro uri line
    unfold narrowingSpan? latestSymbols?
    rw [symbols_after_filter]
    exact ⟨rfl, rfl⟩
  apart op := ((Agree.after settings history op.uri).perform rfl).1
  off := by
    intro hcache uri line
    unfold narrowingSpan? latestSymbols?
    rw [symbols_after_of_not_cache hcache]
    exact ⟨rfl, rfl⟩

end Scanner

end TalOutline
