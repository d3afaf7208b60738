import TalOutline.Proofs.Editor.Replies
import TalOutline.Proofs.Scanner.Memory

/-!
Requests that overlap with other messages. A request takes its document when it begins and is
scanned for when it is completed. If the document is closed in between, its result is kept
nevertheless, and may be given later for another text with the same version. Otherwise all replies
are right.
-/
namespace TalOutline

def Settings.offers (settings : Settings) : Service → Bool
  | .folds => settings.folding
  | .symbols => settings.symbols

namespace Editor

/-- A request that has begun, with the document it has taken, if there was one to take. -/
structure Request where
  service : Service
  document : Option Document

/-- A session and its requests in flight, by their ids. -/
structure Busy where
  session : Session
  flight : Table Request

/-- What happens one after the other in a session with overlapping requests. -/
inductive Event where
  | opened (uri : String) (version : Int) (text : String)
  | changed (uri : String) (version : Int) (texts : List String)
  | closed (uri : String)
  | begun (id : String) (service : Service) (uri : String)
  | completed (id : String)
  deriving DecidableEq

def Session.snapshot? (s : Session) (service : Service) (uri : String) : Option Document :=
  match service with
  | .folds => s.snapshotFolds? uri
  | .symbols => s.snapshotSymbols? uri

/-- Scans the document that a request has taken, if it has taken one. -/
def Session.complete (s : Session) (r : Request) : Session × Reply :=
  match r.service, r.document with
  | .folds, none => (s, .folds none)
  | .folds, some d => ((s.completeFolds d).2, .folds (s.completeFolds d).1)
  | .symbols, none => (s, .symbols none)
  | .symbols, some d => ((s.completeSymbols d).2, .symbols (s.completeSymbols d).1)

namespace Busy

def new (settings : Settings) : Busy :=
  ⟨Session.new.configure settings, ∅⟩

def step (b : Busy) : Event → Busy × Reply
  | .opened uri version text => ({ b with session := b.session.store uri version text }, .nothing)
  | .changed uri version texts =>
    ({ b with session := b.session.change uri version texts }, .nothing)
  | .closed uri => ({ b with session := b.session.close uri }, .nothing)
  | .begun id service uri =>
    ({ b with flight := b.flight.insert id ⟨service, b.session.snapshot? service uri⟩ }, .nothing)
  | .completed id =>
    let done : Session × Reply :=
      match b.flight.get? id with
      | none => (b.session, .nothing)
      | some r => b.session.complete r
    (⟨done.1, b.flight.erase id⟩, done.2)

def after (settings : Settings) (history : List Event) : Busy :=
  history.foldl (fun b e => (b.step e).1) (.new settings)

end Busy

namespace Event

/-- What an event tells about a document. -/
def message? : Event → Option Message
  | .opened uri version text => some (.opened uri version text)
  | .changed uri version texts => some (.changed uri version texts)
  | .closed uri => some (.closed uri)
  | .begun _ _ _ | .completed _ => none

/-- The request that an event belongs to. -/
def id? : Event → Option String
  | .begun id _ _ | .completed id => some id
  | .opened _ _ _ | .changed _ _ _ | .closed _ => none

end Event

def messages (history : List Event) : List Message :=
  history.filterMap Event.message?

/-- At every moment, the versions of a document stored since it was last closed have increased. -/
def Rising (history : List Event) : Prop :=
  ∀ earlier, earlier <+: history → ∀ uri,
    (stored uri (messages earlier)).Pairwise fun late early => early.1 < late.1

/-- A request has begun after some events and has not been completed since. -/
def InFlight (history before : List Event) (id : String) (service : Service) (uri : String) :
    Prop :=
  ∃ between, history = before ++ .begun id service uri :: between ∧ ∀ e ∈ between, e.id? ≠ some id

/-- No request on a document is completed after the document was closed while it was in flight. -/
def Uncrossed (uri : String) (history : List Event) : Prop :=
  ∀ before id service between later,
    history = before ++ .begun id service uri :: (between ++ .completed id :: later) →
    (∀ e ∈ between, e.id? ≠ some id) → .closed uri ∉ between

/-- The version and text that a request takes for a document, if its service is offered. -/
def taken? (settings : Settings) (before : List Event) (service : Service) (uri : String) :
    Option (Int × String) :=
  if settings.offers service then (stored uri (messages before)).head? else none

/-- The reply that a text deserves, or null without one. -/
def ownReply (service : Service) (text : Option String) : Reply :=
  match service with
  | .folds => .folds (text.map fun t => Fold.all (Document.linesOf t.toList))
  | .symbols =>
    .symbols (text.map fun t => documentSymbols (Outline.symbols (Document.linesOf t.toList)))

theorem messages_append (history later : List Event) :
    messages (history ++ later) = messages history ++ messages later :=
  List.filterMap_append

theorem closed_mem_messages {uri : String} {history : List Event} :
    Message.closed uri ∈ messages history ↔ Event.closed uri ∈ history := by
  unfold messages
  rw [List.mem_filterMap]
  constructor
  · intro h
    obtain ⟨e, he, hm⟩ := h
    cases e <;> cases hm
    exact he
  · intro h
    exact ⟨_, h, rfl⟩

/-- A text that counts goes on to count until the document is closed. -/
theorem mem_stored_append {uri : String} {history later : List Event} {e : Int × String}
    (he : e ∈ stored uri (messages history)) (hopen : .closed uri ∉ later) :
    e ∈ stored uri (messages (history ++ later)) := by
  rw [messages_append]
  have hopen : Message.closed uri ∉ messages later := by
    rw [closed_mem_messages]
    exact hopen
  generalize messages later = later at hopen
  induction later using List.reverseRecOn with
  | nil =>
    rw [List.append_nil]
    exact he
  | append_singleton later m ih =>
    rw [← List.append_assoc, stored_append, mem_keep_iff]
    constructor
    · intro hm
      exact hopen (by simp [hm])
    · right
      apply ih
      intro hmem
      exact hopen (List.mem_append_left _ hmem)

theorem Rising.text_eq {history : List Event} (h : Rising history) {uri : String} {version : Int}
    {text other : String} (ht : (version, text) ∈ stored uri (messages history))
    (ho : (version, other) ∈ stored uri (messages history)) : text = other := by
  have hpairwise := List.pairwise_iff_getElem.1 (h history (List.prefix_refl history) uri)
  obtain ⟨i, hi, hit⟩ := List.getElem_of_mem ht
  obtain ⟨j, hj, hjo⟩ := List.getElem_of_mem ho
  rcases Nat.lt_trichotomy i j with hlt | heq | hlt
  · have hversion := hpairwise i j hi hj hlt
    rw [hit, hjo] at hversion
    exact absurd hversion (Int.lt_irrefl version)
  · subst heq
    exact congrArg Prod.snd (hit.symm.trans hjo)
  · have hversion := hpairwise j i hj hi hlt
    rw [hit, hjo] at hversion
    exact absurd hversion (Int.lt_irrefl version)

theorem inFlight_append_iff {history before : List Event} {e : Event} {id : String}
    {service : Service} {uri : String} :
    InFlight (history ++ [e]) before id service uri ↔
      (e = .begun id service uri ∧ before = history) ∨
        (InFlight history before id service uri ∧ e.id? ≠ some id) := by
  constructor
  · intro h
    obtain ⟨between, hsplit, hown⟩ := h
    rcases append_singleton_eq_iff.1 hsplit with ⟨-, rfl, rfl⟩ | ⟨middle, rfl, rfl⟩
    · exact .inl ⟨rfl, rfl⟩
    · right
      refine ⟨⟨middle, rfl, ?_⟩, ?_⟩
      · intro f hf
        exact hown f (List.mem_append_left _ hf)
      · exact hown e (by simp)
  · intro h
    rcases h with ⟨rfl, rfl⟩ | ⟨⟨between, rfl, hown⟩, he⟩
    · exact ⟨[], rfl, by simp⟩
    · refine ⟨between ++ [e], by simp, ?_⟩
      intro f hf
      rcases List.mem_append.1 hf with hf | hf
      · exact hown f hf
      · rw [List.mem_singleton.1 hf]
        exact he

/-- A result of a text that a request took, completed since the document was last closed. -/
def Came {α : Type} (scan : List Line → α) (settings : Settings) (history : List Event)
    (uri : String) (version : Int) (value : α) : Prop :=
  ∃ earlier id later before service text, history = earlier ++ .completed id :: later ∧
    .closed uri ∉ later ∧ InFlight earlier before id service uri ∧
    taken? settings before service uri = some (version, text) ∧
    value = scan (Document.linesOf text.toList)

theorem Came.append {α : Type} {scan : List Line → α} {settings : Settings} {history : List Event}
    {uri : String} {version : Int} {value : α} (h : Came scan settings history uri version value)
    {e : Event} (he : e ≠ .closed uri) : Came scan settings (history ++ [e]) uri version value := by
  obtain ⟨earlier, id, later, before, service, text, rfl, hopen, hrest⟩ := h
  refine ⟨earlier, id, later ++ [e], before, service, text, by simp, ?_, hrest⟩
  intro hmem
  rcases List.mem_append.1 hmem with hmem | hmem
  · exact hopen hmem
  · exact he (List.mem_singleton.1 hmem).symm

/-- A table holds the requests in flight with what they have taken. -/
def Waits (settings : Settings) (history : List Event) (flight : Table Request) : Prop :=
  ∀ id r, flight.get? id = some r ↔
    ∃ before uri, InFlight history before id r.service uri ∧
      r.document = (taken? settings before r.service uri).map fun e => .ofText uri e.1 e.2

namespace Waits

variable {settings : Settings} {history : List Event} {flight : Table Request}

theorem nil (settings : Settings) : Waits settings [] ∅ := by
  intro id r
  constructor
  · nofun
  · intro h
    obtain ⟨before, uri, ⟨between, hsplit, -⟩, -⟩ := h
    simp at hsplit

theorem message (h : Waits settings history flight) {e : Event} (he : e.id? = none) :
    Waits settings (history ++ [e]) flight := by
  intro id r
  have hbegun (service : Service) (uri : String) : e ≠ .begun id service uri := by
    rintro rfl
    cases he
  rw [h id r]
  simp [inFlight_append_iff, he, hbegun]

theorem begun (h : Waits settings history flight) (id : String) (service : Service) (uri : String)
    {document : Option Document}
    (hdocument : document = (taken? settings history service uri).map fun e =>
      .ofText uri e.1 e.2) :
    Waits settings (history ++ [.begun id service uri]) (flight.insert id ⟨service, document⟩) := by
  intro other r
  rw [Table.get?_insert]
  by_cases hid : other = id
  · subst hid
    simp only [if_true, inFlight_append_iff, Event.id?, Event.begun.injEq, true_and, ne_eq,
      not_true, and_false, or_false]
    constructor
    · intro hr
      obtain rfl := Option.some.inj hr
      exact ⟨history, uri, ⟨⟨rfl, rfl⟩, rfl⟩, hdocument⟩
    · intro hr
      obtain ⟨before, uri', ⟨⟨hservice, rfl⟩, rfl⟩, hr⟩ := hr
      cases r
      simp_all
  · rw [if_neg hid, h other r]
    simp [inFlight_append_iff, Event.id?, Ne.symm hid]

theorem completed (h : Waits settings history flight) (id : String) :
    Waits settings (history ++ [.completed id]) (flight.erase id) := by
  intro other r
  rw [Table.get?_erase]
  by_cases hid : other = id
  · simp [hid, inFlight_append_iff, Event.id?]
  · rw [if_neg hid, h other r]
    simp [inFlight_append_iff, Event.id?, Ne.symm hid]

end Waits

/-- What a session with overlapping requests has in common with its history. -/
structure Busy.Follows (settings : Settings) (history : List Event) (b : Busy) : Prop where
  inForce : b.session.settings = settings
  scanner : b.session.scanner.settings = settings
  documents : ∀ uri, b.session.documents.get? uri =
    (stored uri (messages history)).head?.map fun e => .ofText uri e.1 e.2
  flight : Waits settings history b.flight
  folds : b.session.scanner.folds.Holds (Came Fold.all settings history)
  symbols : b.session.scanner.symbols.Holds (Came Outline.symbols settings history)

namespace Busy.Follows

variable {settings : Settings} {history : List Event} {b : Busy}

theorem new (settings : Settings) : Follows settings [] (.new settings) :=
  ⟨rfl, rfl, fun _ => rfl, .nil settings, Cache.holds_empty, Cache.holds_empty⟩

private theorem holds_append {α : Type} {scan : List Line → α} {c : Cache α}
    (hc : c.Holds (Came scan settings history)) {e : Event} (he : ∀ uri, e ≠ .closed uri) :
    c.Holds (Came scan settings (history ++ [e])) :=
  hc.imp fun uri _ _ h => h.append (he uri)

private theorem holds_close {α : Type} {scan : List Line → α} {c : Cache α}
    (hc : c.Holds (Came scan settings history)) (uri : String) :
    (c.remove uri).1.Holds (Came scan settings (history ++ [.closed uri])) := by
  refine (hc.remove uri).imp ?_
  intro other version value h
  obtain ⟨hne, h⟩ := h
  exact h.append fun he => hne (Event.closed.inj he).symm

private theorem stored_message {e : Event} {m : Message} (he : e.message? = some m)
    (uri : String) :
    stored uri (messages (history ++ [e])) = m.keep uri (stored uri (messages history)) := by
  rw [messages_append, ← stored_append, messages, messages, List.filterMap_cons_some he]
  rfl

private theorem messages_request {e : Event} (he : e.message? = none) :
    messages (history ++ [e]) = messages history := by
  rw [messages_append, messages, messages, List.filterMap_cons_none he]
  exact List.append_nil _

theorem store (h : Follows settings history b) {e : Event} {uri text : String} {version : Int}
    (he : e.id? = none) (hopen : ∀ uri, e ≠ .closed uri)
    (hstored : ∀ other, stored other (messages (history ++ [e])) =
      if other = uri then (version, text) :: stored other (messages history)
      else stored other (messages history)) :
    Follows settings (history ++ [e]) { b with session := b.session.store uri version text } where
  inForce := h.inForce
  scanner := h.scanner
  documents := by
    intro other
    rw [hstored, Session.store, Table.get?_insert]
    by_cases ho : other = uri
    · simp [ho]
    · simp only [ho, if_false]
      exact h.documents other
  flight := h.flight.message he
  folds := holds_append h.folds hopen
  symbols := holds_append h.symbols hopen

theorem opened (h : Follows settings history b) (uri : String) (version : Int) (text : String) :
    Follows settings (history ++ [.opened uri version text])
      (b.step (.opened uri version text)).1 := by
  refine h.store rfl nofun ?_
  intro other
  rw [stored_message rfl]
  by_cases ho : other = uri
  · simp [Message.keep, Message.stored?, ho]
  · simp [Message.keep, Message.stored?, ho, Ne.symm ho]

theorem changed (h : Follows settings history b) (uri : String) (version : Int)
    (texts : List String) :
    Follows settings (history ++ [.changed uri version texts])
      (b.step (.changed uri version texts)).1 := by
  have hopen (other : String) : Event.changed uri version texts ≠ .closed other := nofun
  have hstored (other : String) :
      stored other (messages (history ++ [.changed uri version texts])) =
        (if uri = other then texts.getLast?.map (version, ·) else none).toList ++
          stored other (messages history) := by
    rw [stored_message rfl]
    rfl
  simp only [step, Session.change]
  cases ht : texts.getLast? with
  | none =>
    have hsame (other : String) :
        stored other (messages (history ++ [.changed uri version texts])) =
          stored other (messages history) := by
      rw [hstored, ht]
      simp
    refine ⟨h.inForce, h.scanner, ?_, h.flight.message rfl, holds_append h.folds hopen,
      holds_append h.symbols hopen⟩
    intro other
    rw [hsame]
    exact h.documents other
  | some text =>
    refine h.store rfl hopen ?_
    intro other
    rw [hstored, ht]
    by_cases ho : other = uri
    · simp [ho]
    · simp [ho, Ne.symm ho]

theorem closed (h : Follows settings history b) (uri : String) :
    Follows settings (history ++ [.closed uri]) (b.step (.closed uri)).1 where
  inForce := h.inForce
  scanner := h.scanner
  documents := by
    intro other
    rw [stored_message rfl, Message.keep, step, Session.close, Table.get?_erase]
    by_cases ho : other = uri
    · simp [ho]
    · simp only [ho, Ne.symm ho, if_false]
      exact h.documents other
  flight := h.flight.message rfl
  folds := holds_close h.folds uri
  symbols := holds_close h.symbols uri

/-- A request takes the text stored last. -/
theorem snapshot?_eq (h : Follows settings history b) (service : Service) (uri : String) :
    b.session.snapshot? service uri =
      (taken? settings history service uri).map fun e => .ofText uri e.1 e.2 := by
  unfold Session.snapshot? taken? Settings.offers
  cases service with
  | folds =>
    simp only [Session.snapshotFolds?, h.inForce, h.documents]
    cases settings.folding <;> rfl
  | symbols =>
    simp only [Session.snapshotSymbols?, h.inForce, h.documents]
    cases settings.symbols <;> rfl

theorem begun (h : Follows settings history b) (id : String) (service : Service) (uri : String) :
    Follows settings (history ++ [.begun id service uri])
      (b.step (.begun id service uri)).1 where
  inForce := h.inForce
  scanner := h.scanner
  documents := by
    rw [messages_request rfl]
    exact h.documents
  flight := h.flight.begun id service uri (h.snapshot?_eq service uri)
  folds := holds_append h.folds nofun
  symbols := holds_append h.symbols nofun

/-- A completed request adds the result of the text that it took. -/
theorem completed (h : Follows settings history b) (id : String) :
    Follows settings (history ++ [.completed id]) (b.step (.completed id)).1 := by
  have hfolds := holds_append h.folds (e := .completed id) nofun
  have hsymbols := holds_append h.symbols (e := .completed id) nofun
  have hdocuments := h.documents
  rw [← messages_request (e := .completed id) rfl] at hdocuments
  simp only [step]
  cases hr : b.flight.get? id with
  | none => exact ⟨h.inForce, h.scanner, hdocuments, h.flight.completed id, hfolds, hsymbols⟩
  | some r =>
    obtain ⟨before, uri, hin, hdocument⟩ := (h.flight id r).1 hr
    obtain ⟨service, document⟩ := r
    simp only at hin hdocument
    cases htaken : taken? settings before service uri with
    | none =>
      rw [htaken] at hdocument
      subst hdocument
      cases service <;>
        exact ⟨h.inForce, h.scanner, hdocuments, h.flight.completed id, hfolds, hsymbols⟩
    | some e =>
      rw [htaken] at hdocument
      subst hdocument
      cases service with
      | folds =>
        refine ⟨h.inForce, h.scanner, hdocuments, h.flight.completed id, ?_, hsymbols⟩
        refine hfolds.answer _ _ fun value hvalue => ?_
        rw [Fold.scanUntil_never] at hvalue
        exact ⟨history, id, [], before, .folds, e.2, rfl, nofun, hin, htaken,
          (Except.ok.inj hvalue).symm⟩
      | symbols =>
        refine ⟨h.inForce, h.scanner, hdocuments, h.flight.completed id, hfolds, ?_⟩
        refine hsymbols.answer _ _ fun value hvalue => ?_
        rw [Outline.scanUntil_never] at hvalue
        exact ⟨history, id, [], before, .symbols, e.2, rfl, nofun, hin, htaken,
          (Except.ok.inj hvalue).symm⟩

theorem step (h : Follows settings history b) (e : Event) :
    Follows settings (history ++ [e]) (b.step e).1 := by
  cases e with
  | opened uri version text => exact h.opened uri version text
  | changed uri version texts => exact h.changed uri version texts
  | closed uri => exact h.closed uri
  | begun id service uri => exact h.begun id service uri
  | completed id => exact h.completed id

theorem after (settings : Settings) (history : List Event) :
    Follows settings history (.after settings history) := by
  induction history using List.reverseRecOn with
  | nil => exact new settings
  | append_singleton history e ih =>
    have hstep : Busy.after settings (history ++ [e]) =
        ((Busy.after settings history).step e).1 := by simp [Busy.after]
    rw [hstep]
    exact ih.step e

end Busy.Follows

section Replies

variable {settings : Settings} {history : List Event} {uri : String} {version : Int}
  {text : String}

theorem Uncrossed.left {later : List Event} (h : Uncrossed uri (history ++ later)) :
    Uncrossed uri history := by
  intro before id service between rest hsplit
  exact h before id service between (rest ++ later) (by simp [hsplit])

/-- When a request is completed, the text that it took still counts, since it has not crossed. -/
theorem InFlight.mem_stored {before later : List Event} {id : String} {service : Service}
    (h : InFlight history before id service uri)
    (huncrossed : Uncrossed uri (history ++ .completed id :: later))
    (ht : taken? settings before service uri = some (version, text)) :
    (version, text) ∈ stored uri (messages history) := by
  obtain ⟨between, rfl, hown⟩ := h
  have hbetween : .closed uri ∉ between :=
    huncrossed before id service between later (by simp) hown
  unfold taken? at ht
  split at ht
  · apply mem_stored_append (List.mem_of_head? ht)
    simp [hbetween]
  · cases ht

/-- Without crossing requests, what came for a version came from the text that counts. -/
theorem Came.eq_of_uncrossed {α : Type} {scan : List Line → α} {value : α}
    (h : Came scan settings history uri version value) (hrising : Rising history)
    (huncrossed : Uncrossed uri history)
    (ht : (version, text) ∈ stored uri (messages history)) :
    value = scan (Document.linesOf text.toList) := by
  obtain ⟨earlier, id, later, before, service, other, rfl, hlater, hflight, htaken, rfl⟩ := h
  have hearlier := hflight.mem_stored huncrossed htaken
  have hother : (version, other) ∈ stored uri (messages (earlier ++ .completed id :: later)) := by
    apply mem_stored_append hearlier
    simp [hlater]
  rw [hrising.text_eq hother ht]

end Replies

/--
A reply is that of the text which the request took when it began, as long as no request on the
document is completed after the document was closed while it was in flight.
-/
theorem reply_eq_of_uncrossed (settings : Settings) (history before : List Event) (id : String)
    (service : Service) (uri : String) (hflight : InFlight history before id service uri)
    (hrising : Rising history)
    (huncrossed : settings.cache = true → Uncrossed uri (history ++ [.completed id])) :
    ((Busy.after settings history).step (.completed id)).2 =
      ownReply service ((taken? settings before service uri).map Prod.snd) := by
  have h := Busy.Follows.after settings history
  have hr : (Busy.after settings history).flight.get? id = some ⟨service,
      (taken? settings before service uri).map fun e => .ofText uri e.1 e.2⟩ :=
    (h.flight id _).2 ⟨before, uri, hflight, rfl⟩
  simp only [Busy.step, hr]
  cases htaken : taken? settings before service uri with
  | none => cases service <;> rfl
  | some e =>
    obtain ⟨version, text⟩ := e
    have honly {α : Type} {scan : List Line → α} :
        (Busy.after settings history).session.scanner.settings.cache = true →
        ∀ kept, Came scan settings history uri version kept →
          kept = scan (Document.linesOf text.toList) := by
      intro hcache kept hkept
      rw [h.scanner] at hcache
      have hcalm := huncrossed hcache
      exact hkept.eq_of_uncrossed hrising hcalm.left (hflight.mem_stored hcalm htaken)
    cases service with
    | folds =>
      have hanswer := h.folds.answer_own (d := .ofText uri version text)
        (Fold.scanUntil_never _) honly
      simp only [Session.complete, Option.map_some, Session.completeFolds, Scanner.requestFolds,
        hanswer]
      rfl
    | symbols =>
      have hanswer := h.symbols.answer_own (d := .ofText uri version text)
        (Outline.scanUntil_never _) honly
      simp only [Session.complete, Option.map_some, Session.completeSymbols,
        Scanner.requestSymbols, hanswer]
      rfl

/-- A document changes while a request is in flight, and is then closed and opened again. -/
def overlapping : List Event :=
  [.opened "a" 1 "begin\n\nend", .begun "1" .folds "a", .changed "a" 2 [""], .completed "1",
    .closed "a", .opened "a" 1 "", .begun "2" .folds "a"]

private theorem rising_overlapping : Rising overlapping := by
  intro earlier hearlier uri
  simp only [overlapping, List.prefix_cons_iff, List.prefix_nil] at hearlier
  rcases hearlier with rfl | ⟨_, rfl, rfl | ⟨_, rfl, rfl | ⟨_, rfl, rfl | ⟨_, rfl, rfl |
    ⟨_, rfl, rfl | ⟨_, rfl, rfl | ⟨_, rfl, rfl⟩⟩⟩⟩⟩⟩⟩ <;> by_cases huri : "a" = uri <;>
    simp [messages, Event.message?, stored, Message.keep, Message.stored?, huri,
      List.filterMap_cons]

private theorem uncrossed_overlapping : Uncrossed "a" (overlapping ++ [.completed "2"]) := by
  intro before id service between later hsplit hown
  simp [overlapping, List.cons_eq_append_iff] at hsplit
  obtain ⟨_, -, ⟨-, ⟨rfl, -⟩, hrest⟩ | ⟨-, ⟨rfl, -⟩, hrest⟩⟩ := hsplit
  · match between with
    | [] => simp
    | [_] => simp_all
    | _ :: _ :: _ => simp_all [Event.id?]
  · match between with
    | [] => simp
    | _ :: _ => simp_all

theorem reply_eq_of_uncrossed_overlapping :
    InFlight overlapping (overlapping.take 6) "2" .folds "a" ∧ Rising overlapping ∧
      Uncrossed "a" (overlapping ++ [.completed "2"]) ∧
      ((Busy.after {} overlapping).step (.completed "2")).2 = ownReply .folds (some "") := by
  have hflight : InFlight overlapping (overlapping.take 6) "2" .folds "a" := ⟨[], rfl, nofun⟩
  refine ⟨hflight, rising_overlapping, uncrossed_overlapping, ?_⟩
  exact reply_eq_of_uncrossed {} overlapping _ "2" .folds "a" hflight rising_overlapping
    fun _ => uncrossed_overlapping

/-- A request is completed after its document was closed, and another one begins on a new text. -/
def crossing : List Event :=
  [.opened "a" 1 "begin\n\nend", .begun "1" .folds "a", .closed "a", .completed "1",
    .opened "a" 1 "", .begun "2" .folds "a"]

private theorem rising_crossing : Rising crossing := by
  intro earlier hearlier uri
  simp only [crossing, List.prefix_cons_iff, List.prefix_nil] at hearlier
  rcases hearlier with rfl | ⟨_, rfl, rfl | ⟨_, rfl, rfl | ⟨_, rfl, rfl | ⟨_, rfl, rfl |
    ⟨_, rfl, rfl | ⟨_, rfl, rfl⟩⟩⟩⟩⟩⟩ <;> by_cases huri : "a" = uri <;>
    simp [messages, Event.message?, stored, Message.keep, Message.stored?, huri,
      List.filterMap_cons]

/-- Rising versions alone do not make every reply that of the text which its request took. -/
theorem not_reply_own : ¬ ∀ settings history before id service uri,
    InFlight history before id service uri → Rising history →
    ((Busy.after settings history).step (.completed id)).2 =
      ownReply service ((taken? settings before service uri).map Prod.snd) := by
  intro h
  have hreply := h {} crossing (crossing.take 5) "2" .folds "a" ⟨[], rfl, nofun⟩ rising_crossing
  have hkept : ((Busy.after {} crossing).step (.completed "2")).2 =
      .folds (some [⟨0, 1, .region⟩]) := rfl
  rw [hkept] at hreply
  cases hreply

end Editor

end TalOutline
