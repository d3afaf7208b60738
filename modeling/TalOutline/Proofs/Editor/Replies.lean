import TalOutline.Editor.Message
import TalOutline.Proofs.Scanner.Kept

/-!
The replies of a session follow from what has been told to it. They depend on the settings of the
last start and on the text stored last, and never on what the scanner keeps.
-/
namespace TalOutline.Editor

/-- The version and text of a document that a message stores. -/
def Message.stored? (uri : String) : Message → Option (Int × String)
  | .opened other version text => if other = uri then some (version, text) else none
  | .changed other version texts =>
    if other = uri then texts.getLast?.map (version, ·) else none
  | _ => none

/-- The texts of a document stored since it was last closed, the latest first, after a message. -/
def Message.keep (uri : String) (kept : List (Int × String)) : Message → List (Int × String)
  | .closed other => if other = uri then [] else kept
  | m => (m.stored? uri).toList ++ kept

/-- The versions and texts of a document stored since it was last closed, the latest first. -/
def stored (uri : String) (history : List Message) : List (Int × String) :=
  history.foldl (Message.keep uri) []

/-- The text of a document stored last, unless the document has been closed since. -/
def lastText? (uri : String) (history : List Message) : Option String :=
  (stored uri history).head?.map Prod.snd

/-- The settings of the last start, or those in force before any. -/
def settingsAfter (history : List Message) : Settings :=
  history.foldl (fun settings m => match m with | .start told => told.settings | _ => settings) {}

def Session.after (history : List Message) : Session :=
  history.foldl (fun s m => (s.handle m).1) .new

/--
Two texts of a document stored with the same version are equal, unless the document has been
closed in between.
-/
def Steady (history : List Message) : Prop :=
  ∀ before first between second after uri version text other,
    history = before ++ first :: (between ++ second :: after) →
    first.stored? uri = some (version, text) → second.stored? uri = some (version, other) →
    .closed uri ∉ between → text = other

theorem stored_append (uri : String) (history : List Message) (m : Message) :
    stored uri (history ++ [m]) = m.keep uri (stored uri history) := by
  simp [stored]

theorem mem_keep_iff {uri : String} {kept : List (Int × String)} {m : Message}
    {e : Int × String} :
    e ∈ m.keep uri kept ↔ m ≠ .closed uri ∧ (m.stored? uri = some e ∨ e ∈ kept) := by
  cases m with
  | closed other =>
    rw [Message.keep]
    by_cases h : other = uri
    · simp [h]
    · simp [h, Message.stored?]
  | start _ | started | shutdown | opened _ _ _ | changed _ _ _ | askFolds _ | askSymbols _ =>
    simp [Message.keep]

/-- A text that counts has been stored by a message after which the document was not closed. -/
theorem mem_foldl_keep {uri : String} {kept : List (Int × String)} {history : List Message}
    {e : Int × String} (he : e ∈ history.foldl (Message.keep uri) kept) :
    (e ∈ kept ∧ .closed uri ∉ history) ∨ ∃ before m after, history = before ++ m :: after ∧
      m.stored? uri = some e ∧ .closed uri ∉ after := by
  induction history generalizing kept with
  | nil => exact .inl ⟨he, nofun⟩
  | cons m rest ih =>
    rcases ih he with ⟨hk, hrest⟩ | ⟨before, n, after, hrest, hn, hafter⟩
    · obtain ⟨hm, hs | hk⟩ := mem_keep_iff.1 hk
      · exact .inr ⟨[], m, rest, rfl, hs, hrest⟩
      · refine .inl ⟨hk, ?_⟩
        intro hc
        rcases List.mem_cons.1 hc with hc | hc
        · exact hm hc.symm
        · exact hrest hc
    · exact .inr ⟨m :: before, n, after, by rw [hrest]; rfl, hn, hafter⟩

private theorem Steady.eq_of_le {history before t a₁ a₂ : List Message} (h : Steady history)
    {m₁ m₂ : Message} {uri : String} {version : Int} {text other : String}
    (h₁ : history = before ++ m₁ :: a₁) (ht : m₁ :: a₁ = t ++ m₂ :: a₂)
    (hm₁ : m₁.stored? uri = some (version, text)) (hm₂ : m₂.stored? uri = some (version, other))
    (ha₁ : .closed uri ∉ a₁) : text = other := by
  cases t with
  | nil =>
    obtain ⟨rfl, -⟩ := List.cons.inj ht
    rw [hm₁] at hm₂
    exact congrArg Prod.snd (Option.some.inj hm₂)
  | cons m t =>
    obtain ⟨rfl, rfl⟩ := List.cons.inj ht
    exact h before m₁ t m₂ a₂ uri version text other h₁ hm₁ hm₂
      fun hc => ha₁ (List.mem_append_left _ hc)

/-- In a steady history, a version tells which of the texts that count is meant. -/
theorem Steady.eq_of_mem_stored {history : List Message} (h : Steady history) {uri : String}
    {version : Int} {text other : String} (ht : (version, text) ∈ stored uri history)
    (ho : (version, other) ∈ stored uri history) : text = other := by
  rcases mem_foldl_keep ht with ⟨hnil, -⟩ | ⟨b₁, m₁, a₁, h₁, hm₁, ha₁⟩
  · cases hnil
  rcases mem_foldl_keep ho with ⟨hnil, -⟩ | ⟨b₂, m₂, a₂, h₂, hm₂, ha₂⟩
  · cases hnil
  rcases List.append_eq_append_iff.1 (h₁.symm.trans h₂) with ⟨t, -, ht⟩ | ⟨t, -, ht⟩
  · exact h.eq_of_le h₁ ht hm₁ hm₂ ha₁
  · exact (h.eq_of_le h₂ ht hm₂ hm₁ ha₂).symm

/-- A result that a scan gave for a text stored with the version since the document was closed. -/
def Scanned {α : Type} (scan : List Line → α) (history : List Message) (uri : String)
    (version : Int) (value : α) : Prop :=
  ∃ text, (version, text) ∈ stored uri history ∧ value = scan (Document.linesOf text.toList)

theorem Scanned.append {α : Type} {scan : List Line → α} {history : List Message} {uri : String}
    {version : Int} {value : α} (h : Scanned scan history uri version value) {m : Message}
    (hm : m ≠ .closed uri) : Scanned scan (history ++ [m]) uri version value := by
  obtain ⟨text, ht, hv⟩ := h
  refine ⟨text, ?_, hv⟩
  rw [stored_append, mem_keep_iff]
  exact ⟨hm, .inr ht⟩

/-- What a session has in common with the history that led to it. -/
structure Session.Follows (history : List Message) (s : Session) : Prop where
  settings : s.settings = settingsAfter history
  documents : ∀ uri, s.documents.get? uri =
    (stored uri history).head?.map fun e => .ofText uri e.1 e.2
  folds : s.scanner.folds.Holds (Scanned Fold.all history)
  symbols : s.scanner.symbols.Holds (Scanned Outline.symbols history)

namespace Session.Follows

variable {history : List Message} {s : Session}

theorem new : Follows [] .new :=
  ⟨rfl, fun _ => rfl, Cache.holds_empty, Cache.holds_empty⟩

theorem text_of_document (h : Follows history s) {uri : String} {d : Document}
    (hd : s.documents.get? uri = some d) :
    ∃ version text, (stored uri history).head? = some (version, text) ∧
      d = .ofText uri version text := by
  rw [h.documents] at hd
  obtain ⟨⟨version, text⟩, he, rfl⟩ := Option.map_eq_some_iff.1 hd
  exact ⟨version, text, he, rfl⟩

private theorem holds_append {α : Type} {scan : List Line → α} {c : Cache α}
    (hc : c.Holds (Scanned scan history)) {m : Message} (hm : ∀ uri, m ≠ .closed uri) :
    c.Holds (Scanned scan (history ++ [m])) :=
  hc.imp fun uri _ _ h => h.append (hm uri)

private theorem holds_close {α : Type} {scan : List Line → α} {c : Cache α}
    (hc : c.Holds (Scanned scan history)) (uri : String) :
    (c.remove uri).1.Holds (Scanned scan (history ++ [.closed uri])) := by
  refine (hc.remove uri).imp ?_
  rintro other version value ⟨hne, h⟩
  exact h.append fun he => hne (Message.closed.inj he).symm

private theorem stored_of_open {m : Message} (hm : ∀ uri, m ≠ .closed uri) (uri : String) :
    stored uri (history ++ [m]) = (m.stored? uri).toList ++ stored uri history := by
  rw [stored_append]
  cases m with
  | closed other => exact absurd rfl (hm other)
  | start _ | started | shutdown | opened _ _ _ | changed _ _ _ | askFolds _ | askSymbols _ => rfl

theorem settingsAfter_append (history : List Message) (m : Message) :
    settingsAfter (history ++ [m]) =
      match m with | .start told => told.settings | _ => settingsAfter history := by
  simp only [settingsAfter, List.foldl_append, List.foldl_cons, List.foldl_nil]

theorem store (h : Follows history s) {m : Message} {uri text : String} {version : Int}
    (hm : ∀ other, m.stored? other = if uri = other then some (version, text) else none)
    (hsettings : settingsAfter (history ++ [m]) = settingsAfter history)
    (hopen : ∀ uri, m ≠ .closed uri) :
    Follows (history ++ [m]) (s.store uri version text) where
  settings := h.settings.trans hsettings.symm
  documents := by
    intro other
    rw [stored_of_open hopen, hm, Session.store, Table.get?_insert, h.documents]
    by_cases he : other = uri
    · simp [he]
    · simp [he, Ne.symm he]
  folds := holds_append h.folds hopen
  symbols := holds_append h.symbols hopen

/-- A request changes nothing but what the scanner keeps. -/
theorem ask (h : Follows history s) {m : Message} (hs : ∀ uri, m.stored? uri = none)
    (hsettings : settingsAfter (history ++ [m]) = settingsAfter history)
    (hopen : ∀ uri, m ≠ .closed uri) {scanner : Scanner}
    (hfolds : scanner.folds.Holds (Scanned Fold.all history))
    (hsymbols : scanner.symbols.Holds (Scanned Outline.symbols history)) :
    Follows (history ++ [m]) { s with scanner := scanner } where
  settings := h.settings.trans hsettings.symm
  documents := by
    intro uri
    rw [stored_of_open hopen, hs]
    exact h.documents uri
  folds := holds_append hfolds hopen
  symbols := holds_append hsymbols hopen

theorem start (h : Follows history s) (told : Start) :
    Follows (history ++ [.start told]) (s.configure told.settings) where
  settings := (settingsAfter_append history (.start told)).symm
  documents := by
    intro uri
    rw [stored_of_open (m := .start told) nofun]
    exact h.documents uri
  folds := Cache.holds_empty
  symbols := Cache.holds_empty

theorem close (h : Follows history s) (uri : String) :
    Follows (history ++ [.closed uri]) (s.close uri) where
  settings := h.settings.trans (settingsAfter_append history (.closed uri)).symm
  documents := by
    intro other
    rw [stored_append, Message.keep, Session.close, Table.get?_erase, h.documents]
    by_cases he : other = uri
    · simp [he]
    · simp [he, Ne.symm he]
  folds := holds_close h.folds uri
  symbols := holds_close h.symbols uri

theorem askFolds (h : Follows history s) (uri : String) :
    Follows (history ++ [.askFolds uri]) (s.folds uri).2 := by
  have hsettings := settingsAfter_append history (.askFolds uri)
  unfold Session.folds
  split
  · exact h.ask (fun _ => rfl) hsettings nofun h.folds h.symbols
  · next d hd =>
    unfold Session.snapshotFolds? at hd
    split at hd
    · obtain ⟨version, text, ht, rfl⟩ := h.text_of_document hd
      refine h.ask (fun _ => rfl) hsettings nofun (h.folds.answer _ _ ?_) h.symbols
      intro value hv
      rw [Fold.scanUntil_never] at hv
      exact ⟨text, List.mem_of_head? ht, (Except.ok.inj hv).symm⟩
    · cases hd

theorem askSymbols (h : Follows history s) (uri : String) :
    Follows (history ++ [.askSymbols uri]) (s.symbols uri).2 := by
  have hsettings := settingsAfter_append history (.askSymbols uri)
  unfold Session.symbols
  split
  · exact h.ask (fun _ => rfl) hsettings nofun h.folds h.symbols
  · next d hd =>
    unfold Session.snapshotSymbols? at hd
    split at hd
    · obtain ⟨version, text, ht, rfl⟩ := h.text_of_document hd
      refine h.ask (fun _ => rfl) hsettings nofun h.folds (h.symbols.answer _ _ ?_)
      intro value hv
      rw [Outline.scanUntil_never] at hv
      exact ⟨text, List.mem_of_head? ht, (Except.ok.inj hv).symm⟩
    · cases hd

/-- Every message keeps the session in line with its history. -/
theorem handle (h : Follows history s) (m : Message) :
    Follows (history ++ [m]) (s.handle m).1 := by
  have hsettings := settingsAfter_append history m
  cases m with
  | start told => exact h.start told
  | started | shutdown => exact h.ask (fun _ => rfl) hsettings nofun h.folds h.symbols
  | opened uri version text => exact h.store (fun _ => rfl) hsettings nofun
  | changed uri version texts =>
    simp only [Session.handle, Session.change]
    cases ht : texts.getLast? with
    | none =>
      -- A change without texts stores nothing, just as a request does.
      refine h.ask (fun other => ?_) hsettings nofun h.folds h.symbols
      simp [Message.stored?, ht]
    | some text =>
      refine h.store (fun other => ?_) hsettings nofun
      simp [Message.stored?, ht]
  | closed uri => exact h.close uri
  | askFolds uri => exact h.askFolds uri
  | askSymbols uri => exact h.askSymbols uri

theorem foldl (h : Follows history s) (later : List Message) :
    Follows (history ++ later) (later.foldl (fun s m => (s.handle m).1) s) := by
  induction later generalizing history s with
  | nil => rwa [List.append_nil]
  | cons m rest ih =>
    have hnext := ih (h.handle m)
    rwa [List.append_assoc] at hnext

theorem after (history : List Message) : Follows history (.after history) :=
  new.foldl history

private theorem eq_of_scanned {α : Type} {scan : List Line → α} (hsteady : Steady history)
    {uri text : String} {version : Int} (ht : (stored uri history).head? = some (version, text))
    {value : α} (hv : Scanned scan history uri version value) :
    value = scan (Document.linesOf text.toList) := by
  obtain ⟨other, ho, rfl⟩ := hv
  rw [hsteady.eq_of_mem_stored ho (List.mem_of_head? ht)]

theorem folds_eq (h : Follows history s) (hsteady : Steady history) (uri : String) :
    (s.folds uri).1 =
      if (settingsAfter history).folding then
        (lastText? uri history).map fun text => Fold.all (Document.linesOf text.toList)
      else none := by
  rw [Session.folds, Session.snapshotFolds?, h.settings, h.documents, lastText?]
  cases (settingsAfter history).folding with
  | false => rfl
  | true =>
    cases ht : (stored uri history).head? with
    | none => rfl
    | some e =>
      have hanswer := h.folds.answer_eq s.scanner.settings.cache (.ofText uri e.1 e.2)
        (Fold.scanUntil_never _) fun _ => eq_of_scanned hsteady ht
      simp only [if_true, Option.map_some, Session.completeFolds, Scanner.requestFolds, hanswer]
      rfl

theorem symbols_eq (h : Follows history s) (hsteady : Steady history) (uri : String) :
    (s.symbols uri).1 =
      if (settingsAfter history).symbols then
        (lastText? uri history).map fun text =>
          documentSymbols (Outline.symbols (Document.linesOf text.toList))
      else none := by
  rw [Session.symbols, Session.snapshotSymbols?, h.settings, h.documents, lastText?]
  cases (settingsAfter history).symbols with
  | false => rfl
  | true =>
    cases ht : (stored uri history).head? with
    | none => rfl
    | some e =>
      have hanswer := h.symbols.answer_eq s.scanner.settings.cache (.ofText uri e.1 e.2)
        (Outline.scanUntil_never _) fun _ => eq_of_scanned hsteady ht
      simp only [if_true, Option.map_some, Session.completeSymbols, Scanner.requestSymbols, hanswer]
      rfl

end Session.Follows

/--
In a steady history, a reply is null exactly if its service is off or no text is stored. Otherwise
it is what a scan of the text stored last gives, in the form that editors take.
-/
theorem reply_eq_of_steady (history : List Message) (hsteady : Steady history) (uri : String) :
    (((Session.after history).handle (.askFolds uri)).2.json = .null ↔
      (settingsAfter history).folding = false ∨ lastText? uri history = none) ∧
    (∀ text, (settingsAfter history).folding = true → lastText? uri history = some text →
      ((Session.after history).handle (.askFolds uri)).2.json =
        .array ((Fold.all (Document.linesOf text.toList)).map foldJson)) ∧
    (((Session.after history).handle (.askSymbols uri)).2.json = .null ↔
      (settingsAfter history).symbols = false ∨ lastText? uri history = none) ∧
    (∀ text, (settingsAfter history).symbols = true → lastText? uri history = some text →
      ((Session.after history).handle (.askSymbols uri)).2.json =
        .array (symbolsJson
          (documentSymbols (Outline.symbols (Document.linesOf text.toList))))) := by
  have hfolds := (Session.Follows.after history).folds_eq hsteady uri
  have hsymbols := (Session.Follows.after history).symbols_eq hsteady uri
  simp only [Session.handle, hfolds, hsymbols]
  refine ⟨?_, ?_, ?_, ?_⟩
  · cases (settingsAfter history).folding <;> cases lastText? uri history <;> simp [Reply.json]
  · intro text hf ht
    rw [hf, ht]
    rfl
  · cases (settingsAfter history).symbols <;> cases lastText? uri history <;> simp [Reply.json]
  · intro text hs ht
    rw [hs, ht]
    rfl

/-- A document is closed and opened again with a version it had before and another text. -/
def reopened : List Message :=
  [.opened "a" 1 "", .askFolds "a", .closed "a", .opened "a" 1 "begin\n\nend"]

private theorem steady_reopened : Steady reopened := by
  intro before first between second after uri version text other h hf hs hc
  match before, between with
  | [], [] | [], [_] =>
    cases h
    cases hs
  | [], [_, _] =>
    cases h
    simp only [Message.stored?, Option.ite_none_right_eq_some] at hf
    obtain ⟨rfl, -⟩ := hf
    simp at hc
  | [_], _ =>
    simp only [reopened, List.cons_append, List.nil_append, List.cons.injEq] at h
    obtain ⟨-, rfl, -⟩ := h
    cases hf
  | [_, _], _ =>
    simp only [reopened, List.cons_append, List.nil_append, List.cons.injEq] at h
    obtain ⟨-, -, rfl, -⟩ := h
    cases hf
  | [], _ :: _ :: _ :: _ | [_, _, _], _ | _ :: _ :: _ :: _ :: _, _ => simp [reopened] at h

theorem reply_eq_of_steady_reopened :
    Steady reopened ∧ ((Session.after reopened).handle (.askFolds "a")).2.json =
      .array ((Fold.all (Document.linesOf "begin\n\nend".toList)).map foldJson) :=
  ⟨steady_reopened,
    (reply_eq_of_steady reopened steady_reopened "a").2.1 "begin\n\nend" rfl rfl⟩

end TalOutline.Editor
