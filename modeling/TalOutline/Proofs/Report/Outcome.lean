import TalOutline.Proofs.Disk.Parent
import TalOutline.Proofs.Disk.Walk
import TalOutline.Proofs.Scanner.Kept
import TalOutline.Report.File

/-!
When a file is reported on, and what the report depends on. Settings are needed, but they make no
difference: they must be valid, and then the report is that of the input's lines.
-/
namespace TalOutline

/-- A file whose bytes are the text in UTF-8. -/
def Entry.Reads (e : Entry) (text : String) : Prop :=
  ∃ contents, e = .file contents ∧ String.fromUTF8? contents = some text

theorem Entry.text_eq_ok_iff {e : Entry} {text : String} : e.text = .ok text ↔ e.Reads text := by
  unfold Entry.text Entry.Reads
  cases e with
  | file contents => cases h : String.fromUTF8? contents <;> simp [h]
  | _ => simp

/-- The bytes of a valid settings file, and the settings in it. -/
def Settings.WrittenIn (contents : ByteArray) (s : Settings) : Prop :=
  ∃ text, String.fromUTF8? contents = some text ∧ ofToml? text = some s

theorem Settings.load_eq_ok_iff {disk : Disk} {path : String} {s : Settings} :
    load disk path = .ok s ↔ ∃ contents, disk path = .file contents ∧ WrittenIn contents s := by
  have hload : load disk path = .ok s ↔
      ∃ text, (disk path).text = .ok text ∧ ofToml? text = some s := by
    unfold load
    cases (disk path).text with
    | error cause => simp
    | ok text => cases h : ofToml? text <;> simp [h]
  rw [hload]
  simp only [Entry.text_eq_ok_iff, Entry.Reads, WrittenIn]
  constructor
  · rintro ⟨text, ⟨contents, hfile, htext⟩, hs⟩
    exact ⟨contents, hfile, text, htext, hs⟩
  · rintro ⟨contents, hfile, text, htext, hs⟩
    exact ⟨text, ⟨contents, hfile, htext⟩, hs⟩

/-- Settings that cannot be loaded are told by their path. -/
theorem Settings.load_eq_error {disk : Disk} {path : String} {e : Error} (h : load disk path = .error e) :
    e = .invalidSettings path ∨ ∃ cause, e = .unreadableSettings path cause := by
  unfold load at h
  split at h
  · next cause _ => exact .inr ⟨cause, (Except.error.inj h).symm⟩
  · split at h
    · exact .inl (Except.error.inj h).symm
    · cases h

namespace Report

/--
The settings for an input: those in the file given, or else those in the settings file beside the input,
with everything on when there is no such file.
-/
inductive SettingsFor (disk : Disk) (input : String) : Option String → Settings → Prop
  | given {path : String} {contents : ByteArray} {s : Settings} :
    disk path = .file contents → Settings.WrittenIn contents s → SettingsFor disk input (some path) s
  | beside {contents : ByteArray} {s : Settings} :
    disk (Path.settingsBeside input) = .file contents → Settings.WrittenIn contents s →
      SettingsFor disk input none s
  | default : (disk (Path.settingsBeside input)).isFile = false → SettingsFor disk input none {}

variable {disk disk' : Disk} {input : String} {config : Option String}

theorem discover_eq_ok_iff {s : Settings} :
    Settings.discover disk ((Path.parent? input).getD ".") = .ok s ↔ SettingsFor disk input none s := by
  have hdiscover : Settings.discover disk ((Path.parent? input).getD ".") =
      if (disk (Path.settingsBeside input)).isFile then Settings.load disk (Path.settingsBeside input)
      else .ok {} := rfl
  rw [hdiscover]
  constructor
  · intro h
    split at h
    · obtain ⟨contents, hfile, hs⟩ := Settings.load_eq_ok_iff.1 h
      exact .beside hfile hs
    · next hnone =>
      obtain rfl : {} = s := Except.ok.inj h
      exact .default (Bool.eq_false_iff.2 hnone)
  · intro h
    cases h with
    | beside hfile hs =>
      rw [if_pos (by rw [hfile]; rfl)]
      exact Settings.load_eq_ok_iff.2 ⟨_, hfile, hs⟩
    | default hnone => rw [if_neg (by rw [hnone]; nofun)]

theorem mapError_eq_ok_iff {α ε ε' : Type} {f : ε → ε'} {result : Except ε α} {a : α} :
    result.mapError f = .ok a ↔ result = .ok a := by
  cases result <;> simp [Except.mapError]

theorem settings_eq_ok_iff {s : Settings} :
    settings disk input config = .ok s ↔ SettingsFor disk input config s := by
  cases config with
  | none => rw [settings, mapError_eq_ok_iff, discover_eq_ok_iff]
  | some path =>
    rw [settings, mapError_eq_ok_iff, Settings.load_eq_ok_iff]
    constructor
    · rintro ⟨contents, hfile, hs⟩
      exact .given hfile hs
    · intro h
      cases h with
      | given hfile hs => exact ⟨_, hfile, hs⟩

/-- The error of settings that cannot be loaded, told by where they were looked for. -/
def settingsError (cause : Error) : Option String → ReportError
  | some path => .explicitSettings path cause
  | none => .workspaceSettings cause

theorem settings_eq_error {e : ReportError} (h : settings disk input config = .error e) :
    ∃ cause, e = settingsError cause config ∧
      (cause = .invalidSettings (config.getD (Path.settingsBeside input)) ∨
        ∃ why, cause = .unreadableSettings (config.getD (Path.settingsBeside input)) why) := by
  cases config with
  | some path =>
    cases hload : Settings.load disk path with
    | ok s => simp [settings, hload, Except.mapError] at h
    | error cause =>
      simp only [settings, hload, Except.mapError, Except.error.injEq] at h
      exact ⟨cause, h.symm, Settings.load_eq_error hload⟩
  | none =>
    cases hfound : Settings.discover disk ((Path.parent? input).getD ".") with
    | ok s => simp [settings, hfound, Except.mapError] at h
    | error cause =>
      simp only [settings, hfound, Except.mapError, Except.error.injEq] at h
      refine ⟨cause, h.symm, ?_⟩
      unfold Settings.discover at hfound
      dsimp only at hfound
      split at hfound
      · exact Settings.load_eq_error hfound
      · cases hfound

theorem document_eq_ok_iff {d : Document} :
    document disk input = .ok d ↔ ∃ text, (disk input).Reads text ∧ d = .ofText input 1 text := by
  simp only [← Entry.text_eq_ok_iff]
  unfold document
  cases disk input with
  | file contents =>
    have hpresent : (Entry.file contents).isPresent = true := rfl
    rw [if_pos hpresent]
    cases Entry.text (.file contents) with
    | ok text => simp [eq_comm]
    | error cause => simp
  | _ => simp [Entry.isPresent, Entry.text]

/-- A new scanner reports on the lines of a document, whatever its settings. -/
theorem ofDocument_new (s : Settings) (subject : Subject) (format : Format) (d : Document) :
    ofDocument (.new s) subject format d = .ok (ofLines subject format d.lines) := by
  cases subject with
  | folds =>
    have hanswer := (Cache.holds_empty (P := fun _ _ _ => False)).answer_eq s.cache d
      (Fold.scanUntil_never d.lines) nofun
    simp only [ofDocument, Scanner.requestFolds, Scanner.new, hanswer]
    rfl
  | symbols =>
    have hanswer := (Cache.holds_empty (P := fun _ _ _ => False)).answer_eq s.cache d
      (Outline.scanUntil_never d.lines) nofun
    simp only [ofDocument, Scanner.requestSymbols, Scanner.new, hanswer]
    rfl

variable {subject : Subject} {format : Format}

/-- Once the settings are there, the report is that of the input. -/
theorem ofFile_of_settings {s : Settings} (h : settings disk input config = .ok s) :
    ofFile disk subject format input config =
      (document disk input).map fun d => ofLines subject format d.lines := by
  have hfile : ofFile disk subject format input config =
      (document disk input).bind (ofDocument (.new s) subject format) := by
    rw [ofFile, h]
    rfl
  rw [hfile]
  cases document disk input with
  | ok d => exact ofDocument_new s subject format d
  | error e => rfl

theorem ofFile_of_error {e : ReportError} (h : settings disk input config = .error e) :
    ofFile disk subject format input config = .error e := by
  rw [ofFile, h]
  rfl

/-- With settings, an input that is no file of text is the error. -/
theorem ofFile_of_unreadable {s : Settings} (h : settings disk input config = .ok s) {cause : ReadError}
    (hcause : (disk input).text = .error cause) :
    ofFile disk subject format input config =
      .error (if (disk input).isPresent then .inputUnreadable input cause else .inputMissing input) := by
  rw [ofFile_of_settings h, document, hcause]
  cases (disk input).isPresent <;> rfl

theorem ofFile_eq_ok_iff {out : String} :
    ofFile disk subject format input config = .ok out ↔
      (∃ s, SettingsFor disk input config s) ∧
        ∃ text, (disk input).Reads text ∧ out = ofLines subject format (Document.linesOf text.toList) := by
  simp only [← settings_eq_ok_iff]
  cases hsettings : settings disk input config with
  | error e => simp [ofFile_of_error hsettings]
  | ok s =>
    have hmap : ofFile disk subject format input config = .ok out ↔
        ∃ d, document disk input = .ok d ∧ ofLines subject format d.lines = out := by
      rw [ofFile_of_settings hsettings]
      cases document disk input <;> simp [Except.map]
    rw [hmap]
    simp only [document_eq_ok_iff]
    constructor
    · rintro ⟨d, ⟨text, hreads, rfl⟩, rfl⟩
      exact ⟨⟨s, rfl⟩, text, hreads, rfl⟩
    · rintro ⟨-, text, hreads, rfl⟩
      exact ⟨_, ⟨text, hreads, rfl⟩, rfl⟩

/-! Settings in place of others. -/

/-- The same entry, or another valid settings file. -/
def Interchangeable (e e' : Entry) : Prop :=
  e = e' ∨ ∃ a b, e = .file a ∧ e' = .file b ∧ (∃ s, Settings.WrittenIn a s) ∧ ∃ s, Settings.WrittenIn b s

/-- Two attempts that fail alike, or both succeed. -/
def Alike {ε α : Type} (result result' : Except ε α) : Prop :=
  result = result' ∨ ∃ a b, result = .ok a ∧ result' = .ok b

theorem Alike.mapError {ε ε' α : Type} {result result' : Except ε α} (h : Alike result result')
    (f : ε → ε') : Alike (result.mapError f) (result'.mapError f) := by
  rcases h with rfl | ⟨a, b, rfl, rfl⟩
  · exact .inl rfl
  · exact .inr ⟨a, b, rfl, rfl⟩

theorem Interchangeable.isFile_eq {e e' : Entry} (h : Interchangeable e e') : e.isFile = e'.isFile := by
  rcases h with rfl | ⟨a, b, rfl, rfl, -⟩ <;> rfl

theorem Interchangeable.load {path : String} (h : Interchangeable (disk path) (disk' path)) :
    Alike (Settings.load disk path) (Settings.load disk' path) := by
  rcases h with heq | ⟨a, b, ha, hb, ⟨s, hs⟩, s', hs'⟩
  · left
    rw [Settings.load, heq, Settings.load]
  · right
    exact ⟨s, s', Settings.load_eq_ok_iff.2 ⟨a, ha, hs⟩, Settings.load_eq_ok_iff.2 ⟨b, hb, hs'⟩⟩

theorem settings_alike (h : ∀ path, Interchangeable (disk path) (disk' path)) (input : String)
    (config : Option String) : Alike (settings disk input config) (settings disk' input config) := by
  cases config with
  | some path => exact (h path).load.mapError _
  | none =>
    apply Alike.mapError
    unfold Settings.discover
    dsimp only
    rw [(h _).isFile_eq]
    split
    · exact (h _).load
    · exact .inl rfl

/-- A report stays the same when settings files are exchanged, as long as the input does. -/
theorem ofFile_congr (h : ∀ path, Interchangeable (disk path) (disk' path))
    (hinput : disk input = disk' input) :
    ofFile disk subject format input config = ofFile disk' subject format input config := by
  have hdocument : document disk input = document disk' input := by
    rw [document, hinput, document]
  rcases settings_alike h input config with heq | ⟨s, s', hs, hs'⟩
  · cases hs : settings disk input config with
    | error e => rw [ofFile_of_error hs, ofFile_of_error (heq ▸ hs)]
    | ok s => rw [ofFile_of_settings hs, ofFile_of_settings (heq ▸ hs), hdocument]
  · rw [ofFile_of_settings hs, ofFile_of_settings hs', hdocument]

theorem ofFile_of_differAt {a b : ByteArray} {place : List String} {root root' : FileNode}
    (h : FileNode.DifferAt a b place root root') (ha : ∃ s, Settings.WrittenIn a s)
    (hb : ∃ s, Settings.WrittenIn b s) (hinput : ¬root.LeadsTo input place) :
    ofFile root.disk subject format input config = ofFile root'.disk subject format input config := by
  apply ofFile_congr
  · intro path
    rcases FileNode.disk_of_differAt h path with heq | ⟨-, hfile, hfile'⟩
    · exact .inl heq
    · exact .inr ⟨a, b, hfile, hfile', ha, hb⟩
  · exact (FileNode.disk_of_differAt h input).resolve_right fun hleads => hinput hleads.1

/--
A report on a file succeeds exactly if the settings load and the input is a file of text, and then it is the
report on the lines of that text. If the settings do not load, that is the error, whatever the input is.
Settings that are not given are looked for beside the input. Exchanging one valid settings file of a
directory for another makes no difference, unless it is the input.
-/
theorem ofFile_outcome (disk : Disk) (subject : Subject) (format : Format) (input : String)
    (config : Option String) :
    (∀ out, ofFile disk subject format input config = .ok out ↔
      (∃ s, SettingsFor disk input config s) ∧
        ∃ text, (disk input).Reads text ∧
          out = ofLines subject format (Document.linesOf text.toList)) ∧
      ((¬∃ s, SettingsFor disk input config s) →
        ∃ cause, ofFile disk subject format input config = .error (settingsError cause config) ∧
          (cause = .invalidSettings (config.getD (Path.settingsBeside input)) ∨
            ∃ why, cause = .unreadableSettings (config.getD (Path.settingsBeside input)) why)) ∧
      ((∃ s, SettingsFor disk input config s) → ∀ cause, (disk input).text = .error cause →
        ofFile disk subject format input config =
          .error (if (disk input).isPresent then .inputUnreadable input cause
            else .inputMissing input)) ∧
      (∀ before last, Path.moves input.toList = before ++ [last] →
        Path.moves (Path.settingsBeside input).toList = before ++ [.down Settings.fileName] ∧
          (Path.IsAbsolute (Path.settingsBeside input).toList ↔ Path.IsAbsolute input.toList)) ∧
      ∀ a b place root root', FileNode.DifferAt a b place root root' →
        (∃ s, Settings.WrittenIn a s) → (∃ s, Settings.WrittenIn b s) →
        ¬root.LeadsTo input place →
        ofFile root.disk subject format input config =
          ofFile root'.disk subject format input config := by
  refine ⟨fun out => ofFile_eq_ok_iff, ?_, ?_, fun before last => Path.moves_settingsBeside,
    fun a b place root root' => ofFile_of_differAt⟩
  · intro hnone
    cases hsettings : settings disk input config with
    | ok s => exact absurd ⟨s, settings_eq_ok_iff.1 hsettings⟩ hnone
    | error e =>
      obtain ⟨cause, rfl, hcause⟩ := settings_eq_error hsettings
      exact ⟨cause, ofFile_of_error hsettings, hcause⟩
  · rintro ⟨s, hs⟩ cause hcause
    exact ofFile_of_unreadable (settings_eq_ok_iff.2 hs) hcause

theorem fromUTF8?_toUTF8 (text : String) : String.fromUTF8? text.toUTF8 = some text :=
  dif_pos text.isValidUTF8

/-- A directory with a file to report on, and settings beside it. -/
def withSettings (text : String) : FileNode :=
  .folder [("a.tal", .file "begin\n\nend".toUTF8), ("talscan.toml", .file text.toUTF8)]

/-- A report is the same with the cache off, which the settings may tell in short. -/
theorem ofFile_outcome_cacheOff :
    FileNode.DifferAt "".toUTF8 "cache = [false]".toUTF8 ["talscan.toml"] (withSettings "")
        (withSettings "cache = [false]") ∧
      ofFile (withSettings "").disk .folds .text "a.tal" none = .ok "region   1-2\n" ∧
      ofFile (withSettings "").disk .folds .text "a.tal" none =
        ofFile (withSettings "cache = [false]").disk .folds .text "a.tal" none := by
  have hdiffer : FileNode.DifferAt "".toUTF8 "cache = [false]".toUTF8 ["talscan.toml"] (withSettings "")
      (withSettings "cache = [false]") := by
    refine .folder rfl rfl .file ?_
    intro other hother
    simp [List.lookup_cons, beq_eq_false_iff_ne.2 hother]
  have hempty : Settings.WrittenIn "".toUTF8 {} := ⟨"", fromUTF8?_toUTF8 "", by decide⟩
  have hflags : Settings.WrittenIn "cache = [false]".toUTF8 ⟨true, true, false⟩ :=
    ⟨"cache = [false]", fromUTF8?_toUTF8 "cache = [false]", by decide +kernel⟩
  obtain ⟨hok, -, -, -, hsame⟩ := ofFile_outcome (withSettings "").disk .folds .text "a.tal" none
  refine ⟨hdiffer, (hok _).2 ⟨⟨{}, .beside rfl hempty⟩, "begin\n\nend", ⟨_, rfl, fromUTF8?_toUTF8 _⟩, ?_⟩,
    hsame _ _ _ _ _ hdiffer ⟨_, hempty⟩ ⟨_, hflags⟩ ?_⟩
  · decide +kernel
  · rintro ⟨hplace, -⟩
    revert hplace
    decide +kernel

end Report

end TalOutline
