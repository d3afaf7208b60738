import Mathlib.Data.List.TakeWhile
import TalOutline.Proofs.Text.Spelling
import TalOutline.Text.Word

/-!
Patterns and what they find in a text. A pattern may match in several ways, and these have an order: a run
is as long as it can be, and the first of two alternatives comes before the second. What is found is the
first way at the first place that has one.
-/
namespace TalOutline

open Text

inductive Pattern where
  | empty
  /-- A run of characters of one class, of no less and no more characters than the bounds say. -/
  | run (p : Char → Bool) (low : Nat) (high : Option Nat)
  | seq (first second : Pattern)
  | alt (first second : Pattern)
  /-- A part whose text is kept. -/
  | group (inner : Pattern)
  | atStart
  | atEnd
  /-- A place with a word character on one side only. -/
  | boundary

namespace Pattern

/-- A place in a text, and the texts of the groups on the way to it. -/
structure Spot where
  passed : List Char
  rest : List Char
  groups : List (List Char)
  deriving DecidableEq, Repr

def Spot.advance (s : Spot) (n : Nat) : Spot :=
  ⟨s.passed ++ s.rest.take n, s.rest.drop n, s.groups⟩

/-- The lengths that a run can have at the start of a text, the longest first. -/
def runLengths (p : Char → Bool) (low : Nat) (high : Option Nat) (text : List Char) : List Nat :=
  let most := (text.takeWhile p).length
  (List.range' low (high.elim most (min most) + 1 - low)).reverse

/-- The places where a match from a place on can end, the first way of matching first. -/
def ends : Pattern → Spot → List Spot
  | empty, s => [s]
  | run p low high, s => (runLengths p low high s.rest).map s.advance
  | seq a b, s => (a.ends s).flatMap b.ends
  | alt a b, s => a.ends s ++ b.ends s
  | group a, s =>
    (a.ends s).map fun t => { t with groups := t.groups ++ [t.passed.drop s.passed.length] }
  | atStart, s => if s.passed.isEmpty then [s] else []
  | atEnd, s => if s.rest.isEmpty then [s] else []
  | boundary, s =>
    if s.passed.getLast?.any isWord = s.rest.head?.any isWord then [] else [s]

def first? (p : Pattern) (s : Spot) : Option Spot :=
  (p.ends s).head?

/-- The end of the first match in a text, which may begin at any place from the given one on. -/
def search? (p : Pattern) (passed : List Char) : List Char → Option Spot
  | [] => p.first? ⟨passed, [], []⟩
  | c :: rest => (p.first? ⟨passed, c :: rest, []⟩).or (p.search? (passed ++ [c]) rest)

/-- The groups of the first match in a text. -/
def captures? (p : Pattern) (text : List Char) : Option (List (List Char)) :=
  (p.search? [] text).map Spot.groups

/-- A match, with the texts before and after it. -/
structure Hit where
  before : List Char
  text : List Char
  after : List Char
  deriving DecidableEq, Repr

/--
From a place on, a text is cut into the matches that follow each other and the characters outside them.
Matches of no length are not provided for.
-/
inductive Cuts (p : Pattern) : List Char → List Char → List Hit → List Char → Prop
  | done {passed : List Char} : Cuts p passed [] [] []
  | hit {passed text : List Char} {t : Spot} {hits : List Hit} {kept : List Char}
    (first : p.first? ⟨passed, text, []⟩ = some t) (shorter : t.rest.length < text.length)
    (later : Cuts p t.passed t.rest hits kept) :
    Cuts p passed text (⟨passed, t.passed.drop passed.length, t.rest⟩ :: hits) kept
  | miss {passed rest : List Char} {c : Char} {hits : List Hit} {kept : List Char}
    (missing : p.first? ⟨passed, c :: rest, []⟩ = none) (later : Cuts p (passed ++ [c]) rest hits kept) :
    Cuts p passed (c :: rest) hits (c :: kept)

/-- The matches in a text, one after the other. -/
def Finds (p : Pattern) (text : List Char) (hits : List Hit) : Prop :=
  ∃ kept, Cuts p [] text hits kept

def Leaves (p : Pattern) (text kept : List Char) : Prop :=
  ∃ hits, Cuts p [] text hits kept

section Parts

def one (p : Char → Bool) : Pattern :=
  run p 1 (some 1)

def literal (c : Char) : Pattern :=
  one (· == c)

def opt (p : Pattern) : Pattern :=
  alt p empty

def blanks (low : Nat) : Pattern :=
  run isBlank low none

/-- A fixed lower-case word, written in any case. -/
def word : List Char → Pattern
  | [] => empty
  | c :: rest => seq (one (foldCase · == c)) (word rest)

def oneOf : List (List Char) → Pattern
  | [] => one fun _ => false
  | w :: words => alt (word w) (oneOf words)

def name : Pattern :=
  seq (one isNameStart) (run isNameChar 0 none)

end Parts

section Ends

variable {a b : Pattern} {s t : Spot}

theorem mem_seq_iff : t ∈ (seq a b).ends s ↔ ∃ u ∈ a.ends s, t ∈ b.ends u :=
  List.mem_flatMap

theorem mem_alt_iff : t ∈ (alt a b).ends s ↔ t ∈ a.ends s ∨ t ∈ b.ends s :=
  List.mem_append

theorem mem_of_first? (h : a.first? s = some t) : t ∈ a.ends s :=
  List.mem_of_head? h

theorem first?_eq_none_iff : a.first? s = none ↔ ∀ t, t ∉ a.ends s := by
  unfold first?
  rw [List.head?_eq_none_iff, List.eq_nil_iff_forall_not_mem]

/-- The first way of two parts is the first way of the second part behind some way of the first part. -/
theorem exists_first?_of_seq (h : (seq a b).first? s = some t) :
    ∃ u ∈ a.ends s, b.first? u = some t := by
  have hhead : (a.ends s).findSome? b.first? = some t := by
    rw [← h]
    exact List.head?_flatMap.symm
  exact List.exists_of_findSome?_eq_some hhead

/-- Nothing is matched backwards. -/
theorem length_rest_le (h : t ∈ a.ends s) : t.rest.length ≤ s.rest.length := by
  induction a generalizing s t with
  | empty =>
    rw [List.mem_singleton.1 h]
  | run p low high =>
    obtain ⟨n, -, rfl⟩ := List.mem_map.1 h
    rw [Spot.advance, List.length_drop]
    exact Nat.sub_le _ _
  | seq a b iha ihb =>
    obtain ⟨u, hu, ht⟩ := mem_seq_iff.1 h
    exact Nat.le_trans (ihb ht) (iha hu)
  | alt a b iha ihb =>
    rcases mem_alt_iff.1 h with h | h
    · exact iha h
    · exact ihb h
  | group a ih =>
    obtain ⟨u, hu, rfl⟩ := List.mem_map.1 h
    have hle := ih hu
    exact hle
  | atStart =>
    unfold ends at h
    split at h
    · rw [List.mem_singleton.1 h]
    · cases h
  | atEnd =>
    unfold ends at h
    split at h
    · rw [List.mem_singleton.1 h]
    · cases h
  | boundary =>
    unfold ends at h
    split at h
    · cases h
    · rw [List.mem_singleton.1 h]

theorem first?_group_eq_some_iff : (group a).first? s = some t ↔
    ∃ u, a.first? s = some u ∧
      { u with groups := u.groups ++ [u.passed.drop s.passed.length] } = t := by
  unfold first?
  rw [ends, List.head?_map, Option.map_eq_some_iff]

theorem first?_alt : (alt a b).first? s = (a.first? s).or (b.first? s) :=
  List.head?_append

end Ends

section Run

variable {p : Char → Bool} {low : Nat} {high : Option Nat} {s t : Spot}

theorem mem_runLengths_iff {n : Nat} {text : List Char} :
    n ∈ runLengths p low high text ↔
      low ≤ n ∧ n ≤ (text.takeWhile p).length ∧ ∀ h ∈ high, n ≤ h := by
  unfold runLengths
  rw [List.mem_reverse, List.mem_range'_1]
  cases high with
  | none =>
    simp only [Option.elim_none, Option.not_mem_none, false_implies, implies_true, and_true]
    omega
  | some h =>
    simp only [Option.elim_some, Option.mem_some_iff, forall_eq']
    omega

theorem mem_run_iff :
    t ∈ (run p low high).ends s ↔ ∃ w rest, (∀ c ∈ w, p c = true) ∧ low ≤ w.length ∧
      (∀ h ∈ high, w.length ≤ h) ∧ s.rest = w ++ rest ∧ t = ⟨s.passed ++ w, rest, s.groups⟩ := by
  show t ∈ (runLengths p low high s.rest).map s.advance ↔ _
  rw [List.mem_map]
  constructor
  · intro h
    obtain ⟨n, hn, rfl⟩ := h
    obtain ⟨hlow, hmost, hhigh⟩ := mem_runLengths_iff.1 hn
    obtain ⟨most, behind, hsplit, hrun, hstop⟩ := exists_run p s.rest
    rw [hsplit, takeWhile_run hrun hstop] at hmost
    have hlength : (most.take n).length = n := List.length_take_of_le hmost
    refine ⟨most.take n, most.drop n ++ behind, ?_, ?_, ?_, ?_, ?_⟩
    · intro c hc
      exact hrun c (List.mem_of_mem_take hc)
    · rwa [hlength]
    · rwa [hlength]
    · rw [hsplit, ← List.append_assoc, List.take_append_drop]
    · rw [Spot.advance, hsplit, List.take_append_of_le_length hmost,
        List.drop_append_of_le_length hmost]
  · intro h
    obtain ⟨w, rest, hw, hlow, hhigh, hsplit, rfl⟩ := h
    refine ⟨w.length, mem_runLengths_iff.2 ⟨hlow, ?_, hhigh⟩, ?_⟩
    · rw [hsplit, List.takeWhile_append_of_pos hw, List.length_append]
      exact Nat.le_add_right _ _
    · rw [Spot.advance, hsplit, List.take_left, List.drop_left]

theorem first?_run (h : (run p low none).first? s = some t) :
    ∃ w rest, (∀ c ∈ w, p c = true) ∧ low ≤ w.length ∧ rest.head?.any p = false ∧
      s.rest = w ++ rest ∧ t = ⟨s.passed ++ w, rest, s.groups⟩ := by
  obtain ⟨most, behind, hsplit, hrun, hstop⟩ := exists_run p s.rest
  have hlengths : runLengths p low none s.rest =
      (List.range' low (most.length + 1 - low)).reverse := by
    unfold runLengths
    rw [hsplit, takeWhile_run hrun hstop]
    rfl
  have hhead : ((runLengths p low none s.rest).map s.advance).head? = some t := h
  rw [hlengths, List.head?_map, List.head?_reverse, List.getLast?_range'] at hhead
  obtain ⟨n, hn, rfl⟩ := Option.map_eq_some_iff.1 hhead
  split at hn
  · cases hn
  · next hlow =>
    have hmost : n = most.length := by
      rw [← Option.some.inj hn]
      omega
    subst hmost
    refine ⟨most, behind, hrun, by omega, hstop, hsplit, ?_⟩
    rw [Spot.advance, hsplit, List.take_left, List.drop_left]

end Run

/-- A text made up of a text of one sort and a text of another. -/
def Joined (L M : List Char → Prop) (w : List Char) : Prop :=
  ∃ u v, L u ∧ M v ∧ w = u ++ v

/-- What the pattern matches is told by the matched text alone, and nothing is kept of it. -/
def Reads (a : Pattern) (L : List Char → Prop) : Prop :=
  ∀ s t, t ∈ a.ends s ↔
    ∃ w rest, L w ∧ s.rest = w ++ rest ∧ t = ⟨s.passed ++ w, rest, s.groups⟩

section Reads

variable {a b : Pattern} {L M : List Char → Prop}

theorem Reads.congr (h : a.Reads L) (hLM : ∀ w, L w ↔ M w) : a.Reads M := by
  intro s t
  rw [h s t]
  simp only [hLM]

theorem Reads.length_rest_lt (ha : a.Reads L) (hne : ∀ w, L w → w ≠ []) {s t : Spot}
    (h : t ∈ (Pattern.seq a b).ends s) : t.rest.length < s.rest.length := by
  obtain ⟨u, hu, ht⟩ := mem_seq_iff.1 h
  obtain ⟨w, rest, hw, hsplit, rfl⟩ := (ha s u).1 hu
  have hle := length_rest_le ht
  have hpos := List.length_pos_iff.2 (hne w hw)
  rw [hsplit, List.length_append]
  dsimp only at hle
  omega

theorem reads_empty : empty.Reads (· = []) := by
  intro s t
  show t ∈ [s] ↔ _
  rw [List.mem_singleton]
  constructor
  · intro h
    subst h
    exact ⟨[], t.rest, rfl, rfl, by rw [List.append_nil]⟩
  · intro h
    obtain ⟨w, rest, rfl, hrest, rfl⟩ := h
    rw [List.append_nil]
    cases s
    cases hrest
    rfl

theorem reads_run (p : Char → Bool) (low : Nat) (high : Option Nat) :
    (run p low high).Reads fun w =>
      (∀ c ∈ w, p c = true) ∧ low ≤ w.length ∧ ∀ h ∈ high, w.length ≤ h := by
  intro s t
  rw [mem_run_iff]
  simp only [and_assoc]

theorem Reads.seq (ha : a.Reads L) (hb : b.Reads M) : (seq a b).Reads (Joined L M) := by
  intro s t
  rw [mem_seq_iff]
  constructor
  · intro h
    obtain ⟨u, hu, ht⟩ := h
    obtain ⟨v, behind, hv, hsplit, rfl⟩ := (ha s u).1 hu
    obtain ⟨w, rest, hw, rfl, rfl⟩ := (hb _ t).1 ht
    refine ⟨v ++ w, rest, ⟨v, w, hv, hw, rfl⟩, ?_, ?_⟩
    · rw [hsplit, List.append_assoc]
    · rw [List.append_assoc]
  · intro h
    obtain ⟨_, rest, ⟨v, w, hv, hw, rfl⟩, hsplit, rfl⟩ := h
    rw [List.append_assoc] at hsplit
    refine ⟨_, (ha s _).2 ⟨v, w ++ rest, hv, hsplit, rfl⟩, ?_⟩
    rw [← List.append_assoc]
    exact (hb _ _).2 ⟨w, rest, hw, rfl, rfl⟩

theorem Reads.alt (ha : a.Reads L) (hb : b.Reads M) : (alt a b).Reads fun w => L w ∨ M w := by
  intro s t
  rw [mem_alt_iff, ha s t, hb s t, ← exists_or]
  simp only [← exists_or, or_and_right]

theorem Reads.opt (ha : a.Reads L) : (opt a).Reads fun w => L w ∨ w = [] :=
  ha.alt reads_empty

theorem reads_one (p : Char → Bool) : (one p).Reads fun w => ∃ c, p c = true ∧ w = [c] := by
  apply (reads_run p 1 (some 1)).congr
  intro w
  constructor
  · intro h
    obtain ⟨hw, hlow, hhigh⟩ := h
    obtain ⟨c, rfl⟩ := List.length_eq_one_iff.1 (Nat.le_antisymm (hhigh 1 rfl) hlow)
    exact ⟨c, hw c List.mem_cons_self, rfl⟩
  · intro h
    obtain ⟨c, hc, rfl⟩ := h
    simpa using hc

theorem reads_literal (c : Char) : (literal c).Reads (· = [c]) := by
  apply (reads_one (· == c)).congr
  intro w
  simp

theorem reads_blanks (low : Nat) : (blanks low).Reads fun w => AllBlank w ∧ low ≤ w.length := by
  apply (reads_run isBlank low none).congr
  intro w
  simp [AllBlank]

theorem reads_word (letters : List Char) : (word letters).Reads (Spells · letters) := by
  induction letters with
  | nil =>
    apply reads_empty.congr
    intro w
    rw [Spells, List.map_eq_nil_iff]
  | cons c rest ih =>
    apply ((reads_one (foldCase · == c)).seq ih).congr
    intro w
    unfold Joined Spells
    rw [List.map_eq_cons_iff]
    constructor
    · intro h
      obtain ⟨_, v, ⟨d, hd, rfl⟩, hv, rfl⟩ := h
      exact ⟨d, v, rfl, beq_iff_eq.1 hd, hv⟩
    · intro h
      obtain ⟨d, v, rfl, hd, hv⟩ := h
      exact ⟨[d], v, ⟨d, beq_iff_eq.2 hd, rfl⟩, hv, rfl⟩

theorem reads_oneOf (words : List (List Char)) :
    (oneOf words).Reads fun spelling => ∃ w ∈ words, Spells spelling w := by
  induction words with
  | nil =>
    apply (reads_one fun _ => false).congr
    simp
  | cons w words ih =>
    apply ((reads_word w).alt ih).congr
    simp

theorem reads_name : name.Reads IsName := by
  apply ((reads_one isNameStart).seq (reads_run isNameChar 0 none)).congr
  intro w
  constructor
  · intro h
    obtain ⟨_, v, ⟨c, hc, rfl⟩, ⟨hv, -, -⟩, rfl⟩ := h
    exact ⟨isNameStart_iff.1 hc, fun d hd => isNameChar_iff.1 (hv d hd)⟩
  · intro h
    obtain ⟨hstart, hmore⟩ := h
    refine ⟨[_], _, ⟨_, isNameStart_iff.2 hstart, rfl⟩, ⟨?_, Nat.zero_le _, nofun⟩, rfl⟩
    intro d hd
    exact isNameChar_iff.2 (hmore d hd)

theorem Reads.mem_group_iff (ha : a.Reads L) {s t : Spot} :
    t ∈ (group a).ends s ↔
      ∃ w rest, L w ∧ s.rest = w ++ rest ∧ t = ⟨s.passed ++ w, rest, s.groups ++ [w]⟩ := by
  show t ∈ (a.ends s).map _ ↔ _
  rw [List.mem_map]
  constructor
  · intro h
    obtain ⟨u, hu, rfl⟩ := h
    obtain ⟨w, rest, hw, hsplit, rfl⟩ := (ha s u).1 hu
    exact ⟨w, rest, hw, hsplit, by rw [List.drop_left]⟩
  · intro h
    obtain ⟨w, rest, hw, hsplit, rfl⟩ := h
    exact ⟨_, (ha s _).2 ⟨w, rest, hw, hsplit, rfl⟩, by rw [List.drop_left]⟩

end Reads

/-- A text begins with a match, whatever stands before it. -/
def Matches (a : Pattern) (text : List Char) : Prop :=
  ∀ passed groups, ∃ t, t ∈ a.ends ⟨passed, text, groups⟩

section Matches

variable {a b : Pattern} {L : List Char → Prop} {w rest text : List Char}

theorem Matches.exists_first? (h : a.Matches text) (passed : List Char)
    (groups : List (List Char)) : ∃ t, a.first? ⟨passed, text, groups⟩ = some t := by
  obtain ⟨u, hu⟩ := h passed groups
  cases hfirst : a.first? ⟨passed, text, groups⟩ with
  | none => exact absurd hu (first?_eq_none_iff.1 hfirst u)
  | some t => exact ⟨t, rfl⟩

theorem not_matches_of_first? {s : Spot} (h : a.first? s = none) : ¬ a.Matches s.rest := by
  intro hmatches
  obtain ⟨t, ht⟩ := hmatches s.passed s.groups
  exact first?_eq_none_iff.1 h t ht

theorem Reads.matches (ha : a.Reads L) (hw : L w) (rest : List Char) : a.Matches (w ++ rest) := by
  intro passed groups
  exact ⟨_, (ha ⟨passed, w ++ rest, groups⟩ _).2 ⟨w, rest, hw, rfl, rfl⟩⟩

theorem Reads.matches_seq (ha : a.Reads L) (hw : L w) (hb : b.Matches rest) :
    (Pattern.seq a b).Matches (w ++ rest) := by
  intro passed groups
  obtain ⟨t, ht⟩ := hb (passed ++ w) groups
  exact ⟨t, mem_seq_iff.2 ⟨_, (ha _ _).2 ⟨w, rest, hw, rfl, rfl⟩, ht⟩⟩

theorem Reads.matches_group (ha : a.Reads L) (hw : L w) (hb : b.Matches rest) :
    (Pattern.seq (group a) b).Matches (w ++ rest) := by
  intro passed groups
  obtain ⟨t, ht⟩ := hb (passed ++ w) (groups ++ [w])
  exact ⟨t, mem_seq_iff.2 ⟨_, ha.mem_group_iff.2 ⟨w, rest, hw, rfl, rfl⟩, ht⟩⟩

theorem Matches.group (h : a.Matches text) : (group a).Matches text := by
  intro passed groups
  obtain ⟨t, ht⟩ := h passed groups
  exact ⟨_, List.mem_map_of_mem ht⟩

end Matches

/-- A name that is kept is as long as it can be. -/
theorem first?_name {s t : Spot} (h : (group name).first? s = some t) :
    ∃ n rest, IsName n ∧ EndsName rest ∧ s.rest = n ++ rest ∧ t.groups = s.groups ++ [n] := by
  obtain ⟨t, hname, rfl⟩ := first?_group_eq_some_iff.1 h
  obtain ⟨u, hu, hmore⟩ := exists_first?_of_seq hname
  obtain ⟨_, behind, ⟨c, hc, rfl⟩, hsplit, rfl⟩ := (reads_one isNameStart s u).1 hu
  obtain ⟨more, rest, hchars, -, hstop, rfl, rfl⟩ := first?_run hmore
  refine ⟨[c] ++ more, rest, ?_, endsName_iff.2 hstop, ?_, ?_⟩
  · exact ⟨isNameStart_iff.1 hc, fun d hd => isNameChar_iff.1 (hchars d hd)⟩
  · rw [hsplit, List.append_assoc]
  · show s.groups ++ [(s.passed ++ [c] ++ more).drop s.passed.length] = _
    rw [List.append_assoc, List.drop_left]

section Search

variable {a : Pattern}

theorem search?_atStart (a : Pattern) {passed : List Char} (h : passed ≠ []) (text : List Char) :
    (seq atStart a).search? passed text = none := by
  have hfirst {passed : List Char} (h : passed ≠ []) (rest : List Char) :
      (seq atStart a).first? ⟨passed, rest, []⟩ = none := by
    simp [first?, ends, h]
  induction text generalizing passed with
  | nil => exact hfirst h []
  | cons c rest ih =>
    have hnext : passed ++ [c] ≠ [] := by simp
    rw [search?, hfirst h, ih hnext]
    rfl

/-- A pattern that is held to the start of the text is not looked for anywhere else. -/
theorem captures?_atStart (a : Pattern) (text : List Char) :
    (seq atStart a).captures? text = (a.first? ⟨[], text, []⟩).map Spot.groups := by
  have hfirst : (seq atStart a).first? ⟨[], text, []⟩ = a.first? ⟨[], text, []⟩ := by
    simp [first?, ends]
  unfold captures?
  cases text with
  | nil => rw [search?, hfirst]
  | cons c rest =>
    have hnext : [] ++ [c] ≠ [] := List.cons_ne_nil c []
    rw [search?, hfirst, search?_atStart a hnext, Option.or_none]

theorem Matches.exists_captures? {a : Pattern} {text : List Char} (h : a.Matches text) :
    ∃ groups, (Pattern.seq atStart a).captures? text = some groups := by
  obtain ⟨t, hfirst⟩ := h.exists_first? [] []
  refine ⟨t.groups, ?_⟩
  rw [captures?_atStart, hfirst]
  rfl

/-- What is kept of a text is known where the pattern matches and can keep one thing only. -/
theorem captures?_iff_of_unique {α : Type} {P : α → Prop} {kept : α → List (List Char)}
    {text : List Char} (hsound : ∀ groups, (seq atStart a).captures? text = some groups →
      ∃ x, P x ∧ groups = kept x)
    (hmatches : ∀ x, P x → a.Matches text) (hunique : ∀ x y, P x → P y → x = y)
    {groups : List (List Char)} :
    (seq atStart a).captures? text = some groups ↔ ∃ x, P x ∧ groups = kept x := by
  constructor
  · exact hsound groups
  · intro h
    obtain ⟨x, hx, rfl⟩ := h
    obtain ⟨groups, hfound⟩ := (hmatches x hx).exists_captures?
    obtain ⟨y, hy, rfl⟩ := hsound groups hfound
    rw [hfound, hunique x y hx hy]

theorem captures?_name_iff {L : List Char → Prop} (ha : a.Reads L) {text : List Char}
    {P : List Char → Prop} (hP : ∀ n, P n ↔ ∃ lead rest, L lead ∧ IsName n ∧ EndsName rest ∧
      text = lead ++ (n ++ rest)) (hunique : ∀ n n', P n → P n' → n = n')
    {groups : List (List Char)} :
    (seq atStart (seq a (group name))).captures? text = some groups ↔
      ∃ n, P n ∧ groups = [n] := by
  apply captures?_iff_of_unique _ _ hunique
  · intro groups h
    rw [captures?_atStart] at h
    obtain ⟨t, hfirst, rfl⟩ := Option.map_eq_some_iff.1 h
    obtain ⟨u, hu, hname⟩ := exists_first?_of_seq hfirst
    obtain ⟨lead, behind, hlead, hsplit, rfl⟩ := (ha _ u).1 hu
    obtain ⟨n, rest, hn, hrest, rfl, hgroups⟩ := first?_name hname
    exact ⟨n, (hP n).2 ⟨lead, rest, hlead, hn, hrest, hsplit⟩, hgroups⟩
  · intro n hn
    obtain ⟨lead, rest, hlead, hname, -, hsplit⟩ := (hP n).1 hn
    rw [hsplit]
    exact ha.matches_seq hlead (reads_name.matches hname rest).group

end Search

/-- Where every match has some length, a text can be cut. -/
theorem exists_cuts {a : Pattern} (h : ∀ s t, t ∈ a.ends s → t.rest.length < s.rest.length)
    (passed text : List Char) : ∃ hits kept, Cuts a passed text hits kept := by
  induction hlength : text.length using Nat.strongRecOn generalizing passed text with
  | ind n ih =>
    subst hlength
    cases text with
    | nil => exact ⟨[], [], .done⟩
    | cons c rest =>
      cases hfirst : a.first? ⟨passed, c :: rest, []⟩ with
      | none =>
        obtain ⟨hits, kept, hcuts⟩ := ih rest.length (Nat.lt_succ_self _) (passed ++ [c]) rest rfl
        exact ⟨hits, c :: kept, .miss hfirst hcuts⟩
      | some t =>
        have hshorter : t.rest.length < (c :: rest).length := h _ t (mem_of_first? hfirst)
        obtain ⟨hits, kept, hcuts⟩ := ih t.rest.length hshorter t.passed t.rest rfl
        exact ⟨_, kept, .hit hfirst hshorter hcuts⟩

/-- If every cut leaves what a function gives, the function takes out the matches. -/
theorem leaves_iff {a : Pattern} {f : List Char → List Char}
    (hends : ∀ s t, t ∈ a.ends s → t.rest.length < s.rest.length)
    (hcuts : ∀ passed text hits kept, Cuts a passed text hits kept → kept = f text)
    {text code : List Char} : a.Leaves text code ↔ code = f text := by
  constructor
  · intro h
    obtain ⟨hits, hcut⟩ := h
    exact hcuts [] text hits code hcut
  · intro h
    obtain ⟨hits, kept, hcut⟩ := exists_cuts hends [] text
    rw [h, ← hcuts [] text hits kept hcut]
    exact ⟨hits, hcut⟩

end Pattern

end TalOutline
