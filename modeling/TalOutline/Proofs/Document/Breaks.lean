import TalOutline.Fold.All
import TalOutline.Outline.Symbols
import TalOutline.Proofs.Outline.Labels
import TalOutline.Proofs.Text.Split

/-!
Reading the lines of a text undoes joining them, however they are joined. So it makes no difference for
folds and outlines which breaks a document has, nor whether they are all of one kind.
-/
namespace TalOutline.Document

/-- What ends a line: a line feed, alone or behind a carriage return. -/
inductive Break where
  | feed
  | returnFeed
  deriving DecidableEq, Repr

def Break.chars : Break → List Char
  | .feed => ['\n']
  | .returnFeed => ['\r', '\n']

/-- The text of lines, with a break of its own behind each but the last. -/
def joined (breaks : Nat → Break) : List Line → List Char
  | [] => []
  | [line] => line
  | line :: next :: rest => line ++ (breaks 0).chars ++ joined (fun n => breaks (n + 1)) (next :: rest)

/-- Lines that a text can have: what would be taken for a break is in none of them. -/
structure Separable (lines : List Line) : Prop where
  nonempty : lines ≠ []
  /-- One empty line makes the empty text, which has no line. -/
  ne_blank : lines ≠ [[]]
  feed : ∀ line ∈ lines, '\n' ∉ line
  carriage : ∀ line ∈ lines, line.getLast? ≠ some '\r'

theorem splitLines_eq_splitOn (text : List Char) : splitLines text = text.splitOn '\n' := by
  apply Text.eq_splitOn_of_cons
  · rfl
  · intro rest
    rfl
  · intro c rest line lines hc hrest
    rw [splitLines, if_neg hc, hrest]

theorem dropReturn_append_return (line : Line) : dropReturn (line ++ ['\r']) = line := by
  simp [dropReturn]

theorem dropReturn_of_ne {line : Line} (h : line.getLast? ≠ some '\r') : dropReturn line = line :=
  if_neg h

theorem map_dropReturn_splitLines_break {line : Line} (hfeed : '\n' ∉ line)
    (hcarriage : line.getLast? ≠ some '\r') (b : Break) (rest : List Char) :
    (splitLines (line ++ b.chars ++ rest)).map dropReturn =
      line :: (splitLines rest).map dropReturn := by
  cases b with
  | feed =>
    rw [Break.chars, List.append_assoc, List.singleton_append, splitLines_eq_splitOn,
      splitLines_eq_splitOn, List.splitOn_append_cons_self_of_not_mem hfeed, List.map_cons,
      dropReturn_of_ne hcarriage]
  | returnFeed =>
    have hpiece : '\n' ∉ line ++ ['\r'] := by simp [hfeed]
    have hsplit : line ++ ['\r', '\n'] ++ rest = (line ++ ['\r']) ++ '\n' :: rest := by simp
    rw [Break.chars, hsplit, splitLines_eq_splitOn, splitLines_eq_splitOn,
      List.splitOn_append_cons_self_of_not_mem hpiece, List.map_cons, dropReturn_append_return]

/-- The pieces of a joined text are its lines, but for carriage returns. -/
theorem map_dropReturn_splitLines_joined {lines : List Line} (hnonempty : lines ≠ [])
    (hfeed : ∀ line ∈ lines, '\n' ∉ line) (hcarriage : ∀ line ∈ lines, line.getLast? ≠ some '\r')
    (breaks : Nat → Break) : (splitLines (joined breaks lines)).map dropReturn = lines := by
  induction lines generalizing breaks with
  | nil => exact absurd rfl hnonempty
  | cons line rest ih =>
    obtain ⟨hline, hrest⟩ := List.forall_mem_cons.1 hfeed
    obtain ⟨hend, hends⟩ := List.forall_mem_cons.1 hcarriage
    cases rest with
    | nil =>
      rw [joined, splitLines_eq_splitOn, List.splitOn_eq_singleton hline, List.map_singleton,
        dropReturn_of_ne hend]
    | cons next rest =>
      rw [joined, map_dropReturn_splitLines_break hline hend, ih (List.cons_ne_nil _ _) hrest hends]

theorem joined_ne_nil {lines : List Line} (h : Separable lines) (breaks : Nat → Break) :
    joined breaks lines ≠ [] := by
  match lines with
  | [] => exact absurd rfl h.nonempty
  | [line] =>
    intro hline
    apply h.ne_blank
    rw [joined] at hline
    rw [hline]
  | line :: next :: rest =>
    rw [joined]
    cases breaks 0 <;> simp [Break.chars]

theorem linesOf_joined {lines : List Line} (h : Separable lines) (breaks : Nat → Break) :
    linesOf (joined breaks lines) = lines := by
  have hnonempty : (joined breaks lines).isEmpty = false :=
    List.isEmpty_eq_false_iff.2 (joined_ne_nil h breaks)
  rw [linesOf, hnonempty]
  exact map_dropReturn_splitLines_joined h.nonempty h.feed h.carriage breaks

theorem length_linesOf (text : List Char) :
    (linesOf text).length = if text = [] then 0 else text.count '\n' + 1 := by
  unfold linesOf
  by_cases htext : text = []
  · rw [htext]
    rfl
  · rw [List.isEmpty_eq_false_iff.2 htext, if_neg htext, ← length_splitLines]
    exact List.length_map _

/--
Whatever breaks lines are joined with, the document of the text has just these lines. Every document has
one line more than its text has line feeds, unless the text is empty, and no line holds one. So folds and
outlines are the same for all choices of breaks.
-/
theorem lines_ofText_joined (uri : String) (version : Int) :
    (∀ lines, Separable lines → ∀ breaks,
        (ofText uri version (.ofList (joined breaks lines))).lines = lines) ∧
      (∀ text, (∀ line ∈ (ofText uri version text).lines, '\n' ∉ line) ∧
        (ofText uri version text).lines.length =
          if text = "" then 0 else text.toList.count '\n' + 1) ∧
      ∀ lines, Separable lines → ∀ breaks breaks',
        Fold.all (ofText uri version (.ofList (joined breaks lines))).lines =
            Fold.all (ofText uri version (.ofList (joined breaks' lines))).lines ∧
          Outline.symbols (ofText uri version (.ofList (joined breaks lines))).lines =
            Outline.symbols (ofText uri version (.ofList (joined breaks' lines))).lines := by
  have hlines (lines : List Line) (h : Separable lines) (breaks : Nat → Break) :
      (ofText uri version (.ofList (joined breaks lines))).lines = lines := by
    rw [ofText, String.toList_ofList]
    exact linesOf_joined h breaks
  refine ⟨hlines, ?_, ?_⟩
  · intro text
    refine ⟨fun line => newline_notMem_of_linesOf, ?_⟩
    rw [ofText, length_linesOf]
    simp only [String.toList_eq_nil_iff]
  · intro lines h breaks breaks'
    rw [hlines lines h breaks, hlines lines h breaks']
    exact ⟨rfl, rfl⟩

theorem lines_ofText_joined_mixed :
    Separable [['b', 'e', 'g', 'i', 'n'], ['x', '\r', 'y'], []] ∧
      (ofText "a" 1 "begin\r\nx\ry\n").lines =
        [['b', 'e', 'g', 'i', 'n'], ['x', '\r', 'y'], []] := by
  have hseparable : Separable [['b', 'e', 'g', 'i', 'n'], ['x', '\r', 'y'], []] :=
    ⟨by decide, by decide, by decide, by decide⟩
  refine ⟨hseparable, ?_⟩
  exact (lines_ofText_joined "a" 1).1 _ hseparable fun n => if n = 0 then .returnFeed else .feed

end TalOutline.Document
