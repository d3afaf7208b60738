import TalOutline.Outline.Symbols
import TalOutline.Proofs.Case.Line
import TalOutline.Proofs.Fold.Passes
import TalOutline.Proofs.Outline.Closing

/-!
Documents in lower case. Each step of the outline and of the folds makes of lower case what it makes of
the lines themselves, but for the case of names and ids, and ids are compared up to case. So two
documents that differ in case only have the same folds, and outlines that differ in the case of names
only.
-/
namespace TalOutline

open Text

namespace Facts

def lower (f : Facts) : Facts :=
  { f with declared := f.declared.map Declaration.lower }

theorem ofLine_lower (line : Line) : ofLine (Text.lower line) = (ofLine line).lower := by
  simp only [ofLine, ofCode, lower, TalOutline.begins, TalOutline.ends, linkage?, Comment.strip_lower,
    keywords_lower, Declaration.parse?_lower]

theorem declares?_lower (f : Facts) (routine : Routine) :
    f.lower.declares? routine = (f.declares? routine).map Text.lower := by
  unfold declares? lower
  cases f.declared with
  | none => rfl
  | some d =>
    simp only [Option.map_some, Declaration.lower]
    split <;> rfl

end Facts

section Names

theorem toList_toLower (s : String) : s.toLower.toList = lower s.toList :=
  String.toList_map

theorem ofList_lower (name : List Char) :
    String.ofList (lower name) = (String.ofList name).toLower := by
  apply String.toList_inj.1
  rw [toList_toLower, String.toList_ofList, String.toList_ofList]

theorem toLower_main (name : String) : ("main: " ++ name).toLower = "main: " ++ name.toLower := by
  have hmain : lower "main: ".toList = "main: ".toList := by decide
  apply String.toList_inj.1
  rw [toList_toLower, String.toList_append, String.toList_append, toList_toLower, lower_append, hmain]

def Item.lower (item : Item) : Item :=
  { item with name := item.name.toLower }

/-- The same entry, with its name in lower case. -/
def Symbol.lower (s : Symbol) : Symbol :=
  { s with name := s.name.toLower }

def Subproc.lower (s : Subproc) : Subproc :=
  { s with name := s.name.toLower }

def Proc.lower (p : Proc) : Proc :=
  { p with name := p.name.toLower, subprocs := p.subprocs.map Subproc.lower }

def Survey.lower (s : Survey) : Survey :=
  { s with procs := s.procs.map Proc.lower }

end Names

/-- The body of a subproc does not depend on what is declared in it. -/
theorem Body.read_lower (depth n : Nat) (lines : List Facts) :
    read depth n (lines.map Facts.lower) = read depth n lines := by
  induction lines generalizing depth n with
  | nil => rfl
  | cons f rest ih =>
    rw [List.map_cons, read, read]
    have hlinkage : f.lower.linkageAt depth = f.linkageAt depth := rfl
    have hcloses : f.lower.closes depth = f.closes depth := rfl
    rw [hlinkage, hcloses, ih]
    rfl

namespace Proc

theorem readBody_lower (skip depth n : Nat) (lines : List Facts) :
    readBody skip depth n (lines.map Facts.lower) =
      ((readBody skip depth n lines).1, (readBody skip depth n lines).2.map Subproc.lower) := by
  induction lines generalizing skip depth n with
  | nil => cases skip <;> rfl
  | cons f rest ih =>
    cases skip with
    | succ j => exact ih j depth (n + 1)
    | zero =>
      have hlinkage : f.lower.linkageAt depth = f.linkageAt depth := rfl
      have hcloses : f.lower.closes depth = f.closes depth := rfl
      have hread := Body.read_lower 0 n (f :: rest)
      rw [List.map_cons] at hread ⊢
      rw [readBody, readBody, hlinkage, hcloses, Facts.declares?_lower]
      cases f.linkageAt depth with
      | some linkage => rfl
      | none =>
        cases f.declares? .subproc with
        | some name =>
          -- The subproc takes as many lines, so as many are passed over behind it.
          dsimp only [Option.map_some]
          rw [hread, ih, ofList_lower]
          rfl
        | none =>
          dsimp only [Option.map_none]
          split
          · rfl
          · rw [ih]
            rfl

theorem read_lower (name : String) (n : Nat) (lines : List Facts) :
    read name.toLower n (lines.map Facts.lower) = (read name n lines).lower := by
  simp only [read, readBody_lower, lower]

end Proc

theorem Survey.readFrom_lower (skip n : Nat) (lines : List Facts) :
    readFrom skip n (lines.map Facts.lower) = (readFrom skip n lines).lower := by
  induction lines generalizing skip n with
  | nil => cases skip <;> rfl
  | cons f rest ih =>
    cases skip with
    | succ j => exact ih j (n + 1)
    | zero =>
      have hread (name : List Char) := Proc.read_lower (.ofList name) n (f :: rest)
      rw [List.map_cons] at hread ⊢
      rw [readFrom, readFrom, Facts.declares?_lower]
      cases f.declares? .proc with
      | none =>
        dsimp only [Option.map_none]
        rw [ih]
        rfl
      | some name =>
        dsimp only [Option.map_some]
        rw [ofList_lower, hread, ih]
        rfl

theorem Survey.ofLines_lower (lines : List Line) :
    ofLines (lines.map Text.lower) = (ofLines lines).lower := by
  have hfacts : (lines.map Text.lower).map Facts.ofLine = (lines.map Facts.ofLine).map Facts.lower := by
    rw [List.map_map, List.map_map]
    exact List.map_congr_left fun line _ => Facts.ofLine_lower line
  unfold ofLines
  rw [hfacts, readFrom_lower]

namespace Proc

theorem mainItem?_lower (p : Proc) : p.lower.mainItem? = p.mainItem?.map Item.lower := by
  unfold mainItem? lower
  dsimp only
  rw [List.getLast?_map]
  cases p.subprocs.getLast? with
  | none => rfl
  | some sub =>
    have hlast : sub.lower.last = sub.last := rfl
    simp only [Option.map_some, hlast]
    split
    · simp only [Option.map_some, Item.lower, toLower_main]
    · rfl

theorem tree_lower (p : Proc) : p.lower.tree = p.tree.map Item.lower := by
  have hsubs : (p.subprocs.map Subproc.lower).map Subproc.item =
      (p.subprocs.map Subproc.item).map Item.lower := by
    rw [List.map_map, List.map_map]
    rfl
  have hmain : p.lower.mainItem?.toList = p.mainItem?.toList.map Item.lower := by
    rw [mainItem?_lower]
    cases p.mainItem? <;> rfl
  have hnode (item : Item) : (Tree.node item.lower ((p.lower.subprocs.map Subproc.item ++
      p.lower.mainItem?.toList).map .leaf) : Tree Item) =
      (Tree.node item ((p.subprocs.map Subproc.item ++ p.mainItem?.toList).map .leaf)).map
        Item.lower := by
    rw [Tree.map, Tree.mapForest_eq, List.map_map, hmain, lower]
    dsimp only
    rw [hsubs, ← List.map_append, List.map_map]
    rfl
  have hending : p.lower.body.ending = p.body.ending := rfl
  unfold tree
  rw [hending]
  split
  · rfl
  · exact hnode ⟨p.name, .proc, none, p.start, p.body.next - 1⟩

end Proc

namespace Heading

def lower (h : Heading) : Heading :=
  { h with name := h.name.toLower }

theorem ofLine?_lower (n : Nat) (line : Line) :
    ofLine? n (Text.lower line) = (ofLine? n line).map lower := by
  unfold ofLine?
  rw [sectionName?_lower, pageTitle?_lower]
  cases sectionName? line with
  | some name => simp only [Option.map_some, ofList_lower, lower]
  | none =>
    cases pageTitle? line with
    | none => rfl
    | some title => simp only [Option.map_none, Option.map_some, ofList_lower, lower]

theorem ofLines_lower (lines : List Line) :
    ofLines (lines.map Text.lower) = (ofLines lines).map lower := by
  unfold ofLines
  rw [List.zipIdx_map, List.filterMap_map, List.map_filterMap]
  congr 1
  funext ⟨line, n⟩
  exact ofLine?_lower n line

def Outlined.lower (o : Outlined) : Outlined :=
  { o with
    pages := o.pages.map (Tree.map Item.lower)
    sections := o.sections.map (Tree.map Item.lower) }

theorem outline_lower (count : Nat) (headings : List Heading) :
    outline count (headings.map lower) = (outline count headings).lower := by
  induction headings with
  | nil => rfl
  | cons h rest ih =>
    have hkind : h.lower.kind = h.kind := rfl
    rw [List.map_cons, outline, outline, ih, Outlined.cons, Outlined.cons, hkind]
    split
    · simp only [Outlined.lower, List.map_cons, Tree.map, Tree.mapForest_eq, List.map_nil]
      rfl
    · rfl

theorem trees_lower (lines : List Line) :
    trees (lines.map Text.lower) = (trees lines).map (Tree.map Item.lower) := by
  rw [trees_eq, trees_eq, List.length_map, ofLines_lower, outline_lower, List.map_append]
  rfl

end Heading

namespace Outline

theorem items_lower (lines : List Line) :
    items (lines.map Text.lower) = (items lines).map (Tree.map Item.lower) := by
  have htrees (procs : List Proc) :
      (procs.map Proc.lower).map Proc.tree = (procs.map Proc.tree).map (Tree.map Item.lower) := by
    rw [List.map_map, List.map_map]
    exact List.map_congr_left fun p _ => p.tree_lower
  unfold items
  rw [Survey.ofLines_lower, Survey.lower]
  cases (Survey.ofLines lines).procs with
  | nil => exact Heading.trees_lower lines
  | cons p procs => exact htrees (p :: procs)

theorem widthAt_lower (lines : List Line) (n : Nat) :
    widthAt (lines.map lower) n = widthAt lines n := by
  unfold widthAt
  rw [List.getElem?_map, Option.map_map]
  cases lines[n]? with
  | none => rfl
  | some line => exact units_lower line

theorem measure_lower (lines : List Line) (item : Item) :
    item.lower.measure (lines.map Text.lower) = (item.measure lines).lower := by
  simp only [Item.measure, Item.lower, Symbol.lower, Range.line, Range.spanning, widthAt_lower]

theorem symbols_lower (lines : List Line) :
    symbols (lines.map Text.lower) = (symbols lines).map (Tree.map Symbol.lower) := by
  unfold symbols
  rw [Tree.mapForest_eq, Tree.mapForest_eq, items_lower, List.map_map, List.map_map]
  apply List.map_congr_left
  intro t _
  rw [Function.comp_apply, Function.comp_apply, Tree.map_map, Tree.map_map]
  congr 1
  funext item
  exact measure_lower lines item

end Outline

namespace Fold

def OpenToggle.lower (o : OpenToggle) : OpenToggle :=
  { o with toggle := o.toggle.lower }

/-- Ids are compared up to case already. -/
theorem closes_lower (t earlier : Toggle) : t.lower.closes earlier.lower = t.closes earlier := by
  have hids : sameAsciiCase t.lower.id earlier.lower.id = sameAsciiCase t.id earlier.id := by
    rw [Bool.eq_iff_iff, sameAsciiCase_iff, sameAsciiCase_iff, Toggle.lower, Toggle.lower, lower_lower,
      lower_lower]
  unfold Toggle.closes
  rw [hids]
  rfl

theorem stepToggle_lower (opened : List OpenToggle) (n : Nat) (t : Toggle) :
    stepToggle (opened.map OpenToggle.lower) n t.lower =
      ((stepToggle opened n t).1.map OpenToggle.lower, (stepToggle opened n t).2) := by
  have hcloses : (fun o : OpenToggle => t.lower.closes o.toggle) ∘ OpenToggle.lower =
      fun o => t.closes o.toggle := by
    funext o
    exact closes_lower t o.toggle
  have hkind : t.lower.kind = t.kind := rfl
  unfold stepToggle
  dsimp only
  rw [List.find?_map, List.eraseP_map, hcloses, hkind]
  congr 1
  · split <;> rfl
  · cases opened.find? fun o => t.closes o.toggle <;> rfl

/-- The trackers of toggles, comments and blocks go the same way over both documents. -/
theorem all_lower (lines : List Line) : all (lines.map lower) = all lines := by
  have hlines : List.Forall₂ (fun line line' => line' = lower line) lines (lines.map lower) :=
    List.forall₂_map_right_iff.2 (List.forall₂_same.2 fun _ _ => rfl)
  have htoggles : toggles lines = toggles (lines.map lower) := by
    refine Tracker.run_eq_of_related (R := fun o o' => o' = o.map OpenToggle.lower) ?_
      (fun _ _ _ _ => rfl) hlines rfl 0
    intro s s' n line line' hs hline
    subst hs hline
    simp only [toggleTracker, Toggle.parse?_lower]
    cases Toggle.parse? line with
    | none => exact ⟨rfl, rfl⟩
    | some t => simp only [Option.map_some, stepToggle_lower, and_self]
  have hcomments : comments lines = comments (lines.map lower) := by
    refine Tracker.run_eq_of_related (R := Eq) ?_ ?_ hlines rfl 0
    · intro s s' n line line' hs hline
      subst hs hline
      simp only [commentTracker, isCommentLine_lower, and_self]
    · intro s s' n hs
      rw [hs]
  have hblocks : blocks lines = blocks (lines.map lower) :=
    blocks_congr (hlines.imp fun line line' hline => by rw [hline, blockWords_lower])
  rw [all_eq, all_eq, htoggles, hcomments, hblocks]

end Fold

/--
Two documents that differ in the case of ASCII letters only have the same folds, and the same outline
but for the case of names.
-/
theorem folds_symbols_of_sameAsciiCase {lines lines' : List Line}
    (h : List.Forall₂ (fun line line' => sameAsciiCase line line' = true) lines lines') :
    Fold.all lines = Fold.all lines' ∧
    (Outline.symbols lines).map (Tree.map Symbol.lower) =
      (Outline.symbols lines').map (Tree.map Symbol.lower) := by
  have hlower : lines.map lower = lines'.map lower := by
    rw [← List.forall₂_eq_eq_eq, List.forall₂_map_left_iff, List.forall₂_map_right_iff]
    exact h.imp fun _ _ hline => sameAsciiCase_iff.1 hline
  constructor
  · rw [← Fold.all_lower lines, ← Fold.all_lower lines', hlower]
  · rw [← Outline.symbols_lower, ← Outline.symbols_lower, hlower]

/-- A proc inside a toggle whose id is not always in the same case. -/
def inCapitals : List Line :=
  ["?IF Debug", "INT PROC Alpha;", "BEGIN", "SubProc B;", "Begin", "End;", "-- BEGIN", "END;",
    "?EndIf DEBUG"].map String.toList

def inSmall : List Line :=
  ["?if dEBUG", "int proc aLPHA;", "begin", "subproc b;", "BEGIN", "END;", "-- begin", "end;",
    "?endif debug"].map String.toList

theorem folds_symbols_of_sameAsciiCase_inCapitals :
    List.Forall₂ (fun line line' => sameAsciiCase line line' = true) inCapitals inSmall ∧
    Fold.all inCapitals = [⟨0, 7, .region⟩, ⟨2, 6, .region⟩] ∧
    Fold.all inCapitals = Fold.all inSmall ∧
    (Outline.symbols inCapitals).map (Tree.map Symbol.lower) =
      (Outline.symbols inSmall).map (Tree.map Symbol.lower) := by
  have hsame : List.Forall₂ (fun line line' => sameAsciiCase line line' = true) inCapitals inSmall := by
    unfold inCapitals inSmall
    simp only [List.map_cons, List.map_nil, List.forall₂_cons, List.forall₂_nil_left_iff]
    decide
  have hfolds : Fold.all inCapitals = [⟨0, 7, .region⟩, ⟨2, 6, .region⟩] := by decide
  exact ⟨hsame, hfolds, folds_symbols_of_sameAsciiCase hsame⟩

end TalOutline
