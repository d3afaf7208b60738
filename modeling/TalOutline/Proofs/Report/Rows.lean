import TalOutline.Proofs.Outline.Labels
import TalOutline.Report.Basic

/-!
The outline as text is unambiguous. Names stand in it as they are, but none holds a line feed, so there is
a row for each entry. A row is read from its end, where nothing can be taken for part of the name: the last
brackets hold the kind, and the kinds tell the depths, so that the indentation is told from blanks that
the name begins with.
-/
namespace TalOutline

def Range.withoutColumns (r : Range) : Range :=
  ⟨⟨r.start.line, 0⟩, ⟨r.stop.line, 0⟩⟩

/-- The entry with its lines only. -/
def Symbol.withoutColumns (s : Symbol) : Symbol :=
  { s with range := s.range.withoutColumns, selection := s.selection.withoutColumns }

namespace Report

/-- A kind, after a detail if there is one. -/
def label (kind : ItemKind) (detail : Option Linkage) : List Char :=
  match detail with
  | none => kind.text.toList
  | some linkage => linkage.text.toList ++ ' ' :: kind.text.toList

/-- The line of an entry, without the line feed behind it. -/
def row (depth : Nat) (s : Symbol) : List Char :=
  List.replicate (2 * depth) ' ' ++ s.name.toList ++ [' '] ++ '(' :: (label s.kind s.detail) ++
    ')' :: ' ' :: lineSpan s.range.start.line s.range.stop.line

theorem symbolLine_eq (depth : Nat) (s : Symbol) : symbolLine depth s = row depth s ++ ['\n'] := by
  have hlabel : kindLabel s = label s.kind s.detail := rfl
  simp [symbolLine, row, hlabel]

theorem symbols_text_eq (outline : List (Tree Symbol)) :
    (symbols .text outline).toList =
      ((Tree.preorderForest 0 outline).map fun e => row e.1 e.2).flatMap (· ++ ['\n']) := by
  simp only [symbols, String.toList_ofList, List.flatMap_map, symbolLine_eq]

/-! What a row is made of. -/

theorem isDigit_of_mem_lineNumber {n : Nat} {c : Char} (h : c ∈ lineNumber n) : c.isDigit = true :=
  Nat.isDigit_of_mem_toDigits (by decide) (by decide) h

theorem lineNumber_inj {m n : Nat} (h : lineNumber m = lineNumber n) : m = n := by
  have hvalue := congrArg (Nat.ofDigitChars 10 · 0) h
  simp only [lineNumber, Nat.ofDigitChars_ten_toDigits] at hvalue
  omega

theorem notMem_lineSpan {c : Char} (hdigit : c.isDigit = false) (hdash : c ≠ '-') (first last : Nat) :
    c ∉ lineSpan first last := by
  have hnumber (n : Nat) : c ∉ lineNumber n := by
    intro hmem
    rw [isDigit_of_mem_lineNumber hmem] at hdigit
    cases hdigit
  simp [lineSpan, hnumber, hdash]

theorem lineSpan_inj {first last first' last' : Nat} (h : lineSpan first last = lineSpan first' last') :
    first = first' ∧ last = last' := by
  have hstop (n : Nat) : ('-' :: lineNumber n).head?.any Char.isDigit = false := rfl
  obtain ⟨hfirst, hrest⟩ := Text.eq_of_run_append (fun _ => isDigit_of_mem_lineNumber) (hstop last)
    (fun _ => isDigit_of_mem_lineNumber) (hstop last') h
  exact ⟨lineNumber_inj hfirst, lineNumber_inj (List.cons.inj hrest).2⟩

def allLabels : List (ItemKind × Option Linkage) :=
  [ItemKind.proc, .subproc, .sect, .page, .main].flatMap fun kind =>
    [(kind, none), (kind, some .forward), (kind, some .external)]

theorem mem_allLabels (kind : ItemKind) (detail : Option Linkage) : (kind, detail) ∈ allLabels := by
  obtain _ | linkage := detail
  · cases kind <;> decide
  · cases kind <;> cases linkage <;> decide

theorem label_inj {kind kind' : ItemKind} {detail detail' : Option Linkage}
    (h : label kind detail = label kind' detail') : kind = kind' ∧ detail = detail' := by
  have hall : ∀ a ∈ allLabels, ∀ b ∈ allLabels, label a.1 a.2 = label b.1 b.2 → a = b := by
    decide +kernel
  have heq := hall _ (mem_allLabels kind detail) _ (mem_allLabels kind' detail') h
  exact Prod.mk.inj heq

theorem notMem_label {c : Char} (h : ∀ a ∈ allLabels, c ∉ label a.1 a.2) (kind : ItemKind)
    (detail : Option Linkage) : c ∉ label kind detail :=
  h _ (mem_allLabels kind detail)

/-- A row tells all of its entry, and the name but for the blanks in front of it. -/
theorem row_inj {depth depth' : Nat} {s s' : Symbol} (h : row depth s = row depth' s') :
    List.replicate (2 * depth) ' ' ++ s.name.toList =
        List.replicate (2 * depth') ' ' ++ s'.name.toList ∧
      (s.kind = s'.kind ∧ s.detail = s'.detail) ∧
      s.range.start.line = s'.range.start.line ∧ s.range.stop.line = s'.range.stop.line := by
  have hspan (s : Symbol) : ')' ∉ ' ' :: lineSpan s.range.start.line s.range.stop.line := by
    rw [List.mem_cons, not_or]
    exact ⟨by decide, notMem_lineSpan rfl (by decide) _ _⟩
  have hlabel (s : Symbol) : '(' ∉ label s.kind s.detail := notMem_label (by decide +kernel) _ _
  obtain ⟨hfront, hlines⟩ := Text.eq_of_last_mark (hspan s) (hspan s') h
  obtain ⟨hname, hkind⟩ := Text.eq_of_last_mark (hlabel s) (hlabel s') hfront
  exact ⟨List.append_cancel_right hname, label_inj hkind, lineSpan_inj (List.cons.inj hlines).2⟩

theorem newline_notMem_row {s : Symbol} (hname : '\n' ∉ s.name.toList) (depth : Nat) :
    '\n' ∉ row depth s := by
  have hlabel : '\n' ∉ label s.kind s.detail := notMem_label (by decide +kernel) _ _
  have hspan := @notMem_lineSpan '\n' rfl (by decide) s.range.start.line s.range.stop.line
  simp [row, hname, hlabel, hspan]

theorem splitOn_rows {rows : List (List Char)} (h : ∀ row ∈ rows, '\n' ∉ row) :
    (rows.flatMap (· ++ ['\n'])).splitOn '\n' = rows ++ [[]] := by
  induction rows with
  | nil => rfl
  | cons row rows ih =>
    obtain ⟨hrow, hrows⟩ := List.forall_mem_cons.1 h
    rw [List.flatMap_cons, List.append_assoc, List.singleton_append,
      List.splitOn_append_cons_self_of_not_mem hrow, ih hrows, List.cons_append]

/-- The text of an outline has one row for each entry, in pre-order. -/
theorem splitOn_symbols {lines : List Line} (hlines : ∀ line ∈ lines, '\n' ∉ line) :
    (symbols .text (Outline.symbols lines)).toList.splitOn '\n' =
      ((Outline.nodes lines).map fun e => row e.1 e.2) ++ [[]] := by
  rw [symbols_text_eq]
  apply splitOn_rows
  intro r hr
  obtain ⟨e, he, rfl⟩ := List.mem_map.1 hr
  exact newline_notMem_row (Outline.newline_notMem_name hlines he) e.1

/-- Entries with the same rows are the same, if their kinds tell their depths. -/
theorem entries_eq_of_rows {lines lines' : List Line} (headed : Bool) {es es' : List (Nat × Item)}
    (hdepths : es.map Prod.fst = Outline.depths headed (es.map (·.2.kind)))
    (hdepths' : es'.map Prod.fst = Outline.depths headed (es'.map (·.2.kind)))
    (hrows : (es.map fun e => row e.1 (e.2.measure lines)) =
      es'.map fun e => row e.1 (e.2.measure lines')) : es = es' := by
  induction es generalizing headed es' with
  | nil =>
    rw [List.map_nil, eq_comm, List.map_eq_nil_iff] at hrows
    exact hrows.symm
  | cons e es ih =>
    cases es' with
    | nil => cases hrows
    | cons e' es' =>
      obtain ⟨depth, name, kind, detail, first, last⟩ := e
      obtain ⟨depth', name', kind', detail', first', last'⟩ := e'
      obtain ⟨hrow, hmore⟩ := List.cons.inj hrows
      obtain ⟨hname, ⟨hkind, hdetail⟩, hfirst, hlast⟩ := row_inj hrow
      obtain rfl : kind = kind' := hkind
      obtain rfl : detail = detail' := hdetail
      obtain rfl : first = first' := hfirst
      obtain rfl : last = last' := hlast
      -- The kind is known from the row, so the depths are the same and the names begin at one place.
      obtain ⟨hdepth, hbehind⟩ := List.cons.inj hdepths
      obtain ⟨hdepth', hbehind'⟩ := List.cons.inj hdepths'
      obtain rfl : depth = depth' := hdepth.trans hdepth'.symm
      obtain rfl : name = name' := String.toList_inj.1 (List.append_cancel_left hname)
      rw [ih _ hbehind hbehind' hmore]

/-- The text of an outline tells the entries with their lines. -/
theorem items_eq_of_text {lines lines' : List Line} (hlines : ∀ line ∈ lines, '\n' ∉ line)
    (hlines' : ∀ line ∈ lines', '\n' ∉ line)
    (h : symbols .text (Outline.symbols lines) = symbols .text (Outline.symbols lines')) :
    Outline.items lines = Outline.items lines' := by
  have hsplit := splitOn_symbols hlines
  rw [h, splitOn_symbols hlines'] at hsplit
  have hrows := (List.append_cancel_right hsplit).symm
  rw [Outline.nodes_eq, Outline.nodes_eq, List.map_map, List.map_map] at hrows
  exact Tree.preorderForest_inj
    (entries_eq_of_rows false (Outline.depths_eq lines) (Outline.depths_eq lines') hrows)

/-- Without columns the lines of a document count no more for its outline. -/
theorem mapForest_withoutColumns (lines : List Line) :
    Tree.mapForest Symbol.withoutColumns (Outline.symbols lines) =
      Tree.mapForest (Item.measure []) (Outline.items lines) := by
  rw [Outline.symbols, Tree.mapForest_mapForest]
  rfl

theorem symbols_text_withoutColumns (outline : List (Tree Symbol)) :
    symbols .text (Tree.mapForest Symbol.withoutColumns outline) = symbols .text outline := by
  rw [← String.toList_inj, symbols_text_eq, symbols_text_eq, Tree.preorderForest_mapForest,
    List.map_map]
  rfl

/--
The text of an outline has one row for each entry in pre-order, and outlines with the same text are the
same but for columns.
-/
theorem text_unambiguous (text text' : String) :
    (symbols .text (Outline.symbols (Document.linesOf text.toList))).toList.splitOn '\n' =
        ((Outline.nodes (Document.linesOf text.toList)).map fun e => row e.1 e.2) ++ [[]] ∧
      (symbols .text (Outline.symbols (Document.linesOf text.toList)) =
          symbols .text (Outline.symbols (Document.linesOf text'.toList)) ↔
        Tree.mapForest Symbol.withoutColumns (Outline.symbols (Document.linesOf text.toList)) =
          Tree.mapForest Symbol.withoutColumns (Outline.symbols (Document.linesOf text'.toList))) := by
  refine ⟨splitOn_symbols fun _ => Document.newline_notMem_of_linesOf, ?_, ?_⟩
  · intro h
    have hitems := items_eq_of_text (fun _ => Document.newline_notMem_of_linesOf)
      (fun _ => Document.newline_notMem_of_linesOf) h
    rw [mapForest_withoutColumns, mapForest_withoutColumns, hitems]
  · intro h
    rw [← symbols_text_withoutColumns, h, symbols_text_withoutColumns]

end Report

end TalOutline
