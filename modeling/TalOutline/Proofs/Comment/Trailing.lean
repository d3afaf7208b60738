import Mathlib.Data.List.Forall2
import TalOutline.Proofs.Comment.Bracketed
import TalOutline.Proofs.Comment.Quoted
import TalOutline.Proofs.Declaration.Grammar
import TalOutline.Proofs.Fold.Passes
import TalOutline.Proofs.Outline.Locality

/-!
Dash comments behind lines. All that such a comment takes away from the code of its line is white space
at the end, and there it makes no difference to the keywords and to the declaration. So neither the
blocks nor the procs of a document depend on what its lines have in comments at their ends.
-/
namespace TalOutline

open Text

namespace Comment

/-- The line itself, or the line with a dash comment behind it. -/
inductive Noted (line : Line) : Line → Prop
  | same : Noted line line
  | note {c : List Char} (noNewline : '\n' ∉ c) : Noted line (line ++ ' ' :: '-' :: '-' :: c)

section Strip

variable {line gap text c : List Char}

theorem opensBang_append_blank (hgap : AllBlank gap) (text : List Char) :
    opensBang (text ++ gap) = opensBang text := by
  induction text with
  | nil =>
    have hbang : '!' ∉ gap := fun hmem => absurd (hgap '!' hmem) (by decide)
    rw [List.nil_append, opensBang_eq_false hbang]
    rfl
  | cons d text ih =>
    unfold opensBang trimStart at ih ⊢
    cases hd : isBlank d with
    | true =>
      rw [List.cons_append, List.dropWhile_cons_of_pos hd, List.dropWhile_cons_of_pos hd, ih]
    | false =>
      rw [List.cons_append, List.dropWhile_cons_of_neg (by simp [hd]),
        List.dropWhile_cons_of_neg (by simp [hd])]
      rfl

/-- White space at the end of a text stays at its end, or goes. -/
theorem exists_dropBang_append (hgap : AllBlank gap) (place : Place) (text : List Char) :
    ∃ left, AllBlank left ∧ dropBang place (text ++ gap) = dropBang place text ++ left := by
  fun_induction dropBang place text with
  | case1 place =>
    refine ⟨dropBang place gap, ?_, rfl⟩
    intro d hd
    exact hgap d ((dropBang_sublist place gap).subset hd)
  | case2 d rest ih => exact ih
  | case3 rest ih => exact ih
  | case4 d rest hd hblank ih =>
    rw [List.cons_append, dropBang, if_neg hd, if_pos hblank]
    exact ih
  | case5 d rest hd hblank ih =>
    obtain ⟨left, hleft, heq⟩ := ih
    refine ⟨left, hleft, ?_⟩
    rw [List.cons_append, dropBang, if_neg hd, if_neg hblank, heq, List.cons_append]
  | case6 rest ih => exact ih
  | case7 d rest hd hopens ih =>
    rw [List.cons_append, dropBang, if_neg hd, opensBang_append_blank hgap, if_pos hopens]
    exact ih
  | case8 d rest hd hopens ih =>
    obtain ⟨left, hleft, heq⟩ := ih
    refine ⟨left, hleft, ?_⟩
    rw [List.cons_append, dropBang, if_neg hd, opensBang_append_blank hgap, if_neg hopens, heq,
      List.cons_append]

theorem exists_strip_note (hline : '\n' ∉ line) (hc : '\n' ∉ c) :
    ∃ gap, AllBlank gap ∧ strip line = strip (line ++ ' ' :: '-' :: '-' :: c) ++ gap := by
  have hnote : '\n' ∉ line ++ ' ' :: '-' :: '-' :: c := by simp [hline, hc]
  have hinfix : ['-', '-'] <:+: line ++ ' ' :: '-' :: '-' :: c :=
    ⟨line ++ [' '], c, by simp⟩
  by_cases hdashes : ['-', '-'] <:+: line
  · -- A comment is there already, and the new one is part of it.
    refine ⟨[], nofun, ?_⟩
    unfold strip
    rw [dropDash_eq_undashed hline, dropDash_eq_undashed hnote, undashed, undashed, if_pos hdashes,
      if_pos hinfix, beforeDashes_append hdashes, List.append_nil]
  · -- The new comment is the first, and it takes the white space before it along.
    have hfirst : ¬ ['-', '-'] <:+: (line ++ [' ']) ++ ['-'] := by
      rw [List.append_assoc]
      exact not_dashes_append hdashes (by decide) (by decide)
    have hassoc : line ++ ' ' :: '-' :: '-' :: c = (line ++ [' ']) ++ '-' :: '-' :: c := by simp
    have hcut : dropDash false (line ++ ' ' :: '-' :: '-' :: c) = trimEnd line := by
      rw [hassoc] at hnote ⊢
      rw [dropDash_append hnote hfirst, trimEnd_append_blank]
    have hsplit : trimEnd line ++ line.rtakeWhile isBlank = line :=
      List.rdropWhile_append_rtakeWhile
    have hblank : AllBlank (line.rtakeWhile isBlank) := fun d hd => List.mem_rtakeWhile_imp hd
    obtain ⟨left, hleft, heq⟩ := exists_dropBang_append hblank .code (trimEnd line)
    refine ⟨left, hleft, ?_⟩
    unfold strip
    rw [hcut, dropDash_eq_self hdashes, ← heq, hsplit]

end Strip

section Blanks

variable {gap : List Char}

theorem keywords_append_blank (hgap : AllBlank gap) (code : List Char) :
    keywords (code ++ gap) = keywords code := by
  by_cases hne : gap = []
  · rw [hne, List.append_nil]
  · have hsep : Gap gap := gap_of_blank hgap hne
    have heven : evenQuotes (gap ++ []) = evenQuotes [] := hsep.evenQuotes_append []
    have hbehind := hsep.keywords_append code []
    have hbare := keywords_append code []
    rw [keywordsIn_congr heven fun _ => ⟨hsep.head_append [], rfl⟩] at hbehind
    rw [List.append_nil] at hbehind hbare
    rw [hbehind, hbare]
    rfl

theorem endsName_append_blank_iff (hgap : AllBlank gap) {rest : List Char} :
    EndsName (rest ++ gap) ↔ EndsName rest := by
  cases rest with
  | nil =>
    have hnil : EndsName [] := endsName_iff.2 rfl
    have happend := endsName_append hgap hnil
    rw [List.append_nil] at happend
    exact iff_of_true happend hnil
  | cons c rest => exact Iff.rfl

/-- A name does not reach into white space. -/
theorem eq_nil_of_name_append {lead name code more : List Char} (hname : IsName name)
    (hmore : AllBlank more) (h : lead ++ name = code ++ more) : more = [] := by
  have hblank {c : Char} (hc : c ∈ name) : isBlank c = false :=
    isBlank_of_isNameChar (isNameChar_iff.2 (hname.chars c hc))
  have hname_suffix : name <:+ code ++ more := h ▸ List.suffix_append lead name
  rcases List.suffix_or_suffix_of_suffix hname_suffix (List.suffix_append code more) with hs | hs
  · obtain ⟨c, rest, rfl⟩ := List.exists_cons_of_ne_nil hname.ne_nil
    have hc : isBlank c = true := hmore c (hs.subset List.mem_cons_self)
    rw [hblank List.mem_cons_self] at hc
    cases hc
  · apply List.eq_nil_iff_forall_not_mem.2
    intro c hc
    have hcblank : isBlank c = true := hmore c hc
    rw [hblank (hs.subset hc)] at hcblank
    cases hcblank

theorem declares_append_blank_iff (hgap : AllBlank gap) {routine : Routine} {name code : List Char} :
    Declaration.Declares routine name (code ++ gap) ↔ Declaration.Declares routine name code := by
  constructor
  · intro h
    obtain ⟨lead, rest, hlead, hname, hrest, hsplit⟩ := h
    rw [← List.append_assoc] at hsplit
    rcases List.append_eq_append_iff.1 hsplit with ⟨more, hcode, hmore⟩ | ⟨left, hcode, hleft⟩
    · have hblank : AllBlank more := fun c hc => hgap c (by rw [hmore]; exact List.mem_append_left _ hc)
      obtain rfl := eq_nil_of_name_append hname hblank hcode
      rw [List.append_nil] at hcode
      exact ⟨lead, [], hlead, hname, endsName_iff.2 rfl, by rw [← hcode, List.append_nil]⟩
    · rw [hleft] at hrest
      refine ⟨lead, left, hlead, hname, (endsName_append_blank_iff hgap).1 hrest, ?_⟩
      rw [hcode, List.append_assoc]
  · intro h
    obtain ⟨lead, rest, hlead, hname, hrest, rfl⟩ := h
    exact ⟨lead, rest ++ gap, hlead, hname, (endsName_append_blank_iff hgap).2 hrest, by simp⟩

theorem parse?_append_blank (hgap : AllBlank gap) (code : List Char) :
    Declaration.parse? (code ++ gap) = Declaration.parse? code := by
  apply Option.ext
  intro d
  rw [Declaration.parse?_eq_some_iff, Declaration.parse?_eq_some_iff, declares_append_blank_iff hgap]

theorem ofCode_append_blank (hgap : AllBlank gap) (code : List Char) :
    Facts.ofCode (code ++ gap) = Facts.ofCode code := by
  unfold Facts.ofCode begins ends linkage?
  rw [keywords_append_blank hgap, parse?_append_blank hgap]

end Blanks

namespace Noted

variable {line line' : Line} {lines lines' : List Line}

theorem exists_strip (h : Noted line line') (hline : '\n' ∉ line) :
    ∃ gap, AllBlank gap ∧ strip line = strip line' ++ gap := by
  cases h with
  | same => exact ⟨[], nofun, (List.append_nil _).symm⟩
  | note hc => exact exists_strip_note hline hc

theorem ofLine_eq (h : Noted line line') (hline : '\n' ∉ line) :
    Facts.ofLine line = Facts.ofLine line' := by
  obtain ⟨gap, hgap, hstrip⟩ := h.exists_strip hline
  rw [Facts.ofLine, Facts.ofLine, hstrip, ofCode_append_blank hgap]

theorem blockWords_eq (h : Noted line line') (hline : '\n' ∉ line) :
    Fold.blockWords line = Fold.blockWords line' := by
  obtain ⟨gap, hgap, hstrip⟩ := h.exists_strip hline
  unfold Fold.blockWords blockKeywords
  rw [hstrip, keywords_append_blank hgap]

end Noted

end Comment

/-- The same range, with the column where it ends left out. -/
def Range.withoutEndColumn (r : Range) : Range :=
  { r with stop.character := 0 }

def Symbol.withoutEndColumns (s : Symbol) : Symbol :=
  { s with range := s.range.withoutEndColumn, selection := s.selection.withoutEndColumn }

/-- The lines of a document decide no more of an entry than the columns where it ends. -/
theorem Proc.withoutEndColumns_measure (lines lines' : List Line) (p : Proc) :
    (p.tree.map (Item.measure lines)).map Symbol.withoutEndColumns =
      (p.tree.map (Item.measure lines')).map Symbol.withoutEndColumns := by
  rw [Tree.map_map, Tree.map_map]
  rfl

namespace Comment

/--
Comments behind the lines of a document change no block, and of the procs no more than the columns
where they end.
-/
theorem blocks_procSymbols_of_noted {lines lines' : List Line} (hlines : ∀ line ∈ lines, '\n' ∉ line)
    (h : List.Forall₂ Noted lines lines') :
    Fold.blocks lines' = Fold.blocks lines ∧
    (Outline.procSymbols lines').map (Tree.map Symbol.withoutEndColumns) =
      (Outline.procSymbols lines).map (Tree.map Symbol.withoutEndColumns) := by
  have hnoted := (List.forall₂_and_left lines lines').2 ⟨hlines, h⟩
  constructor
  · exact (Fold.blocks_congr (hnoted.imp fun _ _ hline => hline.2.blockWords_eq hline.1)).symm
  · have hfacts : lines.map Facts.ofLine = lines'.map Facts.ofLine := by
      rw [← List.forall₂_eq_eq_eq, List.forall₂_map_left_iff, List.forall₂_map_right_iff]
      exact hnoted.imp fun _ _ hline => hline.2.ofLine_eq hline.1
    unfold Outline.procSymbols Survey.ofLines
    rw [hfacts, List.map_map, List.map_map]
    exact List.map_congr_left fun p _ => p.withoutEndColumns_measure lines' lines

def openBang : List Line :=
  ["proc a; ! begin".toList, "begin s := \"x\"; -- end".toList, "s := \"end\";".toList,
    "end;".toList]

def openBangNoted : List Line :=
  ["proc a; ! begin".toList ++ ' ' :: '-' :: '-' :: "! external".toList,
    "begin s := \"x\"; -- end".toList ++ ' ' :: '-' :: '-' :: " \"end".toList,
    "s := \"end\";".toList, "end;".toList ++ ' ' :: '-' :: '-' :: " begin proc b".toList]

theorem blocks_procSymbols_of_noted_openBang :
    (∀ line ∈ openBang, '\n' ∉ line) ∧ List.Forall₂ Noted openBang openBangNoted ∧
    Fold.blocks openBang = [⟨1, 2, .region⟩] ∧ Fold.blocks openBangNoted = Fold.blocks openBang ∧
    (Outline.procSymbols openBangNoted).map (Tree.map Symbol.withoutEndColumns) =
      (Outline.procSymbols openBang).map (Tree.map Symbol.withoutEndColumns) := by
  have hlines : ∀ line ∈ openBang, '\n' ∉ line := by decide
  have hnoted : List.Forall₂ Noted openBang openBangNoted :=
    .cons (.note (by decide)) (.cons (.note (by decide)) (.cons .same (.cons (.note (by decide)) .nil)))
  have hblocks : Fold.blocks openBang = [⟨1, 2, .region⟩] := by decide
  exact ⟨hlines, hnoted, hblocks, blocks_procSymbols_of_noted hlines hnoted⟩

end Comment

end TalOutline
