import Mathlib.Data.List.Infix
import TalOutline.Proofs.Comment.Bracketed
import TalOutline.Proofs.Text.Split

/-!
Comments as pieces of a line. The dash comment is cut off first. The bang marks then divide the line, and
every other piece is code; a piece of code loses its white space on each side where a comment is.
-/
namespace TalOutline

open Text

namespace Comment

/-- The part of a line before its first two dashes. -/
def beforeDashes : List Char → List Char
  | [] => []
  | c :: rest => if ['-', '-'].isPrefixOf (c :: rest) then [] else c :: beforeDashes rest

/-- A line without its dash comment and the white space before it. -/
def undashed (line : Line) : List Char :=
  if ['-', '-'] <:+: line then trimEnd (beforeDashes line) else line

/-- What is left of a piece between bang marks, of which the first has the index zero. -/
def keptPiece (last i : Nat) (piece : List Char) : List Char :=
  if i % 2 = 1 then []
  else
    let shorn := if 0 < i then trimStart piece else piece
    if i < last then trimEnd shorn else shorn

/-- A text without its bang comments and the white space around them. -/
def outsideBangs (text : List Char) : List Char :=
  let pieces := text.splitOn '!'
  pieces.zipIdx.flatMap fun p => keptPiece (pieces.length - 1) p.2 p.1

section Dashes

variable {line before after : List Char}

theorem exists_dashes (h : ['-', '-'] <:+: line) :
    ∃ after, line = beforeDashes line ++ '-' :: '-' :: after ∧
      ¬ ['-', '-'] <:+: beforeDashes line ++ ['-'] := by
  induction line with
  | nil => simp at h
  | cons c rest ih =>
    rw [beforeDashes]
    by_cases hstarts : ['-', '-'] <+: c :: rest
    · obtain ⟨after, hafter⟩ := hstarts
      rw [← hafter, if_pos (by simp)]
      exact ⟨after, rfl, by decide⟩
    · have hrest : ['-', '-'] <:+: rest := (List.infix_cons_iff.1 h).resolve_left hstarts
      obtain ⟨after, hsplit, hfirst⟩ := ih hrest
      rw [if_neg (mt List.isPrefixOf_iff_prefix.1 hstarts)]
      refine ⟨after, by rw [List.cons_append, ← hsplit], ?_⟩
      rw [List.cons_append, List.infix_cons_iff]
      rintro (hdashes | hdashes)
      · apply hstarts
        have hinitial : c :: (beforeDashes rest ++ ['-']) <+: c :: rest := by
          refine ⟨'-' :: after, ?_⟩
          rw [List.cons_append, List.append_assoc, List.singleton_append, ← hsplit]
        exact hdashes.trans hinitial
      · exact hfirst hdashes

theorem opensDash_append (hfirst : ¬ ['-', '-'] <:+: before ++ ['-']) (after : List Char) :
    opensDash (before ++ '-' :: '-' :: after) = before.all isBlank := by
  induction before with
  | nil => rfl
  | cons c before ih =>
    have hrest := ih (mt List.infix_cons hfirst)
    unfold opensDash trimStart at hrest ⊢
    cases hblank : isBlank c with
    | true =>
      rw [List.cons_append, List.dropWhile_cons_of_pos hblank, hrest, List.all_cons, hblank]
      rfl
    | false =>
      rw [List.cons_append, List.dropWhile_cons_of_neg (by simp [hblank]), List.all_cons, hblank,
        Bool.false_and]
      apply Bool.eq_false_iff.2
      intro hstarts
      have hdashes : ['-', '-'] <+: c :: (before ++ '-' :: '-' :: after) :=
        List.isPrefixOf_iff_prefix.1 hstarts
      have hinitial : c :: before ++ ['-'] <+: c :: (before ++ '-' :: '-' :: after) :=
        ⟨'-' :: after, by simp⟩
      exact hfirst (List.prefix_of_prefix_length_le hdashes hinitial (by simp)).isInfix

theorem dropDash_true (h : '\n' ∉ line) : dropDash true line = [] := by
  induction line with
  | nil => rfl
  | cons c rest ih =>
    obtain ⟨hc, hrest⟩ := not_or.1 (mt List.mem_cons.2 h)
    rw [dropDash, if_pos (by simp [Ne.symm hc]), ih hrest]

theorem dropDash_append (hline : '\n' ∉ before ++ '-' :: '-' :: after)
    (hfirst : ¬ ['-', '-'] <:+: before ++ ['-']) :
    dropDash false (before ++ '-' :: '-' :: after) = trimEnd before := by
  induction before with
  | nil =>
    have hrest : '\n' ∉ '-' :: after := mt (List.mem_cons_of_mem _) hline
    rw [List.nil_append, dropDash, if_pos (by rfl), dropDash_true hrest]
    rfl
  | cons c before ih =>
    have hrest : '\n' ∉ before ++ '-' :: '-' :: after := mt (List.mem_cons_of_mem c) hline
    have hopens := opensDash_append hfirst after
    rw [List.cons_append] at hopens
    rw [List.cons_append, dropDash, hopens, Bool.false_and, Bool.or_false, trimEnd_cons,
      ih hrest (mt List.infix_cons hfirst), dropDash_true hrest]
    rfl

theorem dropDash_eq_undashed (hline : '\n' ∉ line) : dropDash false line = undashed line := by
  unfold undashed
  split
  · next hdashes =>
    obtain ⟨after, hsplit, hfirst⟩ := exists_dashes hdashes
    rw [hsplit] at hline
    have hcut := dropDash_append hline hfirst
    rwa [← hsplit] at hcut
  · next hdashes => exact dropDash_eq_self hdashes

end Dashes

section Bangs

variable {piece : List Char}

/-- Where the piece of the given index stands with respect to bang comments. -/
def placeAt (i : Nat) : Place :=
  if i % 2 = 1 then .inside else if i = 0 then .code else .behind

theorem not_mem_trimStart (h : '!' ∉ piece) : '!' ∉ trimStart piece :=
  fun hmem => h ((List.dropWhile_suffix isBlank).subset hmem)

theorem trimStart_append_mark {mark : Char} (hmark : isBlank mark = false) (piece rest : List Char) :
    trimStart (piece ++ mark :: rest) = trimStart piece ++ mark :: rest := by
  have hstays : (mark :: rest).dropWhile isBlank = mark :: rest :=
    List.dropWhile_cons_of_neg (by simp [hmark])
  unfold trimStart
  rw [List.dropWhile_append, hstays]
  split
  · next hempty => rw [List.isEmpty_iff.1 hempty, List.nil_append]
  · rfl

theorem dropBang_placeAt (h : '!' ∉ piece) (i : Nat) :
    dropBang (placeAt i) piece = keptPiece i i piece := by
  unfold placeAt keptPiece
  by_cases hodd : i % 2 = 1
  · have hskip := dropBang_inside_skip h []
    rw [List.append_nil] at hskip
    rw [if_pos hodd, if_pos hodd, hskip]
    rfl
  · by_cases hzero : i = 0
    · subst hzero
      exact dropBang_code_eq_self h
    · have hpos : 0 < i := Nat.pos_of_ne_zero hzero
      simp only [hodd, hzero, hpos, if_false, if_true, Nat.lt_irrefl]
      rw [dropBang_behind, dropBang_code_eq_self (not_mem_trimStart h)]

/-- A piece before a mark, behind which the next piece stands. -/
theorem dropBang_placeAt_append (h : '!' ∉ piece) (rest : List Char) {i last : Nat}
    (hlast : i < last) : dropBang (placeAt i) (piece ++ '!' :: rest) =
      keptPiece last i piece ++ dropBang (placeAt (i + 1)) rest := by
  unfold keptPiece placeAt
  by_cases hodd : i % 2 = 1
  · have hnext : (i + 1) % 2 ≠ 1 := by omega
    simp only [hodd, hnext, if_true, if_false, Nat.succ_ne_zero, List.nil_append]
    exact dropBang_inside_append h rest
  · have hnext : (i + 1) % 2 = 1 := by omega
    by_cases hzero : i = 0
    · subst hzero
      simp only [hlast, hnext, if_true, if_false, Nat.zero_mod, Nat.lt_irrefl, Nat.zero_ne_one]
      exact dropBang_code_append h rest
    · have hpos : 0 < i := Nat.pos_of_ne_zero hzero
      simp only [hodd, hzero, hpos, hlast, hnext, if_true, if_false]
      rw [dropBang_behind, trimStart_append_mark (by decide),
        dropBang_code_append (not_mem_trimStart h)]

theorem dropBang_eq_pieces (i : Nat) (text : List Char) :
    dropBang (placeAt i) text =
      ((text.splitOn '!').zipIdx i).flatMap fun p => keptPiece (i + text.count '!') p.2 p.1 := by
  induction text using split_induction '!' generalizing i with
  | last piece hpiece =>
    rw [List.splitOn_eq_singleton hpiece, List.count_eq_zero.2 hpiece, dropBang_placeAt hpiece]
    simp
  | step piece rest hpiece ih =>
    have hcount : i + (piece ++ '!' :: rest).count '!' = i + 1 + rest.count '!' := by
      rw [count_append_mark hpiece]
      omega
    have hlast : i < i + 1 + rest.count '!' := by omega
    rw [List.splitOn_append_cons_self_of_not_mem hpiece, hcount, List.zipIdx_cons,
      List.flatMap_cons, dropBang_placeAt_append hpiece rest hlast, ih]

theorem dropBang_eq_outsideBangs (text : List Char) : dropBang .code text = outsideBangs text := by
  have hpieces := dropBang_eq_pieces 0 text
  rw [Nat.zero_add] at hpieces
  simp only [outsideBangs, length_splitOn, Nat.add_sub_cancel]
  exact hpieces

theorem not_mem_dropBang (place : Place) (text : List Char) : '!' ∉ dropBang place text := by
  fun_induction dropBang place text with
  | case1 place => exact List.not_mem_nil
  | case2 c rest ih => exact ih
  | case3 rest ih => exact ih
  | case4 c rest hc hblank ih => exact ih
  | case5 c rest hc hblank ih => exact List.not_mem_cons_of_ne_of_not_mem (Ne.symm hc) ih
  | case6 rest ih => exact ih
  | case7 c rest hc hopens ih => exact ih
  | case8 c rest hc hopens ih => exact List.not_mem_cons_of_ne_of_not_mem (Ne.symm hc) ih

end Bangs

/--
Without comments a line is what the dash comment leaves of it, and of that every other piece between bang
marks. No mark is left, and a line without marks is left as it is.
-/
theorem strip_eq_pieces {line : Line} (hline : '\n' ∉ line) :
    strip line = outsideBangs (undashed line) ∧ '!' ∉ strip line ∧
    (¬ ['-', '-'] <:+: line → '!' ∉ line → strip line = line) := by
  unfold strip
  refine ⟨?_, not_mem_dropBang _ _, ?_⟩
  · rw [dropDash_eq_undashed hline, dropBang_eq_outsideBangs]
  · intro hdash hbang
    rw [dropDash_eq_self hdash, dropBang_code_eq_self hbang]

theorem strip_eq_pieces_adjacent :
    '\n' ∉ "a !b!  !c! d ! e --- !f! g".toList ∧
    strip "a !b!  !c! d ! e --- !f! g".toList =
      outsideBangs (undashed "a !b!  !c! d ! e --- !f! g".toList) ∧
    undashed "a !b!  !c! d ! e --- !f! g".toList = "a !b!  !c! d ! e".toList ∧
    outsideBangs "a !b!  !c! d ! e".toList = "ad".toList := by
  have hline : '\n' ∉ "a !b!  !c! d ! e --- !f! g".toList := by decide +kernel
  obtain ⟨hstrip, -, -⟩ := strip_eq_pieces hline
  exact ⟨hline, hstrip, by decide +kernel, by decide +kernel⟩

end Comment

end TalOutline
