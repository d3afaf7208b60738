import Mathlib.Data.List.Flatten
import TalOutline.Proofs.Comment.Pieces
import TalOutline.Proofs.Keyword.Segments

/-!
Comment marks inside string literals. Comments are dropped without regard to quotes, so a mark in a string
acts like any other. Where the bang marks of a line pair up, the code that stands between two of them is
lost and all other code keeps its keywords. Where they do not, or where a string has two dashes, the rest
of the line goes with the quote that closes the string, and code and strings change places.
-/
namespace TalOutline

open Text

namespace Comment

/-- A line whose quotes pair up, with comment marks in its string literals only. -/
structure MarksQuoted (line : Line) : Prop where
  noNewline : '\n' ∉ line
  even : evenQuotes line = true
  bare : ∀ part ∈ sameParity 0 (segments line), '!' ∉ part ∧ ¬ ['-', '-'] <:+: part

/-- A part of code without quotes and comment marks. -/
structure Bare (part : List Char) : Prop where
  noQuote : '"' ∉ part
  noBang : '!' ∉ part
  noDash : ¬ ['-', '-'] <:+: part

/-- Code without marks and string literals in turn. The flag tells whether the text ends in a string. -/
inductive Turns : Bool → List Char → Prop
  | code {part : List Char} (bare : Bare part) : Turns false part
  | cut {part text : List Char} (bare : Bare part) (inside : '"' ∉ text) :
    Turns true (part ++ '"' :: text)
  | string {part text rest : List Char} {inString : Bool} (bare : Bare part) (inside : '"' ∉ text)
    (turns : Turns inString rest) : Turns inString (part ++ '"' :: (text ++ '"' :: rest))

/-- Every other part of a line is code; with each goes the number of bang marks before it. -/
def codePartsFrom (marks : Nat) : List (List Char) → List (Nat × List Char)
  | [] => []
  | [part] => [(marks, part)]
  | part :: text :: rest => (marks, part) :: codePartsFrom (marks + text.count '!') rest

/-- The parts of code between the strings of a line, with the number of bang marks before each. -/
def codeParts (line : Line) : List (Nat × List Char) :=
  codePartsFrom 0 (segments line)

section Turns

variable {inString : Bool} {line : List Char}

theorem segments_string {part text : List Char} (hpart : '"' ∉ part) (htext : '"' ∉ text)
    (rest : List Char) :
    segments (part ++ '"' :: (text ++ '"' :: rest)) = part :: text :: segments rest := by
  rw [segments_append_quote hpart, segments_append_quote htext]

theorem MarksQuoted.turns (h : MarksQuoted line) : Turns false line := by
  obtain ⟨-, heven, hbare⟩ := h
  induction hlength : line.length using Nat.strongRecOn generalizing line with
  | _ n ih =>
    by_cases hquote : '"' ∈ line
    · obtain ⟨part, tail, rfl, hpart⟩ := List.eq_append_cons_of_mem hquote
      rw [evenQuotes_append_quote hpart, Bool.not_eq_true'] at heven
      obtain ⟨text, rest, rfl, htext⟩ := List.eq_append_cons_of_mem (quote_mem_of_odd heven)
      rw [evenQuotes_append_quote htext, Bool.not_eq_false'] at heven
      have hparts : sameParity 0 (segments (part ++ '"' :: (text ++ '"' :: rest))) =
          part :: sameParity 0 (segments rest) := by
        rw [segments_string hpart htext, sameParity_cons, sameParity_cons,
          sameParity_congr (by rfl : (0 + 1 + 1) % 2 = 0 % 2)]
        rfl
      rw [hparts] at hbare
      obtain ⟨⟨hbang, hdash⟩, hrest⟩ := List.forall_mem_cons.1 hbare
      have hshorter : rest.length < n := by
        rw [← hlength]
        simp only [List.length_append, List.length_cons]
        omega
      exact .string ⟨hpart, hbang, hdash⟩ htext (ih rest.length hshorter heven hrest rfl)
    · have honly : sameParity 0 (segments line) = [line] := by
        rw [segments_of_unquoted hquote, sameParity_cons]
        rfl
      obtain ⟨hbang, hdash⟩ := hbare line (by rw [honly]; exact List.mem_singleton_self line)
      exact .code ⟨hquote, hbang, hdash⟩

theorem Turns.evenQuotes_eq (h : Turns inString line) : evenQuotes line = !inString := by
  induction h with
  | @code part bare => exact evenQuotes_of_unquoted bare.noQuote
  | @cut part text bare inside =>
    rw [evenQuotes_append_quote bare.noQuote, evenQuotes_of_unquoted inside]
  | @string part text rest inString bare inside turns ih =>
    rw [evenQuotes_append_quote bare.noQuote, evenQuotes_append_quote inside, Bool.not_not, ih]

end Turns

section Dashes

variable {part text : List Char}

theorem beforeDashes_subset (line : List Char) : beforeDashes line ⊆ line := by
  induction line with
  | nil => exact List.Subset.refl []
  | cons c rest ih =>
    rw [beforeDashes]
    split
    · exact List.nil_subset _
    · exact List.cons_subset_cons c ih

theorem beforeDashes_append_quote (h : ¬ ['-', '-'] <:+: part) (rest : List Char) :
    beforeDashes (part ++ '"' :: rest) = part ++ '"' :: beforeDashes rest := by
  induction part with
  | nil => rfl
  | cons c part ih =>
    have hstarts : ¬ ['-', '-'] <+: c :: (part ++ '"' :: rest) := by
      intro hdashes
      obtain ⟨rfl, hnext⟩ := List.cons_prefix_cons.1 hdashes
      cases part with
      | nil => exact absurd (List.cons_prefix_cons.1 hnext).1 (by decide)
      | cons d part =>
        obtain ⟨rfl, -⟩ := List.cons_prefix_cons.1 hnext
        exact h ⟨[], part, rfl⟩
    rw [List.cons_append, beforeDashes, if_neg (mt List.isPrefixOf_iff_prefix.1 hstarts),
      ih (mt List.infix_cons h)]
    rfl

theorem beforeDashes_append (h : ['-', '-'] <:+: text) (rest : List Char) :
    beforeDashes (text ++ rest) = beforeDashes text := by
  induction text with
  | nil => simp at h
  | cons c text ih =>
    have hlength : ['-', '-'].length ≤ (c :: text).length := h.length_le
    have hsame : ['-', '-'] <+: c :: text ++ rest ↔ ['-', '-'] <+: c :: text :=
      ⟨fun hdashes => List.prefix_of_prefix_length_le hdashes (List.prefix_append _ _) hlength,
        fun hdashes => hdashes.trans (List.prefix_append _ _)⟩
    rw [List.cons_append] at hsame ⊢
    rw [beforeDashes, beforeDashes]
    by_cases hstarts : ['-', '-'] <+: c :: text
    · rw [if_pos (List.isPrefixOf_iff_prefix.2 (hsame.2 hstarts)),
        if_pos (List.isPrefixOf_iff_prefix.2 hstarts)]
    · have hrest : ['-', '-'] <:+: text := (List.infix_cons_iff.1 h).resolve_left hstarts
      rw [if_neg (mt (hsame.1 ∘ List.isPrefixOf_iff_prefix.1) hstarts),
        if_neg (mt List.isPrefixOf_iff_prefix.1 hstarts), ih hrest]

theorem trimEnd_append_quote (part rest : List Char) :
    trimEnd (part ++ '"' :: rest) = part ++ '"' :: trimEnd rest := by
  induction part with
  | nil =>
    rw [List.nil_append, trimEnd_cons]
    rfl
  | cons c part ih =>
    have hquote : (part ++ '"' :: rest).all isBlank = false := by
      have hmark : isBlank '"' = false := by decide
      rw [List.all_append, List.all_cons, hmark, Bool.false_and, Bool.and_false]
    rw [List.cons_append, trimEnd_cons, hquote, Bool.and_false, ih]
    rfl

theorem trimEnd_initial (part : List Char) : trimEnd part <+: part :=
  List.rdropWhile_prefix isBlank part

/-- Two dashes stand in a string, so the line is cut there. -/
theorem turns_beforeDashes {inString : Bool} {line : List Char} (h : Turns inString line)
    (hdashes : ['-', '-'] <:+: line) : Turns true (beforeDashes line) := by
  have hbehind {part rest : List Char} (hpart : ¬ ['-', '-'] <:+: part)
      (h : ['-', '-'] <:+: part ++ '"' :: rest) : ['-', '-'] <:+: rest := by
    by_contra hrest
    exact not_dashes_append hpart hrest (by decide) h
  have hcut {part text : List Char} (bare : Bare part) (inside : '"' ∉ text) :
      Turns true (part ++ '"' :: beforeDashes text) :=
    .cut bare (mt (fun hmem => beforeDashes_subset text hmem) inside)
  induction h with
  | @code part bare => exact absurd hdashes bare.noDash
  | @cut part text bare inside =>
    rw [beforeDashes_append_quote bare.noDash]
    exact hcut bare inside
  | @string part text rest inString bare inside turns ih =>
    have hlater := hbehind bare.noDash hdashes
    rw [beforeDashes_append_quote bare.noDash]
    by_cases htext : ['-', '-'] <:+: text
    · rw [beforeDashes_append htext]
      exact hcut bare inside
    · rw [beforeDashes_append_quote htext]
      exact .string bare inside (ih (hbehind htext hlater))

theorem turns_trimEnd {inString : Bool} {line : List Char} (h : Turns inString line) :
    Turns inString (trimEnd line) := by
  induction h with
  | @code part bare =>
    have hinitial := trimEnd_initial part
    exact .code ⟨fun hmem => bare.noQuote (hinitial.subset hmem),
      fun hmem => bare.noBang (hinitial.subset hmem), fun h => bare.noDash (h.trans hinitial.isInfix)⟩
  | @cut part text bare inside =>
    rw [trimEnd_append_quote]
    exact .cut bare fun hmem => inside ((trimEnd_initial text).subset hmem)
  | @string part text rest inString bare inside turns ih =>
    rw [trimEnd_append_quote, trimEnd_append_quote]
    exact .string bare inside ih

end Dashes

section Bangs

variable {piece part text : List Char}

theorem keptPiece_subset (last i : Nat) (piece : List Char) : keptPiece last i piece ⊆ piece := by
  have hstart : trimStart piece ⊆ piece := (List.dropWhile_suffix isBlank).subset
  have hend (p : List Char) : trimEnd p ⊆ p := (trimEnd_initial p).subset
  unfold keptPiece
  dsimp only
  split_ifs
  · exact List.nil_subset piece
  · exact List.Subset.trans (hend _) hstart
  · exact hend piece
  · exact hstart
  · exact List.Subset.refl piece

theorem not_mem_keptPiece {c : Char} (h : c ∉ piece) (last i : Nat) : c ∉ keptPiece last i piece :=
  fun hmem => h (keptPiece_subset last i piece hmem)

theorem dropBang_sublist (place : Place) (text : List Char) :
    (dropBang place text).Sublist text := by
  fun_induction dropBang place text with
  | case1 place => exact List.Sublist.refl []
  | case2 c rest ih => exact ih.cons c
  | case3 rest ih => exact ih.cons '!'
  | case4 c rest hc hblank ih => exact ih.cons c
  | case5 c rest hc hblank ih => exact ih.cons_cons c
  | case6 rest ih => exact ih.cons '!'
  | case7 c rest hc hopens ih => exact ih.cons c
  | case8 c rest hc hopens ih => exact ih.cons_cons c

/-- What is left of a quote behind so many bang marks. -/
def quoteAfter (marks : Nat) : List Char :=
  if marks % 2 = 1 then [] else ['"']

theorem count_quoteAfter (marks : Nat) : (quoteAfter marks).count '"' % 2 = (marks + 1) % 2 := by
  unfold quoteAfter
  split
  · next hodd =>
    rw [List.count_nil]
    omega
  · next heven =>
    rw [List.count_singleton_self]
    omega

theorem opensBang_append_quote (h : '!' ∉ piece) (rest : List Char) :
    opensBang (piece ++ '"' :: rest) = false := by
  apply Bool.eq_false_iff.2
  intro hopens
  have hstarts : ['!'] <+: trimStart (piece ++ '"' :: rest) := List.isPrefixOf_iff_prefix.1 hopens
  have hbang := not_mem_trimStart h
  rw [trimStart_append_mark (by decide)] at hstarts
  cases htrim : trimStart piece with
  | nil =>
    rw [htrim, List.nil_append] at hstarts
    exact absurd (List.cons_prefix_cons.1 hstarts).1 (by decide)
  | cons c left =>
    rw [htrim] at hstarts hbang
    exact hbang (List.mem_cons.2 (.inl (List.cons_prefix_cons.1 hstarts).1))

theorem dropBang_code_quote (h : '!' ∉ piece) (rest : List Char) :
    dropBang .code (piece ++ '"' :: rest) = piece ++ '"' :: dropBang .code rest := by
  induction piece with
  | nil => rfl
  | cons c piece ih =>
    obtain ⟨hc, hpiece⟩ := not_or.1 (mt List.mem_cons.2 h)
    rw [List.cons_append, dropBang, if_neg (Ne.symm hc), opensBang_append_quote hpiece,
      Bool.and_false, ih hpiece]
    rfl

/-- A piece before a quote, which is part of the comment if the piece is. -/
theorem dropBang_placeAt_quote (h : '!' ∉ piece) (i : Nat) (rest : List Char) :
    dropBang (placeAt i) (piece ++ '"' :: rest) =
      keptPiece i i piece ++ (quoteAfter i ++ dropBang (placeAt (i % 2)) rest) := by
  unfold keptPiece placeAt quoteAfter
  by_cases hodd : i % 2 = 1
  · have hskip : '!' ∉ piece ++ ['"'] := by simp [h]
    have hline : piece ++ '"' :: rest = piece ++ ['"'] ++ rest := by simp
    simp only [hodd, if_true, List.nil_append, Nat.mod_succ]
    rw [hline, dropBang_inside_skip hskip]
  · have heven : i % 2 = 0 := by omega
    by_cases hzero : i = 0
    · subst hzero
      exact dropBang_code_quote h rest
    · have hpos : 0 < i := Nat.pos_of_ne_zero hzero
      simp only [heven, hzero, hpos, if_true, if_false, Nat.zero_ne_one, Nat.lt_irrefl, Nat.zero_mod]
      rw [dropBang_behind, trimStart_append_mark (by decide),
        dropBang_code_quote (not_mem_trimStart h)]
      rfl

/-- A string, of which something without a quote is left. -/
theorem exists_dropBang_quote (h : '"' ∉ text) (i : Nat) (rest : List Char) :
    ∃ left, '"' ∉ left ∧ dropBang (placeAt i) (text ++ '"' :: rest) =
      left ++ (quoteAfter (i + text.count '!') ++
        dropBang (placeAt ((i + text.count '!') % 2)) rest) := by
  induction text using split_induction '!' generalizing i with
  | last piece hpiece =>
    rw [List.count_eq_zero.2 hpiece, Nat.add_zero]
    exact ⟨keptPiece i i piece, not_mem_keptPiece h i i, dropBang_placeAt_quote hpiece i rest⟩
  | step piece text hpiece ih =>
    obtain ⟨hleft, htext⟩ := not_or.1 (mt List.mem_append.2 h)
    obtain ⟨left, hquote, hrest⟩ := ih (mt (List.mem_cons_of_mem '!') htext) (i + 1)
    have hcount : i + (piece ++ '!' :: text).count '!' = i + 1 + text.count '!' := by
      rw [count_append_mark hpiece]
      omega
    refine ⟨keptPiece (i + 1) i piece ++ left, ?_, ?_⟩
    · rw [List.mem_append, not_or]
      exact ⟨not_mem_keptPiece hleft (i + 1) i, hquote⟩
    · rw [hcount, List.append_assoc, List.cons_append,
        dropBang_placeAt_append hpiece _ (Nat.lt_succ_self i), hrest, List.append_assoc]

theorem quoteAfter_congr {m n : Nat} (h : m % 2 = n % 2) : quoteAfter m = quoteAfter n := by
  unfold quoteAfter
  rw [h]

/-- A part of code with a string behind it. Each of its quotes is left if no comment is open there. -/
theorem exists_dropBang_string (hpart : '!' ∉ part) (htext : '"' ∉ text) (n : Nat)
    (rest : List Char) :
    ∃ left, '"' ∉ left ∧ dropBang (placeAt (n % 2)) (part ++ '"' :: (text ++ '"' :: rest)) =
      keptPiece (n % 2) (n % 2) part ++ (quoteAfter n ++ (left ++ (quoteAfter (n + text.count '!') ++
        dropBang (placeAt ((n + text.count '!') % 2)) rest))) := by
  obtain ⟨left, hleft, hrest⟩ := exists_dropBang_quote htext (n % 2) rest
  have hmarks : (n % 2 + text.count '!') % 2 = (n + text.count '!') % 2 := by omega
  refine ⟨left, hleft, ?_⟩
  rw [dropBang_placeAt_quote hpart, Nat.mod_mod, hrest, hmarks, quoteAfter_congr hmarks,
    quoteAfter_congr (Nat.mod_mod n 2)]

end Bangs

section Quotes

variable {inString : Bool} {part text rest line : List Char}

theorem count_dropBang_string (bare : Bare part) (htext : '"' ∉ text) (n : Nat)
    (rest : List Char) :
    (dropBang (placeAt (n % 2)) (part ++ '"' :: (text ++ '"' :: rest))).count '"' % 2 =
      (text.count '!' + (dropBang (placeAt ((n + text.count '!') % 2)) rest).count '"') % 2 := by
  obtain ⟨left, hleft, heq⟩ := exists_dropBang_string bare.noBang htext n rest
  have hkept := not_mem_keptPiece bare.noQuote (n % 2) (n % 2)
  have hopening := count_quoteAfter n
  have hclosing := count_quoteAfter (n + text.count '!')
  rw [heq]
  simp only [List.count_append, List.count_eq_zero.2 hkept, List.count_eq_zero.2 hleft]
  omega

theorem count_bang_string (bare : Bare part) (text rest : List Char) :
    (part ++ '"' :: (text ++ '"' :: rest)).count '!' = text.count '!' + rest.count '!' := by
  simp [List.count_eq_zero.2 bare.noBang]

/--
The number of quotes that are left, up to parity. In a text that ends outside its strings it is that of
the bang marks. In one that ends in a string it is odd where no comment is open at the start, and even
where one is.
-/
theorem Turns.count_dropBang (h : Turns inString line) (n : Nat) :
    (dropBang (placeAt (n % 2)) line).count '"' % 2 =
      (if inString then n + 1 else line.count '!') % 2 := by
  induction h generalizing n with
  | @code part bare =>
    have hkept := not_mem_keptPiece bare.noQuote (n % 2) (n % 2)
    rw [dropBang_placeAt bare.noBang, List.count_eq_zero.2 hkept, if_neg Bool.false_ne_true,
      List.count_eq_zero.2 bare.noBang]
  | @cut part text bare inside =>
    have hkept := not_mem_keptPiece bare.noQuote (n % 2) (n % 2)
    have htext : '"' ∉ dropBang (placeAt (n % 2)) text :=
      mt (fun hmem => (dropBang_sublist _ text).subset hmem) inside
    rw [dropBang_placeAt_quote bare.noBang, Nat.mod_mod, quoteAfter_congr (Nat.mod_mod n 2),
      List.count_append, List.count_append, List.count_eq_zero.2 hkept, List.count_eq_zero.2 htext,
      Nat.zero_add, Nat.add_zero, count_quoteAfter, if_pos rfl]
  | @string part text rest inString bare inside turns ih =>
    have hrest := ih (n + text.count '!')
    rw [count_dropBang_string bare inside, count_bang_string bare]
    cases inString with
    | false =>
      simp only [Bool.false_eq_true, if_false] at hrest ⊢
      omega
    | true =>
      simp only [if_true] at hrest ⊢
      omega

/-- A string that two dashes or a mark without a partner cut open leaves an odd number of quotes. -/
theorem Turns.count_strip (h : Turns false line) (hline : '\n' ∉ line)
    (hopen : ['-', '-'] <:+: line ∨ line.count '!' % 2 = 1) :
    (strip line).count '"' % 2 = 1 := by
  unfold strip
  by_cases hdash : ['-', '-'] <:+: line
  · have hcut : dropDash false line = trimEnd (beforeDashes line) := by
      rw [dropDash_eq_undashed hline, undashed, if_pos hdash]
    rw [hcut]
    exact (turns_trimEnd (turns_beforeDashes h hdash)).count_dropBang 0
  · have hodd := hopen.resolve_left hdash
    have hcount := h.count_dropBang 0
    rw [if_neg Bool.false_ne_true, hodd] at hcount
    rwa [dropDash_eq_self hdash]

end Quotes

section Keywords

variable {inString : Bool} {part text rest line : List Char}

theorem keywords_quoteAfter (n : Nat) (rest : List Char) :
    keywords (quoteAfter n ++ rest) = keywords rest := by
  unfold quoteAfter
  split
  · rfl
  · exact keywordsAfter_cons_of_loose (by decide) none rest

theorem keptPiece_code (n : Nat) (part : List Char) :
    keptPiece (n % 2) (n % 2) part = if n % 2 = 0 then part else [] := by
  unfold keptPiece
  by_cases heven : n % 2 = 0
  · simp [heven]
  · have hodd : n % 2 = 1 := by omega
    simp [hodd]

/-- Code before a string counts if no comment is open there, and the string does not count. -/
theorem keywords_dropBang_string (bare : Bare part) (htext : '"' ∉ text) (turns : Turns false rest)
    (n : Nat) (hpaired : (n + text.count '!' + rest.count '!') % 2 = 0) :
    keywords (dropBang (placeAt (n % 2)) (part ++ '"' :: (text ++ '"' :: rest))) =
      (if n % 2 = 0 then keywords part else []) ++
        keywords (dropBang (placeAt ((n + text.count '!') % 2)) rest) := by
  obtain ⟨left, hleft, heq⟩ := exists_dropBang_string bare.noBang htext n rest
  have hcount := turns.count_dropBang (n + text.count '!')
  rw [if_neg Bool.false_ne_true] at hcount
  have hclosing := count_quoteAfter (n + text.count '!')
  -- With the closing quote, if it is left, an odd number of quotes is behind the string.
  have hodd : evenQuotes (quoteAfter (n + text.count '!') ++
      dropBang (placeAt ((n + text.count '!') % 2)) rest) = false := by
    unfold evenQuotes
    rw [List.count_append, beq_eq_false_iff_ne]
    omega
  have hrest : keywords (left ++ (quoteAfter (n + text.count '!') ++
      dropBang (placeAt ((n + text.count '!') % 2)) rest)) =
      keywords (dropBang (placeAt ((n + text.count '!') % 2)) rest) := by
    rw [keywords_append_of_odd hleft hodd, keywords_quoteAfter]
  rw [heq, keptPiece_code]
  by_cases heven : n % 2 = 0
  · have hquote : quoteAfter n = ['"'] := by
      unfold quoteAfter
      rw [if_neg (by omega)]
    rw [if_pos heven, if_pos heven, hquote, List.singleton_append, keywords_append_quote bare.noQuote,
      evenQuotes_append_of_unquoted hleft, hodd, hrest]
    rfl
  · rw [if_neg heven, if_neg heven, List.nil_append, keywords_quoteAfter, hrest, List.nil_append]

/-- The keywords that are left are those of the code with an even number of bang marks before it. -/
theorem Turns.keywords_dropBang (h : Turns inString line) (hclosed : inString = false) (n : Nat)
    (hpaired : (n + line.count '!') % 2 = 0) :
    keywords (dropBang (placeAt (n % 2)) line) =
      ((codePartsFrom n (segments line)).filter fun p => p.1 % 2 == 0).flatMap
        fun p => keywords p.2 := by
  induction h generalizing n with
  | @code part bare =>
    rw [List.count_eq_zero.2 bare.noBang, Nat.add_zero] at hpaired
    rw [dropBang_placeAt bare.noBang, keptPiece_code, if_pos hpaired,
      segments_of_unquoted bare.noQuote]
    simp [codePartsFrom, hpaired]
  | cut => cases hclosed
  | @string part text rest inString bare inside turns ih =>
    subst hclosed
    rw [count_bang_string bare, ← Nat.add_assoc] at hpaired
    rw [keywords_dropBang_string bare inside turns n hpaired, ih rfl _ hpaired,
      segments_string bare.noQuote inside, codePartsFrom, List.filter_cons]
    by_cases heven : n % 2 = 0
    · simp [heven]
    · simp [heven]

theorem Turns.keywords_eq (h : Turns inString line) (hclosed : inString = false) (n : Nat) :
    keywords line = (codePartsFrom n (segments line)).flatMap fun p => keywords p.2 := by
  induction h generalizing n with
  | @code part bare =>
    rw [segments_of_unquoted bare.noQuote]
    simp [codePartsFrom]
  | cut => cases hclosed
  | @string part text rest inString bare inside turns ih =>
    subst hclosed
    rw [keywords_append_quote bare.noQuote, keywords_append_quote inside,
      evenQuotes_append_quote inside, turns.evenQuotes_eq, segments_string bare.noQuote inside,
      codePartsFrom, List.flatMap_cons, ← ih rfl]
    rfl

theorem flatMap_filter_eq_iff {α β : Type} {p : α → Bool} {f : α → List β} {l : List α} :
    (l.filter p).flatMap f = l.flatMap f ↔ ∀ x ∈ l, p x = false → f x = [] := by
  induction l with
  | nil => simp
  | cons a l ih =>
    rw [List.forall_mem_cons, ← ih, List.filter_cons, List.flatMap_cons]
    cases hp : p a with
    | true => simp
    | false =>
      rw [if_neg Bool.false_ne_true]
      constructor
      · intro heq
        have hle : ((l.filter p).flatMap f).length ≤ (l.flatMap f).length :=
          (List.filter_sublist.flatMap f).length_le
        have hnil : f a = [] := by
          apply List.eq_nil_of_length_eq_zero
          rw [heq, List.length_append] at hle
          omega
        rw [hnil, List.nil_append] at heq
        exact ⟨fun _ => hnil, heq⟩
      · rintro ⟨hnil, heq⟩
        rw [hnil rfl, heq, List.nil_append]

end Keywords

/--
Where the bang marks in the strings of a line pair up, the keywords that are left are those of the code
with an even number of marks before it, so none is lost exactly if no keyword stands between two marks
that pair. Otherwise an odd number of quotes is left, and strings count in place of code.
-/
theorem keywords_strip_of_marksQuoted {line : Line} (h : MarksQuoted line) :
    (¬ ['-', '-'] <:+: line → line.count '!' % 2 = 0 →
      keywords (strip line) =
        ((codeParts line).filter fun p => p.1 % 2 == 0).flatMap (fun p => keywords p.2) ∧
      (keywords (strip line) = keywords line ↔
        ∀ p ∈ codeParts line, p.1 % 2 = 1 → keywords p.2 = [])) ∧
    (['-', '-'] <:+: line ∨ line.count '!' % 2 = 1 →
      evenQuotes (strip line) = false ∧
      keywords (strip line) = (sameParity 1 (segments (strip line))).flatMap keywords) := by
  have hturns := h.turns
  constructor
  · intro hdash hpaired
    have hleft : keywords (strip line) =
        ((codeParts line).filter fun p => p.1 % 2 == 0).flatMap fun p => keywords p.2 := by
      unfold strip
      rw [dropDash_eq_self hdash]
      exact hturns.keywords_dropBang rfl 0 (by rwa [Nat.zero_add])
    have hall : keywords line = (codeParts line).flatMap fun p => keywords p.2 :=
      hturns.keywords_eq rfl 0
    refine ⟨hleft, ?_⟩
    rw [hleft, hall, flatMap_filter_eq_iff]
    simp
  · intro hopen
    have hcount : (strip line).count '"' % 2 = 1 := hturns.count_strip h.noNewline hopen
    constructor
    · unfold evenQuotes
      rw [hcount]
      rfl
    · have hparity : (strip line).count '"' % 2 = 1 % 2 := hcount
      rw [keywords_eq_flatMap, sameParity_congr hparity]

/-- Marks that pair up inside one string, and inside two strings with no keyword between them. -/
theorem keywords_strip_of_marksQuoted_paired :
    MarksQuoted "begin x := \"a !end! b\" + \"c!\" + \"!\"; end".toList ∧
    ¬ ['-', '-'] <:+: "begin x := \"a !end! b\" + \"c!\" + \"!\"; end".toList ∧
    keywords (strip "begin x := \"a !end! b\" + \"c!\" + \"!\"; end".toList) =
      keywords "begin x := \"a !end! b\" + \"c!\" + \"!\"; end".toList := by
  have hquoted : MarksQuoted "begin x := \"a !end! b\" + \"c!\" + \"!\"; end".toList :=
    ⟨by decide +kernel, by decide +kernel, by decide +kernel⟩
  have hdash : ¬ ['-', '-'] <:+: "begin x := \"a !end! b\" + \"c!\" + \"!\"; end".toList := by
    decide +kernel
  obtain ⟨hpaired, -⟩ := keywords_strip_of_marksQuoted hquoted
  obtain ⟨-, hiff⟩ := hpaired hdash (by decide +kernel)
  exact ⟨hquoted, hdash, hiff.2 (by decide +kernel)⟩

/-- A mark in a string makes a keyword of a word in the string. -/
theorem not_keywords_strip_of_marksQuoted :
    ¬ ∀ line, MarksQuoted line → keywords (strip line) = keywords line := by
  intro h
  have hquoted : MarksQuoted "x := \"end!\";".toList :=
    ⟨by decide +kernel, by decide +kernel, by decide +kernel⟩
  have heq := h "x := \"end!\";".toList hquoted
  have hstripped : keywords (strip "x := \"end!\";".toList) = [.blockEnd] := by decide +kernel
  have hline : keywords "x := \"end!\";".toList = [] := by decide +kernel
  rw [hstripped, hline] at heq
  cases heq

end Comment

end TalOutline
