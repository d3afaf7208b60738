import TalOutline.Proofs.Directive.Grammar
import TalOutline.Proofs.Fold.CommentRuns
import TalOutline.Proofs.Pattern.Basic

/-!
The patterns of toggles, sections, pages and comment lines, all of them held to the start of the line. A
toggle keeps its word and its id, a section its name, a page its heading and a comment line its mark.
-/
namespace TalOutline.Pattern

open Text

section Toggles

/-- The pattern `if(?:not)?|endif`. -/
def toggleWord : Pattern :=
  alt (seq (word ['i', 'f']) (opt (word ['n', 'o', 't']))) (word ['e', 'n', 'd', 'i', 'f'])

/-- The pattern `(?i)^\?(if(?:not)?|endif)\s+([a-zA-Z0-9^_]+)`. -/
def toggle : Pattern :=
  seq atStart (seq (literal '?') (seq (group toggleWord) (seq (blanks 1)
    (group (run isNameChar 1 none)))))

/-- What the word of a toggle says, whose letters may be in any case. -/
def toggleKind (w : List Char) : ToggleKind :=
  if lower w = ['i', 'f'] then .ifSet
  else if lower w = ['i', 'f', 'n', 'o', 't'] then .ifNot
  else .endIf

theorem reads_toggleWord :
    toggleWord.Reads fun w => ∃ a ∈ Toggle.words, Spells w a.2 := by
  apply (((reads_word ['i', 'f']).seq (reads_word ['n', 'o', 't']).opt).alt
    (reads_word ['e', 'n', 'd', 'i', 'f'])).congr
  intro w
  have hwords : (∃ a ∈ Toggle.words, Spells w a.2) ↔ Spells w ['i', 'f'] ∨
      Spells w ['i', 'f', 'n', 'o', 't'] ∨ Spells w ['e', 'n', 'd', 'i', 'f'] := by
    simp [Toggle.words]
  rw [hwords, ← or_assoc]
  apply or_congr_left
  constructor
  · intro h
    obtain ⟨u, v, hu, hv | rfl, rfl⟩ := h
    · right
      unfold Spells at hu hv ⊢
      rw [List.map_append, hu, hv]
      rfl
    · left
      rwa [List.append_nil]
  · intro h
    rcases h with h | h
    · exact ⟨w, [], h, .inr rfl, (List.append_nil w).symm⟩
    · have hjoined : w.map foldCase = ['i', 'f'] ++ ['n', 'o', 't'] := h
      obtain ⟨u, v, rfl, hu, hv⟩ := List.map_eq_append_iff.1 hjoined
      exact ⟨u, v, hu, .inl hv, rfl⟩

/-- Only `s` and `k` are folded to from outside ASCII. -/
theorem lower_of_spells {spelling letters : List Char} (h : Spells spelling letters)
    (hs : 's' ∉ letters) (hk : 'k' ∉ letters) : lower spelling = letters := by
  unfold lower
  rw [← h]
  apply List.map_congr_left
  intro c hc
  have hmem : foldCase c ∈ letters := h ▸ List.mem_map_of_mem hc
  unfold foldCase at hmem ⊢
  split at hmem
  · exact absurd hmem hs
  · next hlong =>
    split at hmem
    · exact absurd hmem hk
    · next hkelvin => rw [if_neg hlong, if_neg hkelvin]

theorem toggleKind_of_spells {w : List Char} {a : ToggleKind × List Char} (ha : a ∈ Toggle.words)
    (h : Spells w a.2) : toggleKind w = a.1 := by
  have hall : ∀ a ∈ Toggle.words, 's' ∉ a.2 ∧ 'k' ∉ a.2 ∧ lower a.2 = a.2 ∧
      toggleKind a.2 = a.1 := by decide
  obtain ⟨hs, hk, hlower, hkind⟩ := hall a ha
  rw [← hkind]
  unfold toggleKind
  rw [lower_of_spells h hs hk, hlower]

theorem exists_written_of_captures? {line : Line} {groups : List (List Char)}
    (h : toggle.captures? line = some groups) :
    ∃ w t, Toggle.Written t line ∧ toggleKind w = t.kind ∧ groups = [w, t.id] := by
  rw [toggle, captures?_atStart] at h
  obtain ⟨t, hfirst, rfl⟩ := Option.map_eq_some_iff.1 h
  obtain ⟨u, hu, hfirst⟩ := exists_first?_of_seq hfirst
  obtain ⟨v, hv, hfirst⟩ := exists_first?_of_seq hfirst
  obtain ⟨x, hx, hfirst⟩ := exists_first?_of_seq hfirst
  obtain ⟨y, hid, rfl⟩ := first?_group_eq_some_iff.1 hfirst
  obtain ⟨_, behind, rfl, hsplit, rfl⟩ := (reads_literal '?' _ u).1 hu
  obtain ⟨w, behind, ⟨⟨kind, letters⟩, hmem, hspells⟩, rfl, rfl⟩ := reads_toggleWord.mem_group_iff.1 hv
  obtain ⟨gap, behind, ⟨hgap, hlow⟩, rfl, rfl⟩ := (reads_blanks 1 _ x).1 hx
  obtain ⟨id, rest, hchars, hlength, hstop, rfl, rfl⟩ := first?_run hid
  refine ⟨w, ⟨kind, id⟩, ⟨hsplit, hmem, hspells, hgap, List.length_pos_iff.1 hlow,
    List.length_pos_iff.1 hlength, ?_, endsName_iff.2 hstop⟩, toggleKind_of_spells hmem hspells, ?_⟩
  · intro c hc
    exact isNameChar_iff.1 (hchars c hc)
  · simp

theorem exists_captures?_of_written {t : Toggle} {line : Line} (h : t.Written line) :
    ∃ groups, toggle.captures? line = some groups := by
  obtain @⟨letters, spelling, gap, rest, rfl, hmem, hspells, hgap, hgapne, hne, hchars, hrest⟩ := h
  have hid : ∀ c ∈ t.id, isNameChar c = true := fun c hc => isNameChar_iff.2 (hchars c hc)
  have hkept : (group (run isNameChar 1 none)).Matches (t.id ++ rest) :=
    ((reads_run isNameChar 1 none).matches ⟨hid, List.length_pos_iff.2 hne, nofun⟩ rest).group
  have hspaced := (reads_blanks 1).matches_seq ⟨hgap, List.length_pos_iff.2 hgapne⟩ hkept
  have hworded := reads_toggleWord.matches_group ⟨_, hmem, hspells⟩ hspaced
  exact ((reads_literal '?').matches_seq rfl hworded).exists_captures?

/-- A toggle is read with an id just where the pattern finds that id, behind the word of its kind. -/
theorem captures?_toggle_iff {t : Toggle} {line : Line} :
    (∃ w, toggle.captures? line = some [w, t.id] ∧ toggleKind w = t.kind) ↔
      Toggle.parse? line = some t := by
  rw [Toggle.parse?_eq_some_iff]
  constructor
  · intro h
    obtain ⟨w, hcaptures, hkind⟩ := h
    obtain ⟨w', t', hwritten, hkind', hgroups⟩ := exists_written_of_captures? hcaptures
    obtain ⟨rfl, hid, -⟩ : w = w' ∧ t.id = t'.id ∧ True := by simpa using hgroups
    obtain ⟨kind, id⟩ := t
    obtain ⟨kind', id'⟩ := t'
    obtain rfl : id = id' := hid
    obtain rfl : kind = kind' := hkind.symm.trans hkind'
    exact hwritten
  · intro h
    obtain ⟨groups, hcaptures⟩ := exists_captures?_of_written h
    obtain ⟨w, t', hwritten, hkind, rfl⟩ := exists_written_of_captures? hcaptures
    obtain rfl := h.unique hwritten
    exact ⟨w, hcaptures, hkind⟩

end Toggles

section Headings

variable {line : Line}

def sectionLead : Pattern :=
  seq (literal '?') (seq (blanks 0) (seq (word ['s', 'e', 'c', 't', 'i', 'o', 'n']) (blanks 1)))

/-- The pattern `(?i)^\?\s*section\s+([a-zA-Z^_][a-zA-Z0-9^_]*)`. -/
def sectionHeading : Pattern :=
  seq atStart (seq sectionLead (group name))

theorem reads_sectionLead : sectionLead.Reads fun w => ∃ indent spelling gap, AllBlank indent ∧
    Spells spelling ['s', 'e', 'c', 't', 'i', 'o', 'n'] ∧ AllBlank gap ∧ gap ≠ [] ∧
      w = '?' :: (indent ++ (spelling ++ gap)) := by
  apply ((reads_literal '?').seq ((reads_blanks 0).seq ((reads_word _).seq (reads_blanks 1)))).congr
  intro w
  constructor
  · intro h
    obtain ⟨_, _, rfl, ⟨indent, _, ⟨hindent, -⟩, ⟨spelling, gap, hspells, ⟨hgap, hlow⟩, rfl⟩, rfl⟩,
      rfl⟩ := h
    exact ⟨indent, spelling, gap, hindent, hspells, hgap, List.length_pos_iff.1 hlow, rfl⟩
  · intro h
    obtain ⟨indent, spelling, gap, hindent, hspells, hgap, hne, rfl⟩ := h
    exact ⟨_, _, rfl, ⟨indent, _, ⟨hindent, Nat.zero_le _⟩,
      ⟨spelling, gap, hspells, ⟨hgap, List.length_pos_iff.2 hne⟩, rfl⟩, rfl⟩, rfl⟩

theorem captures?_section_iff {n : List Char} :
    sectionHeading.captures? line = some [n] ↔ sectionName? line = some n := by
  have hlines (n : List Char) : SectionLine n line ↔ ∃ lead rest,
      (∃ indent spelling gap, AllBlank indent ∧
        Spells spelling ['s', 'e', 'c', 't', 'i', 'o', 'n'] ∧ AllBlank gap ∧ gap ≠ [] ∧
          lead = '?' :: (indent ++ (spelling ++ gap))) ∧
        IsName n ∧ EndsName rest ∧ line = lead ++ (n ++ rest) := by
    constructor
    · intro h
      obtain ⟨hsplit, hindent, hspells, hgap, hne, hn, hrest⟩ := h
      refine ⟨_, _, ⟨_, _, _, hindent, hspells, hgap, hne, rfl⟩, hn, hrest, ?_⟩
      rw [hsplit]
      simp
    · intro h
      obtain ⟨_, rest, ⟨indent, spelling, gap, hindent, hspells, hgap, hne, rfl⟩, hn, hrest, hsplit⟩ := h
      refine ⟨?_, hindent, hspells, hgap, hne, hn, hrest⟩
      rw [hsplit]
      simp
  have hunique (n n' : List Char) (h : SectionLine n line) (h' : SectionLine n' line) : n = n' := by
    have heq := (sectionName?_eq_some_iff.2 h).symm.trans (sectionName?_eq_some_iff.2 h')
    exact Option.some.inj heq
  have hcaptures : sectionHeading.captures? line = some [n] ↔
      ∃ n', SectionLine n' line ∧ [n] = [n'] :=
    captures?_name_iff reads_sectionLead hlines hunique
  rw [hcaptures, sectionName?_eq_some_iff]
  simp

def pageLead : Pattern :=
  seq (literal '?') (seq (blanks 0) (seq (word ['p', 'a', 'g', 'e']) (seq (blanks 0) (literal '"'))))

/-- The pattern `(?i)^\?\s*page\s*"([^"]*)"`. -/
def pageHeading : Pattern :=
  seq atStart (seq pageLead (seq (group (run (· != '"') 0 none)) (literal '"')))

/-- The parts of a page directive, of which the heading may be empty. -/
inductive PageForm (title : List Char) (line : Line) : Prop
  | mk {indent spelling gap rest : List Char}
    (split : line = '?' :: (indent ++ (spelling ++ (gap ++ '"' :: (title ++ '"' :: rest)))))
    (indent_blank : AllBlank indent) (spells : Spells spelling ['p', 'a', 'g', 'e'])
    (blank : AllBlank gap) (unquoted : ∀ c ∈ title, (c != '"') = true)

theorem PageForm.unique {title title' : List Char} (h : PageForm title line)
    (h' : PageForm title' line) : title = title' := by
  obtain @⟨_, _, gap, rest, hsplit, hindent, hspells, hgap, htitle⟩ := h
  obtain @⟨_, _, gap', rest', hsplit', hindent', hspells', hgap', htitle'⟩ := h'
  have hword := not_blank_of_head
    (hspells.head? (by decide) (by decide) (gap ++ '"' :: (title ++ '"' :: rest)))
  have hword' := not_blank_of_head
    (hspells'.head? (by decide) (by decide) (gap' ++ '"' :: (title' ++ '"' :: rest')))
  obtain ⟨-, htext⟩ := List.cons.inj (hsplit.symm.trans hsplit')
  obtain ⟨-, hspelled⟩ := eq_of_run_append hindent hword hindent' hword' htext
  obtain ⟨-, hspaced⟩ := List.append_inj hspelled (hspells.length_eq.trans hspells'.length_eq.symm)
  obtain ⟨-, hquoted⟩ := eq_of_run_append hgap rfl hgap' rfl hspaced
  obtain ⟨-, hheading⟩ := List.cons.inj hquoted
  exact (eq_of_run_append htitle rfl htitle' rfl hheading).1

theorem reads_pageLead : pageLead.Reads fun w => ∃ indent spelling gap, AllBlank indent ∧
    Spells spelling ['p', 'a', 'g', 'e'] ∧ AllBlank gap ∧
      w = '?' :: (indent ++ (spelling ++ (gap ++ ['"']))) := by
  apply ((reads_literal '?').seq ((reads_blanks 0).seq ((reads_word _).seq
    ((reads_blanks 0).seq (reads_literal '"'))))).congr
  intro w
  constructor
  · intro h
    obtain ⟨_, _, rfl, ⟨indent, _, ⟨hindent, -⟩, ⟨spelling, _, hspells, ⟨gap, _, ⟨hgap, -⟩, rfl, rfl⟩,
      rfl⟩, rfl⟩, rfl⟩ := h
    exact ⟨indent, spelling, gap, hindent, hspells, hgap, rfl⟩
  · intro h
    obtain ⟨indent, spelling, gap, hindent, hspells, hgap, rfl⟩ := h
    exact ⟨_, _, rfl, ⟨indent, _, ⟨hindent, Nat.zero_le _⟩,
      ⟨spelling, _, hspells, ⟨gap, _, ⟨hgap, Nat.zero_le _⟩, rfl, rfl⟩, rfl⟩, rfl⟩, rfl⟩

theorem captures?_pageForm_iff {groups : List (List Char)} :
    pageHeading.captures? line = some groups ↔ ∃ title, PageForm title line ∧ groups = [title] := by
  apply captures?_iff_of_unique _ _ fun _ _ h h' => h.unique h'
  · intro groups h
    rw [captures?_atStart] at h
    obtain ⟨t, hfirst, rfl⟩ := Option.map_eq_some_iff.1 h
    obtain ⟨u, hu, hfirst⟩ := exists_first?_of_seq hfirst
    obtain ⟨v, hv, hfirst⟩ := exists_first?_of_seq hfirst
    obtain ⟨_, behind, ⟨indent, spelling, gap, hindent, hspells, hgap, rfl⟩, hsplit, rfl⟩ :=
      (reads_pageLead _ u).1 hu
    obtain ⟨title, behind, ⟨htitle, -, -⟩, rfl, rfl⟩ := (reads_run _ 0 none).mem_group_iff.1 hv
    obtain ⟨_, rest, rfl, rfl, rfl⟩ := (reads_literal '"' _ t).1 (mem_of_first? hfirst)
    have hline : line = '?' :: (indent ++ (spelling ++ (gap ++ '"' :: (title ++ '"' :: rest)))) := by
      simpa using hsplit
    exact ⟨title, ⟨hline, hindent, hspells, hgap, htitle⟩, rfl⟩
  · intro title hform
    obtain @⟨indent, spelling, gap, rest, rfl, hindent, hspells, hgap, htitle⟩ := hform
    have hkept := (reads_run (· != '"') 0 none).matches_group ⟨htitle, Nat.zero_le _, nofun⟩
      ((reads_literal '"').matches rfl rest)
    have hlead := reads_pageLead.matches_seq
      ⟨indent, spelling, gap, hindent, hspells, hgap, rfl⟩ hkept
    simpa using hlead

/-- A page has the heading that the pattern finds, unless that is empty. -/
theorem captures?_page_iff {title : List Char} :
    (pageHeading.captures? line = some [title] ∧ title ≠ []) ↔ pageTitle? line = some title := by
  have hplain : (∀ c ∈ title, (c != '"') = true) ↔ '"' ∉ title := by
    simp only [bne_iff_ne]
    exact List.forall_mem_ne'
  rw [captures?_pageForm_iff, pageTitle?_eq_some_iff]
  constructor
  · intro h
    obtain ⟨⟨title', hform, hgroups⟩, hne⟩ := h
    obtain rfl : title = title' := by simpa using hgroups
    obtain ⟨hsplit, hindent, hspells, hgap, htitle⟩ := hform
    exact ⟨hsplit, hindent, hspells, hgap, hne, hplain.1 htitle⟩
  · intro h
    obtain ⟨hsplit, hindent, hspells, hgap, hne, htitle⟩ := h
    exact ⟨⟨title, ⟨hsplit, hindent, hspells, hgap, hplain.2 htitle⟩, rfl⟩, hne⟩

end Headings

/-- The pattern `^\s{0,70}(--|!)`. -/
def commentMark : Pattern :=
  seq atStart (seq (run isBlank 0 (some Fold.maxCommentIndent))
    (group (alt (seq (literal '-') (literal '-')) (literal '!'))))

theorem reads_mark : (alt (seq (literal '-') (literal '-')) (literal '!')).Reads fun w =>
    w = ['-', '-'] ∨ w = ['!'] := by
  apply (((reads_literal '-').seq (reads_literal '-')).alt (reads_literal '!')).congr
  intro w
  simp [Joined]

theorem exists_mark_of_captures? {line : Line} {groups : List (List Char)}
    (h : commentMark.captures? line = some groups) : ∃ indent mark rest, AllBlank indent ∧
      indent.length ≤ 70 ∧ (mark = ['-', '-'] ∨ mark = ['!']) ∧ line = indent ++ (mark ++ rest) ∧
        groups = [mark] := by
  rw [commentMark, captures?_atStart] at h
  obtain ⟨t, hfirst, rfl⟩ := Option.map_eq_some_iff.1 h
  obtain ⟨u, hu, hfirst⟩ := exists_first?_of_seq hfirst
  obtain ⟨indent, behind, ⟨hindent, -, hmost⟩, hsplit, rfl⟩ := (reads_run isBlank 0 _ _ u).1 hu
  obtain ⟨mark, rest, hmark, rfl, rfl⟩ := reads_mark.mem_group_iff.1 (mem_of_first? hfirst)
  exact ⟨indent, mark, rest, hindent, hmost 70 rfl, hmark, hsplit, rfl⟩

theorem exists_captures?_of_mark {indent mark : List Char} (hindent : AllBlank indent)
    (hlength : indent.length ≤ 70) (hmark : mark = ['-', '-'] ∨ mark = ['!']) (rest : List Char) :
    ∃ groups, commentMark.captures? (indent ++ (mark ++ rest)) = some groups := by
  have hkept := (reads_mark.matches hmark rest).group
  have hmost : ∀ n ∈ some Fold.maxCommentIndent, indent.length ≤ n := by
    intro n hn
    rw [← Option.some.inj hn]
    exact hlength
  exact ((reads_run isBlank 0 _).matches_seq ⟨hindent, Nat.zero_le _, hmost⟩ hkept).exists_captures?

/-- A line is a comment line by two dashes, or by a bang if nothing is left without comments. -/
theorem isCommentLine_iff_captures? {line : Line} :
    Fold.isCommentLine line = true ↔ ∃ mark, commentMark.captures? line = some [mark] ∧
      (mark = ['-', '-'] ∨ AllBlank (Comment.strip line)) := by
  rw [Fold.isCommentLine_iff]
  constructor
  · intro h
    obtain ⟨indent, _, rfl, hindent, hlength, ⟨rest, rfl⟩ | ⟨⟨rest, rfl⟩, hstrip⟩⟩ := h
    · obtain ⟨groups, hfound⟩ := exists_captures?_of_mark hindent hlength (.inl rfl) rest
      obtain ⟨indent', mark, rest', hindent', -, hmark, hsplit, rfl⟩ := exists_mark_of_captures? hfound
      refine ⟨mark, hfound, .inl ?_⟩
      rcases hmark with rfl | rfl
      · rfl
      · -- A bang would stand where the first dash does.
        obtain ⟨-, hmarks⟩ := eq_of_run_append hindent rfl hindent' rfl hsplit
        cases hmarks
    · obtain ⟨groups, hfound⟩ := exists_captures?_of_mark hindent hlength (.inr rfl) rest
      obtain ⟨-, mark, -, -, -, -, -, rfl⟩ := exists_mark_of_captures? hfound
      exact ⟨mark, hfound, .inr hstrip⟩
  · intro h
    obtain ⟨mark, hfound, hkind⟩ := h
    obtain ⟨indent, mark', rest, hindent, hlength, hmark, hsplit, hgroups⟩ :=
      exists_mark_of_captures? hfound
    obtain rfl : mark = mark' := by simpa using hgroups
    refine ⟨indent, mark ++ rest, hsplit, hindent, hlength, ?_⟩
    rcases hmark with rfl | rfl
    · exact .inl ⟨rest, rfl⟩
    · rcases hkind with hdash | hstrip
      · cases hdash
      · exact .inr ⟨⟨rest, rfl⟩, hstrip⟩

end TalOutline.Pattern
