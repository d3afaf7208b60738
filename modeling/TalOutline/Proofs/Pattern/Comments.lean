import TalOutline.Proofs.Comment.Bracketed
import TalOutline.Proofs.Pattern.Basic

/-!
The patterns of comments. White space, two dashes and what follows them on the line are taken out first,
then white space, a bang and what follows it up to the next bang or the end of the text, with the white
space behind the second bang. What is left is the code of the line.
-/
namespace TalOutline.Pattern

open Text Comment

/-- The pattern `\s*--.*`. -/
def dashComment : Pattern :=
  seq (seq (blanks 0) (seq (literal '-') (literal '-'))) (run (· != '\n') 0 none)

/-- The pattern `!\s*|$` at the end of a bang comment. -/
def bangClosing : Pattern :=
  alt (seq (literal '!') (blanks 0)) atEnd

/-- The pattern `\s*![^!]*(?:!\s*|$)`. -/
def bangComment : Pattern :=
  seq (seq (blanks 0) (literal '!')) (seq (run (· != '!') 0 none) bangClosing)

/-- A mark stands at the start of a text, behind white space. -/
theorem isPrefixOf_trimStart_iff {m text : List Char} (hhead : m.head?.any isBlank = false)
    (hne : m ≠ []) : m.isPrefixOf (trimStart text) = true ↔
      ∃ gap rest, AllBlank gap ∧ text = gap ++ (m ++ rest) := by
  rw [List.isPrefixOf_iff_prefix]
  constructor
  · intro h
    obtain ⟨rest, hrest⟩ := h
    obtain ⟨gap, hgap, htext⟩ := exists_gap text
    rw [← hrest] at htext
    exact ⟨gap, rest, hgap, htext⟩
  · intro h
    obtain ⟨gap, rest, hgap, rfl⟩ := h
    have hstart : (m ++ rest).head?.any isBlank = false := by
      rwa [List.head?_append_of_ne_nil m hne]
    rw [trimStart_gap hgap hstart]
    exact List.prefix_append m rest

section Dash

variable {passed text : List Char} {s t : Spot}

theorem reads_dashOpening :
    (seq (blanks 0) (seq (literal '-') (literal '-'))).Reads fun w =>
      ∃ gap, AllBlank gap ∧ w = gap ++ ['-', '-'] := by
  apply ((reads_blanks 0).seq ((reads_literal '-').seq (reads_literal '-'))).congr
  intro w
  simp [Joined]

theorem opensDash_iff :
    opensDash text = true ↔ ∃ gap rest, AllBlank gap ∧ text = gap ++ '-' :: '-' :: rest :=
  isPrefixOf_trimStart_iff (m := ['-', '-']) rfl (List.cons_ne_nil _ _)

theorem dropDash_opening {gap : List Char} (hgap : AllBlank gap) (inside : Bool)
    (rest : List Char) : dropDash inside (gap ++ '-' :: '-' :: rest) = dropDash true rest := by
  induction gap generalizing inside with
  | nil =>
    have hdash : ('-' != '\n') = true := by decide
    rw [List.nil_append, dropDash, if_pos (by rfl), dropDash, hdash, Bool.and_self, Bool.or_true,
      if_pos rfl]
  | cons c gap ih =>
    have hopens : opensDash (c :: (gap ++ '-' :: '-' :: rest)) = true :=
      opensDash_iff.2 ⟨c :: gap, rest, hgap, rfl⟩
    rw [List.cons_append, dropDash, hopens, Bool.true_or, if_pos rfl]
    exact ih (List.forall_mem_cons.1 hgap).2 true

/-- A dash comment ends with its line. -/
theorem dropDash_inside {more rest : List Char} (hmore : ∀ c ∈ more, (c != '\n') = true)
    (hrest : rest.head?.any (· != '\n') = false) :
    dropDash true (more ++ rest) = dropDash false rest := by
  induction more with
  | nil =>
    cases rest with
    | nil => rfl
    | cons c rest =>
      have hc : (c != '\n') = false := hrest
      rw [List.nil_append, dropDash, dropDash, hc, Bool.and_false, Bool.and_false]
  | cons c more ih =>
    obtain ⟨hc, hmore⟩ := List.forall_mem_cons.1 hmore
    rw [List.cons_append, dropDash, hc, Bool.and_self, Bool.or_true, if_pos rfl, ih hmore]

/-- What is matched is what the dash comment at the start of a text takes away. -/
theorem dropDash_of_first? (h : dashComment.first? s = some t) :
    dropDash false s.rest = dropDash false t.rest := by
  obtain ⟨u, hu, hmore⟩ := exists_first?_of_seq h
  obtain ⟨_, behind, ⟨gap, hgap, rfl⟩, hsplit, rfl⟩ := (reads_dashOpening s u).1 hu
  obtain ⟨more, rest, hchars, -, hstop, rfl, rfl⟩ := first?_run hmore
  have hopening : gap ++ ['-', '-'] ++ (more ++ rest) = gap ++ '-' :: '-' :: (more ++ rest) := by
    simp
  rw [hsplit, hopening, dropDash_opening hgap, dropDash_inside hchars hstop]

theorem not_opensDash_of_first? (h : dashComment.first? s = none) : opensDash s.rest = false := by
  apply Bool.eq_false_iff.2
  intro hopens
  obtain ⟨gap, rest, hgap, hsplit⟩ := opensDash_iff.1 hopens
  have hmore : (run (· != '\n') 0 none).Matches rest :=
    (reads_run _ 0 none).matches (w := []) ⟨nofun, Nat.zero_le _, nofun⟩ rest
  have hmatches := reads_dashOpening.matches_seq ⟨gap, hgap, rfl⟩ hmore
  rw [List.append_assoc] at hmatches
  apply not_matches_of_first? h
  rw [hsplit]
  exact hmatches

theorem eq_dropDash_of_cuts {hits : List Hit} {kept : List Char}
    (h : Cuts dashComment passed text hits kept) : kept = dropDash false text := by
  induction h with
  | done => rfl
  | hit first shorter later ih => rw [ih, ← dropDash_of_first? first]
  | miss missing later ih =>
    rw [ih, dropDash, not_opensDash_of_first? missing]
    rfl

/-- Taking out the matches of the pattern is dropping the dash comments. -/
theorem leaves_dashComment_iff {code : List Char} :
    dashComment.Leaves text code ↔ code = dropDash false text := by
  apply leaves_iff
  · intro s t h
    apply reads_dashOpening.length_rest_lt _ h
    intro w hw hnil
    obtain ⟨gap, -, rfl⟩ := hw
    simp at hnil
  · intro passed text hits kept h
    exact eq_dropDash_of_cuts h

end Dash

section Bang

variable {passed text : List Char} {s t : Spot}

theorem reads_bangOpening : (seq (blanks 0) (literal '!')).Reads fun w =>
    ∃ gap, AllBlank gap ∧ w = gap ++ ['!'] := by
  apply ((reads_blanks 0).seq (reads_literal '!')).congr
  intro w
  simp [Joined]

theorem reads_bangMark : (seq (literal '!') (blanks 0)).Reads fun w =>
    ∃ gap, AllBlank gap ∧ w = '!' :: gap := by
  apply ((reads_literal '!').seq (reads_blanks 0)).congr
  intro w
  simp [Joined]

theorem opensBang_iff :
    opensBang text = true ↔ ∃ gap rest, AllBlank gap ∧ text = gap ++ '!' :: rest :=
  isPrefixOf_trimStart_iff (m := ['!']) rfl (List.cons_ne_nil _ _)

theorem bang_notMem_of_blank {gap : List Char} (hgap : AllBlank gap) : '!' ∉ gap := by
  intro hmem
  have hblank := hgap '!' hmem
  cases hblank

/-- The comment ends with a second bang, whose white space is taken as far as it goes, or with the text. -/
theorem first?_bangClosing (h : bangClosing.first? s = some t) :
    (∃ gap, AllBlank gap ∧ t.rest.head?.any isBlank = false ∧ s.rest = '!' :: (gap ++ t.rest)) ∨
      s.rest = [] ∧ t.rest = [] := by
  rw [bangClosing, first?_alt, Option.or_eq_some_iff] at h
  rcases h with h | ⟨-, h⟩
  · left
    obtain ⟨u, hu, hblanks⟩ := exists_first?_of_seq h
    obtain ⟨_, behind, rfl, hsplit, rfl⟩ := (reads_literal '!' s u).1 hu
    obtain ⟨gap, rest, hgap, -, hstop, rfl, rfl⟩ := first?_run hblanks
    exact ⟨gap, hgap, hstop, hsplit⟩
  · right
    have hend : t ∈ if s.rest.isEmpty then [s] else [] := mem_of_first? h
    split at hend
    · next hempty =>
      rw [List.mem_singleton.1 hend]
      exact ⟨List.isEmpty_iff.1 hempty, List.isEmpty_iff.1 hempty⟩
    · cases hend

/-- What is matched is what the bang comment at the start of a text takes away. -/
theorem dropBang_of_first? (h : bangComment.first? s = some t) :
    dropBang .code s.rest = dropBang .code t.rest := by
  obtain ⟨u, hu, hinside⟩ := exists_first?_of_seq h
  obtain ⟨v, hv, hclosing⟩ := exists_first?_of_seq hinside
  obtain ⟨_, behind, ⟨gap, hgap, rfl⟩, hsplit, rfl⟩ := (reads_bangOpening s u).1 hu
  obtain ⟨body, tail, ⟨hbody, -, -⟩, rfl, rfl⟩ := (reads_run (· != '!') 0 none _ v).1 hv
  have hopening : gap ++ ['!'] ++ (body ++ tail) = gap ++ '!' :: (body ++ tail) := by simp
  have hplain : '!' ∉ body := by
    intro hmem
    have hother := hbody '!' hmem
    cases hother
  rw [hsplit, hopening, dropBang_code_append (bang_notMem_of_blank hgap), trimEnd_of_blank hgap,
    List.nil_append, dropBang_inside_skip hplain]
  rcases first?_bangClosing hclosing with ⟨space, hspace, hstop, htail⟩ | ⟨htail, hrest⟩
  · dsimp only at htail
    rw [htail, dropBang, if_pos rfl, dropBang_behind, trimStart_gap hspace hstop]
  · dsimp only at htail
    rw [htail, hrest]
    rfl

theorem not_opensBang_of_first? (h : bangComment.first? s = none) : opensBang s.rest = false := by
  apply Bool.eq_false_iff.2
  intro hopens
  obtain ⟨gap, rest, hgap, hsplit⟩ := opensBang_iff.1 hopens
  obtain ⟨body, tail, rfl, hbody, hstop⟩ := exists_run (· != '!') rest
  -- Behind the body stands a bang, or else nothing.
  have hclosing : bangClosing.Matches tail := by
    cases tail with
    | nil =>
      intro passed groups
      exact ⟨_, mem_alt_iff.2 (.inr (List.mem_singleton.2 rfl))⟩
    | cons c tail =>
      have hc : c = '!' := by simpa using hstop
      subst hc
      have hmark := reads_bangMark.matches ⟨[], nofun, rfl⟩ tail
      intro passed groups
      obtain ⟨t, ht⟩ := hmark passed groups
      exact ⟨t, mem_alt_iff.2 (.inl ht)⟩
  have hinside := (reads_run (· != '!') 0 none).matches_seq ⟨hbody, Nat.zero_le _, nofun⟩ hclosing
  have hmatches := reads_bangOpening.matches_seq ⟨gap, hgap, rfl⟩ hinside
  rw [List.append_assoc] at hmatches
  apply not_matches_of_first? h
  rw [hsplit]
  exact hmatches

theorem eq_dropBang_of_cuts {hits : List Hit} {kept : List Char}
    (h : Cuts bangComment passed text hits kept) : kept = dropBang .code text := by
  induction h with
  | done => rfl
  | hit first shorter later ih => rw [ih, ← dropBang_of_first? first]
  | @miss passed rest c hits kept missing later ih =>
    have hopens : opensBang (c :: rest) = false := not_opensBang_of_first? missing
    have hc : c ≠ '!' := by
      intro hbang
      subst hbang
      cases hopens
    have hblank : (isBlank c && opensBang rest) = false := by
      apply Bool.eq_false_iff.2
      intro hboth
      rw [Bool.and_eq_true] at hboth
      have hstart : trimStart (c :: rest) = trimStart rest := List.dropWhile_cons_of_pos hboth.1
      rw [opensBang, hstart] at hopens
      exact absurd hboth.2 (Bool.eq_false_iff.1 hopens)
    rw [ih, dropBang, if_neg hc, hblank]
    rfl

/-- Taking out the matches of the pattern is dropping the bang comments. -/
theorem leaves_bangComment_iff {code : List Char} :
    bangComment.Leaves text code ↔ code = dropBang .code text := by
  apply leaves_iff
  · intro s t h
    apply reads_bangOpening.length_rest_lt _ h
    intro w hw hnil
    obtain ⟨gap, -, rfl⟩ := hw
    simp at hnil
  · intro passed text hits kept h
    exact eq_dropBang_of_cuts h

end Bang

/-- The code of a line is what the two patterns leave, one after the other. -/
theorem leaves_strip_iff {line : Line} {code : List Char} :
    (∃ undashed, dashComment.Leaves line undashed ∧ bangComment.Leaves undashed code) ↔
      code = strip line := by
  simp only [leaves_dashComment_iff, leaves_bangComment_iff, exists_eq_left]
  rfl

end TalOutline.Pattern
