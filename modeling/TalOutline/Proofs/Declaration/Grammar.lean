import TalOutline.Declaration
import TalOutline.Proofs.Text.Spelling

/-!
The grammar of declarations. A code that has the form of a declaration has it in one way only: no
reserved word is the beginning of another, so what is read first is what the form has there, and each
optional part is read where it stands.
-/
namespace TalOutline.Declaration

open Text

/-- One or two digits, a star or a name. -/
inductive Width : List Char → Prop
  | digit {d : Char} (first : d.isDigit = true) : Width [d]
  | digits {d e : Char} (first : d.isDigit = true) (second : e.isDigit = true) : Width [d, e]
  | star : Width ['*']
  | name {n : List Char} (isName : IsName n) : Width n

/-- Perhaps a width in parentheses. -/
inductive WidthPart : List Char → Prop
  | absent : WidthPart []
  | present {outer before width after : List Char} (outer_blank : AllBlank outer)
    (before_blank : AllBlank before) (isWidth : Width width) (after_blank : AllBlank after) :
    WidthPart (outer ++ '(' :: (before ++ (width ++ (after ++ [')']))))

/-- Perhaps a type. Only a type can have a width. -/
inductive TypePart : List Char → Prop
  | absent : TypePart []
  | present {word spelling width : List Char} (mem : word ∈ typeWords)
    (spells : Spells spelling word) (widthPart : WidthPart width) : TypePart (spelling ++ width)

/-- Perhaps a linkage, with white space behind it. -/
inductive LinkagePart : List Char → Prop
  | absent : LinkagePart []
  | present {word spelling gap : List Char} (mem : word ∈ linkageWords)
    (spells : Spells spelling word) (blank : AllBlank gap) (ne_nil : gap ≠ []) :
    LinkagePart (spelling ++ gap)

/-- What stands before the name in the declaration of a routine. -/
inductive Lead (routine : Routine) : List Char → Prop
  | mk {indent linkage type gap spelling space : List Char} (indent_blank : AllBlank indent)
    (linkagePart : LinkagePart linkage) (typePart : TypePart type) (gap_blank : AllBlank gap)
    (spells : Spells spelling routine.letters) (space_blank : AllBlank space) (ne_nil : space ≠ []) :
    Lead routine (indent ++ (linkage ++ (type ++ (gap ++ (spelling ++ space)))))

/-- The code declares a routine with a name, and what is behind does not carry on the name. -/
def Declares (routine : Routine) (name code : List Char) : Prop :=
  ∃ lead rest, Lead routine lead ∧ IsName name ∧ EndsName rest ∧ code = lead ++ (name ++ rest)

/-- All words that a declaration may have. -/
def reserved : List (List Char) :=
  linkageWords ++ typeWords ++ [Routine.proc.letters, Routine.subproc.letters]

section Reserved

variable {word spelling : List Char}

theorem reserved_apart {v w : List Char} (hv : v ∈ reserved) (hw : w ∈ reserved) :
    v = w ∨ Apart v w := by
  have hall : ∀ v ∈ reserved, ∀ w ∈ reserved, v = w ∨ Apart v w := by decide
  exact hall v hv w hw

theorem linkageWords_subset : linkageWords ⊆ reserved :=
  fun _ h => List.mem_append_left _ (List.mem_append_left _ h)

theorem typeWords_subset : typeWords ⊆ reserved :=
  fun _ h => List.mem_append_left _ (List.mem_append_right _ h)

theorem mem_reserved (routine : Routine) : routine.letters ∈ reserved := by
  cases routine <;> decide

theorem head?_reserved (hword : word ∈ reserved) (h : Spells spelling word) (rest : List Char) :
    (spelling ++ rest).head?.any isLetter = true := by
  have hall : ∀ w ∈ reserved, w.all Char.isLower = true ∧ w ≠ [] := by decide
  obtain ⟨hlower, hne⟩ := hall word hword
  exact h.head? hlower hne rest

theorem trimStart_reserved (hword : word ∈ reserved) (h : Spells spelling word) (rest : List Char) :
    trimStart (spelling ++ rest) = spelling ++ rest :=
  trimStart_of_head (not_blank_of_head (head?_reserved hword h rest))

theorem skipOneOf?_reserved {words : List (List Char)} (hwords : words ⊆ reserved)
    (hword : word ∈ reserved) (h : Spells spelling word) (rest : List Char) :
    skipOneOf? words (spelling ++ rest) = if word ∈ words then some rest else none :=
  h.skipOneOf? (fun _ hw => reserved_apart (hwords hw) hword) rest

end Reserved

section Width

variable {width part text rest : List Char}

theorem skipWidth?_digit {d : Char} (hd : d.isDigit = true) (rest : List Char) :
    skipWidth? (d :: rest) = some (if rest.head?.any Char.isDigit then rest.tail else rest) := by
  have hstar : d ≠ '*' := by
    intro heq
    subst heq
    cases hd
  cases rest with
  | nil => simp [skipWidth?, hd]
  | cons e rest =>
    by_cases he : e.isDigit = true
    · simp [skipWidth?, hd, he]
    · simp [skipWidth?, hd, he]

theorem skipWidth?_name {c : Char} (hstar : c ≠ '*') (hdigit : c.isDigit = false) (rest : List Char) :
    skipWidth? (c :: rest) = skipName? (c :: rest) := by
  simp [skipWidth?, hdigit]

/-- What a name starts with is neither a digit nor a star. -/
theorem not_digit_of_nameStart {c : Char} (h : NameStart c) : c ≠ '*' ∧ c.isDigit = false := by
  rcases h with halpha | rfl | rfl | rfl | rfl
  · constructor
    · intro heq
      subst heq
      cases halpha
    · exact isDigit_of_isAlpha halpha
  · decide
  · decide
  · decide
  · decide

theorem Width.skipWidth? (h : Width width) (hrest : EndsName rest) :
    skipWidth? (width ++ rest) = some rest := by
  cases h with
  | star => rfl
  | digits hd he =>
    rw [List.cons_append, skipWidth?_digit hd]
    simp [he]
  | digit hd =>
    have hstop : rest.head?.any Char.isDigit = false := by
      cases rest with
      | nil => rfl
      | cons e rest =>
        have he : ¬ NameChar e := hrest e rfl
        exact Bool.eq_false_iff.2 fun hdigit => he (.inr hdigit)
    rw [List.singleton_append, skipWidth?_digit hd, hstop]
    rfl
  | name hn =>
    have hread := hn.skipName? hrest
    obtain ⟨hstart, hmore⟩ := hn
    obtain ⟨hstar, hdigit⟩ := not_digit_of_nameStart hstart
    rw [List.cons_append, skipWidth?_name hstar hdigit]
    exact hread

theorem exists_width (h : skipWidth? text = some rest) :
    ∃ width, Width width ∧ text = width ++ rest := by
  cases text with
  | nil => cases h
  | cons c text =>
    by_cases hstar : c = '*'
    · subst hstar
      obtain rfl := Option.some.inj h
      exact ⟨['*'], .star, rfl⟩
    cases hc : c.isDigit with
    | false =>
      rw [skipWidth?_name hstar hc] at h
      obtain ⟨n, hn, htext⟩ := exists_name_of_skipName? h
      exact ⟨n, .name hn, htext⟩
    | true =>
      rw [skipWidth?_digit hc] at h
      obtain rfl := Option.some.inj h
      cases text with
      | nil => exact ⟨[c], .digit hc, rfl⟩
      | cons d text =>
        cases hd : d.isDigit with
        | true => exact ⟨[c, d], .digits hc hd, by simp [hd]⟩
        | false => exact ⟨[c], .digit hc, by simp [hd]⟩

/-- Neither a digit, nor a star, nor what a name starts with is white space. -/
theorem Width.head? (h : Width width) (rest : List Char) :
    (width ++ rest).head?.any isBlank = false := by
  cases h with
  | star => rfl
  | digit hd => exact isBlank_of_isNameChar (isNameChar_iff.2 (.inr hd))
  | digits hd he => exact isBlank_of_isNameChar (isNameChar_iff.2 (.inr hd))
  | name hn =>
    obtain ⟨hstart, hmore⟩ := hn
    exact isBlank_of_isNameChar (isNameChar_iff.2 (.inl hstart))

theorem skipParens?_append {outer before after : List Char} (houter : AllBlank outer)
    (hbefore : AllBlank before) (hwidth : Width width) (hafter : AllBlank after) (rest : List Char) :
    skipParens? (outer ++ '(' :: (before ++ (width ++ (after ++ ')' :: rest)))) = some rest := by
  have hopen : trimStart (outer ++ '(' :: (before ++ (width ++ (after ++ ')' :: rest)))) =
      '(' :: (before ++ (width ++ (after ++ ')' :: rest))) := trimStart_gap houter rfl
  have hinner : trimStart (before ++ (width ++ (after ++ ')' :: rest))) =
      width ++ (after ++ ')' :: rest) := trimStart_gap hbefore (hwidth.head? _)
  have hclose : trimStart (after ++ ')' :: rest) = ')' :: rest := trimStart_gap hafter rfl
  have hends : EndsName (after ++ ')' :: rest) := endsName_append hafter (endsName_iff.2 rfl)
  unfold skipParens?
  simp only [hopen, hinner, hwidth.skipWidth? hends, Option.map_some, hclose]

theorem skipParens?_of_letter {gap : List Char} (hgap : AllBlank gap)
    (h : text.head?.any isLetter = true) : skipParens? (gap ++ text) = none := by
  have htrim : trimStart (gap ++ text) = text := trimStart_gap hgap (not_blank_of_head h)
  unfold skipParens?
  rw [htrim]
  split
  · cases h
  · rfl

theorem exists_widthPart (h : skipParens? text = some rest) :
    ∃ part, WidthPart part ∧ text = part ++ rest := by
  obtain ⟨outer, houter, htext⟩ := exists_gap text
  unfold skipParens? at h
  split at h
  · next inner hopen =>
    obtain ⟨before, hbefore, hinner⟩ := exists_gap inner
    split at h
    · next hclose =>
      obtain rfl := Option.some.inj h
      obtain ⟨left, hskip, hleft⟩ := Option.map_eq_some_iff.1 hclose
      obtain ⟨width, hwidth, hsplit⟩ := exists_width hskip
      obtain ⟨after, hafter, hgap⟩ := exists_gap left
      refine ⟨_, .present houter hbefore hwidth hafter, ?_⟩
      rw [htext, hopen, hinner, hsplit, hgap, hleft]
      simp
    · cases h
  · cases h

end Width

/-- Past a linkage if there is one, whatever follows. -/
theorem exists_linkagePart (text : List Char) :
    ∃ part, LinkagePart part ∧ text = part ++ skipLinkage text := by
  unfold skipLinkage
  cases hskip : (skipOneOf? linkageWords text).bind skipBlanks? with
  | none => exact ⟨[], .absent, rfl⟩
  | some rest =>
    obtain ⟨left, hword, hblanks⟩ := Option.bind_eq_some_iff.1 hskip
    obtain ⟨word, hmem, spelling, hspells, rfl⟩ := exists_spelling_of_skipOneOf? hword
    obtain ⟨gap, hgap, hne, rfl, -⟩ := skipBlanks?_eq_some_iff.1 hblanks
    exact ⟨spelling ++ gap, .present hmem hspells hgap hne, (List.append_assoc _ _ _).symm⟩

theorem exists_typePart (text : List Char) :
    ∃ part, TypePart part ∧ text = part ++ skipType text := by
  unfold skipType
  cases hskip : skipOneOf? typeWords text with
  | none => exact ⟨[], .absent, rfl⟩
  | some rest =>
    obtain ⟨word, hmem, spelling, hspells, rfl⟩ := exists_spelling_of_skipOneOf? hskip
    cases hparens : skipParens? rest with
    | none => exact ⟨spelling ++ [], .present hmem hspells .absent, by simp [hparens]⟩
    | some left =>
      obtain ⟨part, hpart, rfl⟩ := exists_widthPart hparens
      exact ⟨spelling ++ part, .present hmem hspells hpart, by simp [hparens]⟩

theorem named?_eq_some_iff {routine : Routine} {name text : List Char} :
    named? routine text = some ⟨routine, name⟩ ↔
      ∃ spelling space rest, Spells spelling routine.letters ∧ AllBlank space ∧ space ≠ [] ∧
        IsName name ∧ EndsName rest ∧ text = spelling ++ (space ++ (name ++ rest)) := by
  unfold named?
  constructor
  · intro h
    obtain ⟨behind, hkeyword, hname⟩ := Option.bind_eq_some_iff.1 h
    obtain ⟨n, hread, heq⟩ := Option.map_eq_some_iff.1 hname
    obtain rfl : n = name := congrArg Declaration.name heq
    obtain ⟨spelling, space, hspells, hspace, hne, -, rfl⟩ :=
      skipWord?_bind_eq_some_iff.1 hkeyword
    obtain ⟨hn, rest, hrest, rfl⟩ := name?_eq_some_iff.1 hread
    exact ⟨spelling, space, rest, hspells, hspace, hne, hn, hrest, rfl⟩
  · intro h
    obtain ⟨spelling, space, rest, hspells, hspace, hne, hn, hrest, rfl⟩ := h
    have hkeyword := skipWord?_bind_eq_some_iff.2
      ⟨spelling, space, hspells, hspace, hne, hn.head? rest, rfl⟩
    rw [hkeyword, Option.bind_some, hn.name? hrest, Option.map_some]

theorem named?_of_ne {routine routine' : Routine} {spelling : List Char} (hne : routine ≠ routine')
    (h : Spells spelling routine.letters) (rest : List Char) :
    named? routine' (spelling ++ rest) = none := by
  have hskip : skipWord? routine'.letters (spelling ++ rest) = none := by
    apply Option.eq_none_iff_forall_ne_some.2
    intro left hleft
    obtain ⟨spelling', h', heq⟩ := skipWord?_eq_some_iff.1 hleft
    have hapart : Apart routine.letters routine'.letters := by
      cases routine <;> cases routine' <;> first | decide | exact absurd rfl hne
    exact absurd (h.comparable h' heq) (not_or.2 hapart)
  unfold named?
  rw [hskip]
  rfl

theorem routine_of_named? {routine : Routine} {text : List Char} {d : Declaration}
    (h : named? routine text = some d) : d.routine = routine := by
  obtain ⟨behind, -, hname⟩ := Option.bind_eq_some_iff.1 h
  obtain ⟨n, -, rfl⟩ := Option.map_eq_some_iff.1 hname
  rfl

section Core

/-! What stands before the keyword of a declaration is read away, down to the keyword itself. -/

variable {routine : Routine} {spelling gap part : List Char}

/-- After the linkage comes a type or the keyword. -/
theorem TypePart.exists_first (h : TypePart part) (hgap : AllBlank gap)
    (hspells : Spells spelling routine.letters) (rest : List Char) :
    ∃ word ∈ reserved, word ∉ linkageWords ∧ ∃ s r, Spells s word ∧
      trimStart (part ++ (gap ++ (spelling ++ rest))) = s ++ r := by
  cases h with
  | absent =>
    have hword : routine.letters ∉ linkageWords := by cases routine <;> decide
    have hstart : trimStart (gap ++ (spelling ++ rest)) = spelling ++ rest := by
      rw [trimStart_append_of_blank hgap, trimStart_reserved (mem_reserved routine) hspells]
    exact ⟨_, mem_reserved routine, hword, spelling, rest, hspells, hstart⟩
  | @present word s width mem spells widthPart =>
    have htypes : ∀ w ∈ typeWords, w ∉ linkageWords := by decide
    rw [List.append_assoc]
    exact ⟨word, typeWords_subset mem, htypes word mem, s, _, spells,
      trimStart_reserved (typeWords_subset mem) spells _⟩

theorem LinkagePart.skipLinkage (h : LinkagePart part) {text : List Char}
    (htext : skipOneOf? linkageWords (trimStart text) = none) :
    Declaration.skipLinkage (trimStart (part ++ text)) = trimStart text := by
  cases h with
  | absent =>
    unfold Declaration.skipLinkage
    rw [List.nil_append, htext]
    rfl
  | @present word spelling gap mem spells blank ne_nil =>
    have hword : word ∈ reserved := linkageWords_subset mem
    have hread : skipOneOf? linkageWords (spelling ++ (gap ++ text)) = some (gap ++ text) := by
      rw [skipOneOf?_reserved linkageWords_subset hword spells, if_pos mem]
    unfold Declaration.skipLinkage
    rw [List.append_assoc, trimStart_reserved hword spells, hread, Option.bind_some,
      skipBlanks?_append blank ne_nil]
    rfl

theorem TypePart.skipType (h : TypePart part) (hgap : AllBlank gap)
    (hspells : Spells spelling routine.letters) (rest : List Char) :
    trimStart (Declaration.skipType (trimStart (part ++ (gap ++ (spelling ++ rest))))) =
      spelling ++ rest := by
  have hstart := trimStart_reserved (mem_reserved routine) hspells rest
  have hcore : trimStart (gap ++ (spelling ++ rest)) = spelling ++ rest := by
    rw [trimStart_append_of_blank hgap, hstart]
  cases h with
  | absent =>
    have hnone : skipOneOf? typeWords (spelling ++ rest) = none := by
      rw [skipOneOf?_reserved typeWords_subset (mem_reserved routine) hspells, if_neg]
      cases routine <;> decide
    unfold Declaration.skipType
    rw [List.nil_append, hcore, hnone]
    exact hstart
  | @present word s width mem spells widthPart =>
    have hword : word ∈ reserved := typeWords_subset mem
    have hread (text : List Char) : skipOneOf? typeWords (s ++ text) = some text := by
      rw [skipOneOf?_reserved typeWords_subset hword spells, if_pos mem]
    unfold Declaration.skipType
    rw [List.append_assoc, trimStart_reserved hword spells, hread]
    dsimp only
    cases widthPart with
    | absent =>
      have hletter := head?_reserved (mem_reserved routine) hspells rest
      rw [List.nil_append, skipParens?_of_letter hgap hletter]
      exact hcore
    | present houter hbefore hwidth hafter =>
      have hparens := skipParens?_append houter hbefore hwidth hafter (gap ++ (spelling ++ rest))
      simp only [List.append_assoc, List.cons_append, List.nil_append] at hparens ⊢
      rw [hparens]
      exact hcore

/-- All that may stand before the keyword is read away. -/
theorem skip_lead {indent linkage type : List Char} (hindent : AllBlank indent)
    (hlinkage : LinkagePart linkage) (htype : TypePart type) (hgap : AllBlank gap)
    (hspells : Spells spelling routine.letters) (rest : List Char) :
    trimStart (skipType (skipLinkage (trimStart
      (indent ++ (linkage ++ (type ++ (gap ++ (spelling ++ rest)))))))) = spelling ++ rest := by
  have hnone : skipOneOf? linkageWords (trimStart (type ++ (gap ++ (spelling ++ rest)))) = none := by
    obtain ⟨word, hword, hother, s, r, hs, hfirst⟩ := htype.exists_first hgap hspells rest
    rw [hfirst, skipOneOf?_reserved linkageWords_subset hword hs, if_neg hother]
  rw [trimStart_append_of_blank hindent, hlinkage.skipLinkage hnone, htype.skipType hgap hspells]

end Core

section Declares

variable {routine : Routine} {name code : List Char}

theorem declares_of_parse? (h : parse? code = some ⟨routine, name⟩) : Declares routine name code := by
  obtain ⟨indent, hindent, hcode⟩ := exists_gap code
  obtain ⟨linkage, hlinkage, hlinked⟩ := exists_linkagePart (trimStart code)
  obtain ⟨type, htype, htyped⟩ := exists_typePart (skipLinkage (trimStart code))
  obtain ⟨gap, hgap, hkeyword⟩ := exists_gap (skipType (skipLinkage (trimStart code)))
  have hnamed : named? routine (trimStart (skipType (skipLinkage (trimStart code)))) =
      some ⟨routine, name⟩ := by
    rcases Option.or_eq_some_iff.1 h with hproc | ⟨-, hsubproc⟩
    · obtain rfl := routine_of_named? hproc
      exact hproc
    · obtain rfl := routine_of_named? hsubproc
      exact hsubproc
  obtain ⟨spelling, space, rest, hspells, hspace, hne, hname, hrest, hcore⟩ :=
    named?_eq_some_iff.1 hnamed
  refine ⟨_, rest, .mk hindent hlinkage htype hgap hspells hspace hne, hname, hrest, ?_⟩
  rw [hcode, hlinked, htyped, hkeyword, hcore]
  simp only [List.append_assoc]

theorem Declares.parse? (h : Declares routine name code) :
    Declaration.parse? code = some ⟨routine, name⟩ := by
  obtain ⟨lead, rest, hlead, hname, hrest, rfl⟩ := h
  cases hlead with
  | @mk indent linkage type gap spelling space hindent hlinkage htype hgap hspells hspace hne =>
    have hassoc : indent ++ (linkage ++ (type ++ (gap ++ (spelling ++ space)))) ++ (name ++ rest) =
        indent ++ (linkage ++ (type ++ (gap ++ (spelling ++ (space ++ (name ++ rest)))))) := by
      simp only [List.append_assoc]
    have hnamed : named? routine (spelling ++ (space ++ (name ++ rest))) = some ⟨routine, name⟩ :=
      named?_eq_some_iff.2 ⟨spelling, space, rest, hspells, hspace, hne, hname, hrest, rfl⟩
    unfold Declaration.parse?
    rw [hassoc, skip_lead hindent hlinkage htype hgap hspells]
    dsimp only
    cases routine with
    | proc =>
      rw [hnamed]
      rfl
    | subproc =>
      have hother : named? .proc (spelling ++ (space ++ (name ++ rest))) = none :=
        named?_of_ne (by decide) hspells _
      rw [hother, hnamed]
      rfl

theorem parse?_eq_some_iff : parse? code = some ⟨routine, name⟩ ↔ Declares routine name code :=
  ⟨declares_of_parse?, Declares.parse?⟩

end Declares

/--
A declaration is read just from the codes that have its form, with the name that the form has there. All
ways to see the form in a code agree on the name, and none of a proc is one of a subproc.
-/
theorem parse?_exact (code : List Char) :
    (∀ routine name, parse? code = some ⟨routine, name⟩ ↔ Declares routine name code) ∧
    (∀ routine name name', Declares routine name code → Declares routine name' code →
      name = name') ∧
    ¬ ((∃ name, Declares .proc name code) ∧ ∃ name, Declares .subproc name code) := by
  refine ⟨fun routine name => parse?_eq_some_iff, ?_, ?_⟩
  · intro routine name name' h h'
    have heq := h.parse?.symm.trans h'.parse?
    exact congrArg Declaration.name (Option.some.inj heq)
  · intro h
    obtain ⟨⟨name, hproc⟩, name', hsubproc⟩ := h
    have heq := hproc.parse?.symm.trans hsubproc.parse?
    cases congrArg Declaration.routine (Option.some.inj heq)

example : parse? "forward intproc x".toList = some ⟨.proc, "x".toList⟩ := by decide

/-- A type with a width right before the keyword, and a name in carets. -/
theorem parse?_exact_width :
    Declares .subproc "^a1^".toList "External UNSIGNED ( 16)subproc ^a1^(b);".toList ∧
    ∀ name, Declares .subproc name "External UNSIGNED ( 16)subproc ^a1^(b);".toList →
      name = "^a1^".toList := by
  obtain ⟨hread, hsame, -⟩ := parse?_exact "External UNSIGNED ( 16)subproc ^a1^(b);".toList
  have hparse : parse? "External UNSIGNED ( 16)subproc ^a1^(b);".toList =
      some ⟨.subproc, "^a1^".toList⟩ := by decide
  have hdeclares := (hread .subproc "^a1^".toList).1 hparse
  exact ⟨hdeclares, fun name h => hsame .subproc name _ h hdeclares⟩

end TalOutline.Declaration
