import TalOutline.Proofs.Declaration.Grammar
import TalOutline.Proofs.Pattern.Basic

/-!
The pattern of declarations. It is built as the form of a declaration is, part by part, and what it keeps
is the name.
-/
namespace TalOutline.Pattern

open Text Declaration

/-- The pattern `[0-9]{1,2}|\*|[a-zA-Z^_][a-zA-Z0-9^_]*`. -/
def width : Pattern :=
  alt (run Char.isDigit 1 (some 2)) (alt (literal '*') name)

/-- The pattern `(?:\s*\(\s*(?:width)\s*\))?`. -/
def widthPart : Pattern :=
  opt (seq (blanks 0) (seq (literal '(') (seq (blanks 0) (seq width (seq (blanks 0) (literal ')'))))))

/-- The pattern `(?:(?:string|int|unsigned|fixed|real)(?:\s*\(\s*(?:width)\s*\))?)?`. -/
def typePart : Pattern :=
  opt (seq (oneOf typeWords) widthPart)

/-- The pattern `(?:(?:forward|external)\s+)?`. -/
def linkagePart : Pattern :=
  opt (seq (oneOf linkageWords) (blanks 1))

/-- Everything up to the name. -/
def lead (routine : Routine) : Pattern :=
  seq (blanks 0) (seq linkagePart (seq typePart (seq (blanks 0) (seq (word routine.letters) (blanks 1)))))

/-- From the start of the text, everything up to the name, and `([a-zA-Z^_][a-zA-Z0-9^_]*)`. -/
def declaration (routine : Routine) : Pattern :=
  seq atStart (seq (lead routine) (group name))

theorem reads_width : width.Reads Width := by
  apply ((reads_run Char.isDigit 1 (some 2)).alt ((reads_literal '*').alt reads_name)).congr
  intro w
  constructor
  · intro h
    rcases h with ⟨hdigits, hlow, hhigh⟩ | rfl | hname
    · have hmost := hhigh 2 rfl
      match w with
      | [] => cases hlow
      | [d] => exact .digit (hdigits d (by simp))
      | [d, e] => exact .digits (hdigits d (by simp)) (hdigits e (by simp))
      | d :: e :: f :: more =>
        simp only [List.length_cons] at hmost
        omega
    · exact .star
    · exact .name hname
  · intro h
    cases h with
    | digit first => exact .inl (by simp [first])
    | digits first second => exact .inl (by simp [first, second])
    | star => exact .inr (.inl rfl)
    | name isName => exact .inr (.inr isName)

theorem reads_widthPart : widthPart.Reads WidthPart := by
  apply ((reads_blanks 0).seq ((reads_literal '(').seq ((reads_blanks 0).seq (reads_width.seq
    ((reads_blanks 0).seq (reads_literal ')')))))).opt.congr
  intro w
  constructor
  · intro h
    rcases h with ⟨outer, _, ⟨houter, -⟩, ⟨_, _, rfl, ⟨before, _, ⟨hbefore, -⟩,
      ⟨width, _, hwidth, ⟨after, _, ⟨hafter, -⟩, rfl, rfl⟩, rfl⟩, rfl⟩, rfl⟩, rfl⟩ | rfl
    · exact .present houter hbefore hwidth hafter
    · exact .absent
  · intro h
    cases h with
    | absent => exact .inr rfl
    | present outer_blank before_blank isWidth after_blank =>
      left
      exact ⟨_, _, ⟨outer_blank, Nat.zero_le _⟩, ⟨_, _, rfl, ⟨_, _, ⟨before_blank, Nat.zero_le _⟩,
        ⟨_, _, isWidth, ⟨_, _, ⟨after_blank, Nat.zero_le _⟩, rfl, rfl⟩, rfl⟩, rfl⟩, rfl⟩, rfl⟩

theorem reads_typePart : typePart.Reads TypePart := by
  apply ((reads_oneOf typeWords).seq reads_widthPart).opt.congr
  intro w
  constructor
  · intro h
    rcases h with ⟨spelling, part, ⟨word, hmem, hspells⟩, hpart, rfl⟩ | rfl
    · exact .present hmem hspells hpart
    · exact .absent
  · intro h
    cases h with
    | absent => exact .inr rfl
    | present mem spells widthPart => exact .inl ⟨_, _, ⟨_, mem, spells⟩, widthPart, rfl⟩

theorem reads_linkagePart : linkagePart.Reads LinkagePart := by
  apply ((reads_oneOf linkageWords).seq (reads_blanks 1)).opt.congr
  intro w
  constructor
  · intro h
    rcases h with ⟨spelling, gap, ⟨word, hmem, hspells⟩, ⟨hgap, hlow⟩, rfl⟩ | rfl
    · exact .present hmem hspells hgap (List.length_pos_iff.1 hlow)
    · exact .absent
  · intro h
    cases h with
    | absent => exact .inr rfl
    | present mem spells blank ne_nil =>
      exact .inl ⟨_, _, ⟨_, mem, spells⟩, ⟨blank, List.length_pos_iff.2 ne_nil⟩, rfl⟩

theorem reads_lead (routine : Routine) : (lead routine).Reads (Lead routine) := by
  apply ((reads_blanks 0).seq (reads_linkagePart.seq (reads_typePart.seq ((reads_blanks 0).seq
    ((reads_word routine.letters).seq (reads_blanks 1)))))).congr
  intro w
  constructor
  · intro h
    obtain ⟨indent, _, ⟨hindent, -⟩, ⟨linkage, _, hlinkage, ⟨type, _, htype, ⟨gap, _, ⟨hgap, -⟩,
      ⟨spelling, space, hspells, ⟨hspace, hlow⟩, rfl⟩, rfl⟩, rfl⟩, rfl⟩, rfl⟩ := h
    exact ⟨hindent, hlinkage, htype, hgap, hspells, hspace, List.length_pos_iff.1 hlow⟩
  · intro h
    obtain ⟨hindent, hlinkage, htype, hgap, hspells, hspace, hne⟩ := h
    exact ⟨_, _, ⟨hindent, Nat.zero_le _⟩, ⟨_, _, hlinkage, ⟨_, _, htype, ⟨_, _,
      ⟨hgap, Nat.zero_le _⟩, ⟨_, _, hspells, ⟨hspace, List.length_pos_iff.2 hne⟩, rfl⟩, rfl⟩, rfl⟩,
      rfl⟩, rfl⟩

/-- A declaration is read with a name just where the pattern of its routine finds that name. -/
theorem captures?_declaration_iff {routine : Routine} {code n : List Char} :
    (declaration routine).captures? code = some [n] ↔ parse? code = some ⟨routine, n⟩ := by
  have hunique (n n' : List Char) (h : Declares routine n code) (h' : Declares routine n' code) :
      n = n' := by
    have heq := h.parse?.symm.trans h'.parse?
    exact congrArg Declaration.name (Option.some.inj heq)
  have hcaptures : (declaration routine).captures? code = some [n] ↔
      ∃ n', Declares routine n' code ∧ [n] = [n'] :=
    captures?_name_iff (reads_lead routine) (fun _ => Iff.rfl) hunique
  rw [hcaptures, parse?_eq_some_iff]
  simp

end TalOutline.Pattern
