import TalOutline.Proofs.Comment.Bracketed
import TalOutline.Proofs.Declaration.Grammar
import TalOutline.Proofs.Keyword.Runs

/-!
Declarations and live keywords. A declaration has its keyword at one place of the code, and is read there
by its letters alone. The keyword is also live just where no type is written together with it, where it
is in ASCII letters and where an even number of quotes follows; otherwise a routine is declared by a word
that is no keyword.
-/
namespace TalOutline

open Text

def Routine.keyword : Routine → Keyword
  | .proc => .proc
  | .subproc => .subproc

@[simp] theorem Routine.letters_keyword (routine : Routine) :
    routine.keyword.letters = routine.letters := by
  cases routine <;> rfl

theorem isWord_of_isLetter {c : Char} (h : isLetter c = true) : isWord c = true := by
  rcases isLetter_iff.1 h with halpha | rfl | rfl
  · have hlower : c.toLower.isLower = true := by rw [isLower_toLower, halpha]
    obtain ⟨hge, hle⟩ := isLower_iff_toNat.1 hlower
    have hsmall : c.toLower.toNat < 128 := Nat.lt_of_le_of_lt hle (by decide)
    have halphanum : c.toLower.isAlphanum = true := by
      rw [Char.isAlphanum, isAlpha_toLower, halpha, Bool.true_or]
    rw [← isWord_toLower, isWord, if_pos hsmall, halphanum, Bool.true_or]
  · decide +kernel
  · decide +kernel

namespace Declaration

/-- The word of a code that is the keyword of a declaration, with what stands before and after it. -/
inductive KeywordAt (d : Declaration) (code : List Char) : WordRun → Prop
  | mk {indent linkage type gap spelling space rest : List Char} (indent_blank : AllBlank indent)
    (linkagePart : LinkagePart linkage) (typePart : TypePart type) (gap_blank : AllBlank gap)
    (spells : Spells spelling d.routine.letters) (space_blank : AllBlank space) (ne_nil : space ≠ [])
    (isName : IsName d.name) (ends : EndsName rest)
    (split : code =
      (indent ++ (linkage ++ (type ++ gap))) ++ (spelling ++ (space ++ (d.name ++ rest)))) :
    KeywordAt d code ⟨indent ++ (linkage ++ (type ++ gap)), spelling, space ++ (d.name ++ rest)⟩

/-- No letter stands right before the word, its letters are ASCII, and it is in no string. -/
structure Clear (d : Declaration) (r : WordRun) : Prop where
  apart : r.before.getLast?.any isLetter = false
  plain : r.word.map Char.toLower = d.routine.letters
  even : evenQuotes r.after = true

section KeywordAt

variable {d : Declaration} {code : List Char} {r r' : WordRun}

theorem exists_keywordAt (h : parse? code = some d) : ∃ r, d.KeywordAt code r := by
  obtain ⟨routine, name⟩ := d
  obtain ⟨lead, rest, hlead, hname, hrest, rfl⟩ := parse?_eq_some_iff.1 h
  obtain ⟨hindent, hlinkage, htype, hgap, hspells, hspace, hne⟩ := hlead
  exact ⟨_, .mk hindent hlinkage htype hgap hspells hspace hne hname hrest (by simp)⟩

theorem KeywordAt.split (h : d.KeywordAt code r) : code = r.before ++ (r.word ++ r.after) := by
  obtain ⟨-, -, -, -, -, -, -, -, -, hsplit⟩ := h
  exact hsplit

theorem KeywordAt.spells (h : d.KeywordAt code r) : Spells r.word d.routine.letters := by
  obtain ⟨-, -, -, -, hspells, -, -, -, -, -⟩ := h
  exact hspells

/-- Reading past the linkage and the type comes to the keyword. -/
theorem KeywordAt.core (h : d.KeywordAt code r) :
    trimStart (skipType (skipLinkage (trimStart code))) = r.word ++ r.after := by
  obtain ⟨hindent, hlinkage, htype, hgap, hspells, -, -, -, -, hsplit⟩ := h
  rw [hsplit, List.append_assoc, List.append_assoc, List.append_assoc]
  exact skip_lead hindent hlinkage htype hgap hspells _

theorem KeywordAt.unique (h : d.KeywordAt code r) (h' : d.KeywordAt code r') : r = r' := by
  have hcore : r.word ++ r.after = r'.word ++ r'.after := h.core.symm.trans h'.core
  have hlength : r.word.length = r'.word.length := by
    rw [h.spells.length_eq, h'.spells.length_eq]
  obtain ⟨hword, hafter⟩ := List.append_inj hcore hlength
  have hsplit : r.before ++ (r.word ++ r.after) = r'.before ++ (r.word ++ r.after) := by
    rw [← h.split, hcore, ← h'.split]
  have hbefore : r.before = r'.before := List.append_cancel_right hsplit
  obtain ⟨before, word, after⟩ := r
  obtain ⟨before', word', after'⟩ := r'
  exact congr (congrArg₂ WordRun.mk hbefore hword) hafter

/-- What stands before the keyword ends in white space, a parenthesis or the last letter of a type. -/
def LeadEnd (c : Char) : Prop :=
  isBlank c = true ∨ c = ')' ∨ isLetter c = true

theorem leadEnd_append {text text' : List Char} (h : ∀ c ∈ text.getLast?, LeadEnd c)
    (h' : ∀ c ∈ text'.getLast?, LeadEnd c) : ∀ c ∈ (text ++ text').getLast?, LeadEnd c := by
  intro c hc
  rw [List.getLast?_append] at hc
  rcases Option.or_eq_some_iff.1 hc with hc | ⟨-, hc⟩
  · exact h' c hc
  · exact h c hc

theorem leadEnd_of_blank {gap : List Char} (hgap : AllBlank gap) : ∀ c ∈ gap.getLast?, LeadEnd c :=
  fun c hc => .inl (hgap c (List.mem_of_getLast? hc))

theorem LinkagePart.leadEnd {part : List Char} (h : LinkagePart part) :
    ∀ c ∈ part.getLast?, LeadEnd c := by
  cases h with
  | absent => nofun
  | present mem spells blank ne_nil =>
    intro c hc
    rw [List.getLast?_append_of_ne_nil _ ne_nil] at hc
    exact leadEnd_of_blank blank c hc

theorem TypePart.leadEnd {part : List Char} (h : TypePart part) : ∀ c ∈ part.getLast?, LeadEnd c := by
  cases h with
  | absent => nofun
  | @present word spelling width mem spells widthPart =>
    have hlower : ∀ w ∈ typeWords, w.all Char.isLower = true := by decide
    apply leadEnd_append
    · intro c hc
      exact .inr (.inr (spells.isLetter (hlower word mem) (List.mem_of_getLast? hc)))
    · cases widthPart with
      | absent => nofun
      | present houter hbefore hwidth hafter =>
        intro c hc
        simp only [← List.append_assoc, ← List.cons_append, List.getLast?_concat] at hc
        exact .inr (.inl (Option.some.inj hc).symm)

/-- Before its keyword a declaration has nothing for a word to cling to but a letter. -/
theorem LeadEnd.clings_eq {c : Char} (h : LeadEnd c) : clings c = isLetter c := by
  rcases h with hblank | rfl | hletter
  · have hgap : Gap [c] := Comment.gap_of_blank (by simpa using hblank) (List.cons_ne_nil c [])
    have hnot : isLetter c = false := by
      apply Bool.eq_false_iff.2
      intro hletter
      rw [isBlank_of_isNameChar (isNameChar_of_isLetter hletter)] at hblank
      cases hblank
    rw [hgap.loose c List.mem_cons_self, hnot]
  · decide
  · rw [clings, isWord_of_isLetter hletter, hletter, Bool.true_or]

theorem any_clings_eq {before : Option Char} (h : ∀ c ∈ before, LeadEnd c) :
    before.any clings = before.any isLetter := by
  cases before with
  | none => rfl
  | some c => exact (h c rfl).clings_eq

theorem KeywordAt.clings_before (h : d.KeywordAt code r) :
    r.before.getLast?.any clings = r.before.getLast?.any isLetter := by
  obtain ⟨hindent, hlinkage, htype, hgap, -, -, -, -, -, -⟩ := h
  exact any_clings_eq (leadEnd_append (leadEnd_of_blank hindent) (leadEnd_append hlinkage.leadEnd
    (leadEnd_append htype.leadEnd (leadEnd_of_blank hgap))))

theorem KeywordAt.exists_gap (h : d.KeywordAt code r) :
    ∃ space behind, Gap space ∧ r.after = space ++ behind := by
  obtain ⟨-, -, -, -, -, hspace, hne, -, -, -⟩ := h
  exact ⟨_, _, Comment.gap_of_blank hspace hne, rfl⟩

theorem KeywordAt.isWord (h : d.KeywordAt code r) : ∀ c ∈ r.word, isWord c = true := by
  have hlower : d.routine.letters.all Char.isLower = true := by cases d.routine <;> decide
  exact fun c hc => isWord_of_isLetter (h.spells.isLetter hlower hc)

/-- The keyword of a declaration is live just if it is clear. -/
theorem KeywordAt.live_iff (h : d.KeywordAt code r) :
    Live d.routine.keyword r.before.getLast? r.word r.after ↔ d.Clear r := by
  have hspelled : Keyword.ofWord? r.word = some d.routine.keyword ↔
      r.word.map Char.toLower = d.routine.letters := by
    rw [ofWord?_eq_some_iff, Routine.letters_keyword]
  obtain ⟨space, behind, hgap, hafter⟩ := h.exists_gap
  constructor
  · intro hlive
    exact ⟨h.clings_before ▸ hlive.start, hspelled.1 hlive.spelled, hlive.even⟩
  · intro hclear
    have hstop : r.after.head?.any clings = false := by rw [hafter, hgap.head_append]
    exact ⟨hspelled.2 hclear.plain, h.isWord, h.clings_before.trans hclear.apart, hstop, hclear.even⟩

/-- No other keyword can stand there, since the word is spelled like this one. -/
theorem KeywordAt.liveKeyword?_eq_some_iff (h : d.KeywordAt code r) {k : Keyword} :
    liveKeyword? r.before.getLast? (r.word ++ r.after) = some k ↔
      k = d.routine.keyword ∧ d.Clear r := by
  obtain ⟨space, behind, hgap, hafter⟩ := h.exists_gap
  have hstop : r.after.head?.any TalOutline.Text.isWord = false := by
    rw [hafter]
    exact not_any_isWord (hgap.head_append behind)
  rw [liveKeyword?_append h.isWord hstop]
  constructor
  · intro hlive
    have hfold := map_foldCase_of_letters (ofWord?_eq_some_iff.1 hlive.spelled)
    have hletters : k.letters = d.routine.keyword.letters := by
      rw [← hfold, Routine.letters_keyword]
      exact h.spells
    obtain rfl := Keyword.eq_of_letters hletters
    exact ⟨rfl, h.live_iff.1 hlive⟩
  · intro hk
    rw [hk.1]
    exact h.live_iff.2 hk.2

theorem KeywordAt.ne_nil (h : d.KeywordAt code r) : r.word ≠ [] := by
  have hlength := h.spells.length_eq
  intro hnil
  rw [hnil] at hlength
  cases hroutine : d.routine <;> simp [hroutine, Routine.letters] at hlength

theorem KeywordAt.keywords_eq (h : d.KeywordAt code r) :
    keywords code = keywordsIn none r.before (r.word ++ r.after) ++
      ((liveKeyword? r.before.getLast? (r.word ++ r.after)).toList ++ keywords r.after) := by
  obtain ⟨space, behind, hgap, hafter⟩ := h.exists_gap
  have hbehind (before : Option Char) : keywordsAfter before r.after = keywords r.after := by
    rw [keywords, hafter, hgap.keywordsAfter_append, hgap.keywordsAfter_append]
  rw [h.split, keywords_append, keywordsAfter_append, keywordsIn_word h.isWord h.ne_nil, hbehind]

end KeywordAt

/--
The keyword of a declaration stands at one place of the code. It counts among the live keywords just if it
is clear there; otherwise those are what other words of the code make live.
-/
theorem keywords_of_parse? {code : List Char} {d : Declaration} (h : parse? code = some d) :
    ∃ r, d.KeywordAt code r ∧ (∀ r', d.KeywordAt code r' → r' = r) ∧
      (d.Clear r → d.routine.keyword ∈ keywords code ∧
        keywords code = keywordsIn none r.before (r.word ++ r.after) ++
          d.routine.keyword :: keywords r.after) ∧
      (¬ d.Clear r →
        keywords code = keywordsIn none r.before (r.word ++ r.after) ++ keywords r.after) := by
  obtain ⟨r, hr⟩ := exists_keywordAt h
  refine ⟨r, hr, fun r' hr' => hr'.unique hr, ?_, ?_⟩
  · intro hclear
    have hlive := hr.liveKeyword?_eq_some_iff.2 ⟨rfl, hclear⟩
    have hall := hr.keywords_eq
    rw [hlive] at hall
    refine ⟨?_, hall⟩
    rw [hall]
    simp
  · intro hclear
    have hdead : liveKeyword? r.before.getLast? (r.word ++ r.after) = none := by
      apply Option.eq_none_iff_forall_ne_some.2
      intro k hk
      exact hclear (hr.liveKeyword?_eq_some_iff.1 hk).2
    have hall := hr.keywords_eq
    rw [hdead] at hall
    exact hall

/-- A proc whose keyword is written together with its type, and whose name alone is a keyword. -/
theorem keywords_of_parse?_glued :
    parse? "intproc proc".toList = some ⟨.proc, "proc".toList⟩ ∧
    KeywordAt ⟨.proc, "proc".toList⟩ "intproc proc".toList
      ⟨"int".toList, "proc".toList, " proc".toList⟩ ∧
    ¬ Clear ⟨.proc, "proc".toList⟩ ⟨"int".toList, "proc".toList, " proc".toList⟩ ∧
    keywords "intproc proc".toList =
      keywordsIn none "int".toList "proc proc".toList ++ keywords " proc".toList := by
  have hparse : parse? "intproc proc".toList = some ⟨.proc, "proc".toList⟩ := by decide
  have hletters : ['r', 'o', 'c'].all Char.isAlpha = true := by decide
  have hname : IsName "proc".toList := by
    apply IsName.mk (.inl (by decide))
    intro c hc
    exact .inl (.inl (List.all_eq_true.1 hletters c hc))
  have hspace : AllBlank [' '] := List.forall_mem_singleton.2 (by decide)
  have hmem : "int".toList ∈ typeWords := by decide
  have hspells : Spells "int".toList "int".toList := rfl
  have htype : TypePart "int".toList := .present hmem hspells .absent
  have hat : KeywordAt ⟨.proc, "proc".toList⟩ "intproc proc".toList
      ⟨"int".toList, "proc".toList, " proc".toList⟩ :=
    @KeywordAt.mk _ _ [] [] "int".toList [] "proc".toList [' '] [] nofun .absent htype nofun rfl
      hspace (List.cons_ne_nil _ _) hname nofun rfl
  have hglued : ¬ Clear ⟨.proc, "proc".toList⟩ ⟨"int".toList, "proc".toList, " proc".toList⟩ := by
    intro hclear
    cases hclear.apart
  obtain ⟨r, -, hunique, -, hdead⟩ := keywords_of_parse? hparse
  obtain rfl := hunique _ hat
  exact ⟨hparse, hat, hglued, hdead hglued⟩

/-- A type written together with the keyword declares a proc, although no keyword is live. -/
theorem not_keyword_of_parse? :
    ¬ ∀ (code : List Char) (d : Declaration), parse? code = some d →
      d.routine.keyword ∈ keywords code := by
  intro h
  have hparse : parse? "intproc p;".toList = some ⟨.proc, "p".toList⟩ := by decide
  have hnone : keywords "intproc p;".toList = [] := by decide +kernel
  have hmem := h _ _ hparse
  rw [hnone] at hmem
  cases hmem

end Declaration

end TalOutline
