import TalOutline.Keyword
import TalOutline.Proofs.Text.Split

/-!
Keywords where two texts meet. Whether a word is a live keyword depends on the characters right before
and right after it and on the number of quotes behind it, so writing two texts together in place of a
blank between them matters only to the words at the place where they meet.
-/
namespace TalOutline

open Text

/-- Next to a word character or a caret, a word is no keyword. -/
def clings (c : Char) : Bool :=
  isWord c || c == '^'

/-- A live keyword, with the character before it and the text after it. -/
structure Live (k : Keyword) (before : Option Char) (word after : List Char) : Prop where
  spelled : Keyword.ofWord? word = some k
  letters : ∀ c ∈ word, isWord c = true
  start : before.any clings = false
  stop : after.head?.any clings = false
  even : evenQuotes after = true

theorem any_clings_of_any_isWord {o : Option Char} (h : o.any isWord = true) :
    o.any clings = true := by
  cases o with
  | none => cases h
  | some c =>
    have hword : isWord c = true := h
    simp [clings, hword]

theorem not_any_isWord {o : Option Char} (h : o.any clings = false) : o.any isWord = false := by
  cases hword : o.any isWord with
  | false => rfl
  | true => rw [any_clings_of_any_isWord hword] at h; cases h

/-- A word that spells a keyword is as long as the keyword. -/
theorem length_of_ofWord? {word : List Char} {k : Keyword} (h : Keyword.ofWord? word = some k) :
    word.length = k.letters.length := by
  have hsame : sameAsciiCase k.letters word = true := by
    unfold Keyword.ofWord? at h
    simpa using List.find?_some h
  have hmap : k.letters.map Char.toLower = word.map Char.toLower := beq_iff_eq.1 hsame
  have hlength := congrArg List.length hmap
  rw [List.length_map, List.length_map] at hlength
  exact hlength.symm

theorem evenQuotes_append {t t' : List Char} (h : evenQuotes t = evenQuotes t') (s : List Char) :
    evenQuotes (s ++ t) = evenQuotes (s ++ t') := by
  unfold evenQuotes at h ⊢
  rw [Bool.eq_iff_iff, beq_iff_eq, beq_iff_eq] at h ⊢
  rw [List.count_append, List.count_append]
  omega

theorem evenQuotes_append_of_unquoted {s : List Char} (h : '"' ∉ s) (t : List Char) :
    evenQuotes (s ++ t) = evenQuotes t := by
  unfold evenQuotes
  rw [List.count_append, List.count_eq_zero.2 h, Nat.zero_add]

theorem exists_lastWord {text : List Char} (h : text.getLast?.any isWord = true) :
    ∃ before word, text = before ++ word ∧ word ≠ [] ∧ (∀ c ∈ word, isWord c = true) ∧
      before.getLast?.any isWord = false := by
  obtain ⟨word, before, hsplit, hword, hbefore⟩ := exists_run isWord text.reverse
  have htext : text = before.reverse ++ word.reverse := by
    rw [← List.reverse_append, ← hsplit, List.reverse_reverse]
  refine ⟨before.reverse, word.reverse, htext, ?_, ?_, ?_⟩
  · intro hnil
    rw [hnil, List.append_nil] at htext
    rw [htext, List.getLast?_reverse, hbefore] at h
    cases h
  · intro c hc
    exact hword c (List.mem_reverse.1 hc)
  · rw [List.getLast?_reverse]
    exact hbefore

section LiveKeyword

variable {k : Keyword} {before : Option Char} {word after after' text : List Char}

theorem Live.ne_nil (h : Live k before word after) : word ≠ [] := by
  rintro rfl
  cases h.spelled

theorem Live.head (h : Live k before word after) (rest : List Char) :
    (word ++ rest).head?.any isWord = true := by
  cases word with
  | nil => exact absurd rfl h.ne_nil
  | cons c word => exact h.letters c List.mem_cons_self

/-- No quote is a letter of a keyword, so the text from a live keyword on has an even number too. -/
theorem Live.evenQuotes_append (h : Live k before word after) : evenQuotes (word ++ after) = true := by
  have hquote : '"' ∉ word := fun hmem => absurd (h.letters '"' hmem) (by decide)
  rw [evenQuotes_append_of_unquoted hquote, h.even]

/-- A keyword stays live where it clings to nothing and the number of quotes stays even. -/
theorem Live.of_context (h : Live k before word after) {before' : Option Char} {after' : List Char}
    (hstart : before'.any clings = false) (hstop : after'.head?.any clings = false)
    (heven : evenQuotes after = evenQuotes after') : Live k before' word after' :=
  ⟨h.spelled, h.letters, hstart, hstop, heven ▸ h.even⟩

theorem liveKeyword?_append (hword : ∀ c ∈ word, isWord c = true)
    (hafter : after.head?.any isWord = false) :
    liveKeyword? before (word ++ after) = some k ↔ Live k before word after := by
  have hstart : (before.any isWord || before == some '^') = before.any clings := by
    cases before <;> simp [clings]
  have hstop : (after.head? == some '^') = after.head?.any clings := by
    cases hhead : after.head? with
    | none => rfl
    | some c =>
      rw [hhead] at hafter
      have hc : isWord c = false := hafter
      simp [clings, hc]
  unfold liveKeyword?
  rw [hstart, takeWhile_run hword hafter, dropWhile_run hword hafter]
  simp only [hstop]
  constructor
  · intro h
    split at h
    · cases h
    · next hb =>
      split at h
      · cases h
      · next hspelled =>
        split at h
        · cases h
        · next hlive =>
          obtain rfl := Option.some.inj h
          simp only [Bool.or_eq_true, Bool.not_eq_true', not_or, Bool.not_eq_true,
            Bool.not_eq_false] at hlive
          exact ⟨hspelled, hword, by simpa using hb, hlive.1, hlive.2⟩
  · intro h
    simp [h.start, h.spelled, h.stop, h.even]

/-- The keyword that starts a text is its first word, live. -/
theorem liveKeyword?_eq_some_iff :
    liveKeyword? before text = some k ↔
      ∃ word after, text = word ++ after ∧ Live k before word after := by
  constructor
  · intro h
    obtain ⟨word, after, rfl, hword, hafter⟩ := exists_run isWord text
    exact ⟨word, after, rfl, (liveKeyword?_append hword hafter).1 h⟩
  · intro h
    obtain ⟨word, after, rfl, hlive⟩ := h
    exact (liveKeyword?_append hlive.letters (not_any_isWord hlive.stop)).2 hlive

theorem liveKeyword?_eq_none
    (h : ∀ k word after, text = word ++ after → ¬ Live k before word after) :
    liveKeyword? before text = none := by
  apply Option.eq_none_iff_forall_ne_some.2
  intro k hk
  obtain ⟨word, after, hsplit, hlive⟩ := liveKeyword?_eq_some_iff.1 hk
  exact h k word after hsplit hlive

theorem liveKeyword?_of_clings (h : before.any clings = true) (text : List Char) :
    liveKeyword? before text = none := by
  apply liveKeyword?_eq_none
  intro k word after _ hlive
  rw [hlive.start] at h
  cases h

theorem liveKeyword?_of_not_clings (h : before.any clings = false) (text : List Char) :
    liveKeyword? before text = liveKeyword? none text := by
  have hcontext (k : Keyword) (word after : List Char) :
      Live k before word after ↔ Live k none word after := by
    constructor
    · intro hlive
      exact hlive.of_context rfl hlive.stop rfl
    · intro hlive
      exact hlive.of_context h hlive.stop rfl
  apply Option.ext
  intro k
  rw [liveKeyword?_eq_some_iff, liveKeyword?_eq_some_iff]
  simp only [hcontext]

theorem liveKeyword?_of_head (h : text.head?.any isWord = false) :
    liveKeyword? before text = none := by
  apply liveKeyword?_eq_none
  rintro k word after rfl hlive
  rw [hlive.head] at h
  cases h

/-- What follows a text matters to the keyword that starts it only where the text is one word. -/
theorem liveKeyword?_congr (hne : text ≠ []) (heven : evenQuotes after = evenQuotes after')
    (hends : text.getLast?.any isWord = true →
      after.head?.any clings = false ∧ after'.head?.any clings = false) :
    liveKeyword? before (text ++ after) = liveKeyword? before (text ++ after') := by
  obtain ⟨word, rest, rfl, hword, hrest⟩ := exists_run isWord text
  rw [List.append_assoc, List.append_assoc]
  have hquotes : evenQuotes (rest ++ after) = evenQuotes (rest ++ after') :=
    evenQuotes_append heven rest
  -- Behind the word stands the rest of the text, or else what follows the text.
  have hstops : (rest ++ after).head?.any clings = (rest ++ after').head?.any clings ∧
      (rest ++ after).head?.any isWord = false ∧ (rest ++ after').head?.any isWord = false := by
    cases rest with
    | cons d rest => exact ⟨rfl, hrest, hrest⟩
    | nil =>
      rw [List.append_nil] at hne hends
      have hlast : word.getLast?.any isWord = true := by
        rw [List.getLast?_eq_some_getLast hne]
        exact hword _ (List.getLast_mem hne)
      obtain ⟨hafter, hafter'⟩ := hends hlast
      exact ⟨hafter.trans hafter'.symm, not_any_isWord hafter, not_any_isWord hafter'⟩
  obtain ⟨hstop, hnot, hnot'⟩ := hstops
  apply Option.ext
  intro k
  rw [liveKeyword?_append hword hnot, liveKeyword?_append hword hnot']
  constructor
  · intro hlive
    exact hlive.of_context hlive.start (hstop ▸ hlive.stop) hquotes
  · intro hlive
    exact hlive.of_context hlive.start (hstop ▸ hlive.stop) hquotes.symm

end LiveKeyword

/-- The live keywords that begin in the first of two texts, one after the other. -/
def keywordsIn (before : Option Char) : List Char → List Char → List Keyword
  | [], _ => []
  | c :: rest, after =>
    (liveKeyword? before (c :: rest ++ after)).toList ++ keywordsIn (some c) rest after

section Append

variable {before : Option Char} {text after after' : List Char}

theorem getLast?_cons_or (c : Char) (rest : List Char) (before : Option Char) :
    (c :: rest).getLast?.or before = rest.getLast?.or (some c) := by
  rw [List.getLast?_cons]
  cases rest.getLast? <;> rfl

theorem keywordsAfter_append (before : Option Char) (text after : List Char) :
    keywordsAfter before (text ++ after) =
      keywordsIn before text after ++ keywordsAfter (text.getLast?.or before) after := by
  induction text generalizing before with
  | nil => rfl
  | cons c rest ih =>
    rw [List.cons_append, keywordsAfter, ih, keywordsIn, getLast?_cons_or, List.append_assoc,
      List.cons_append]

theorem keywords_append (text after : List Char) :
    keywords (text ++ after) = keywordsIn none text after ++ keywordsAfter text.getLast? after := by
  have h := keywordsAfter_append none text after
  rwa [Option.or_none] at h

theorem keywordsIn_append (before : Option Char) (text word after : List Char) :
    keywordsIn before (text ++ word) after =
      keywordsIn before text (word ++ after) ++ keywordsIn (text.getLast?.or before) word after := by
  induction text generalizing before with
  | nil => rfl
  | cons c rest ih =>
    rw [List.cons_append, keywordsIn, ih, keywordsIn, getLast?_cons_or, List.append_assoc,
      List.cons_append, List.cons_append, List.append_assoc]

theorem keywordsIn_congr (heven : evenQuotes after = evenQuotes after')
    (hends : text.getLast?.any isWord = true →
      after.head?.any clings = false ∧ after'.head?.any clings = false) :
    keywordsIn before text after = keywordsIn before text after' := by
  induction text generalizing before with
  | nil => rfl
  | cons c rest ih =>
    have hrest : rest.getLast?.any isWord = true →
        after.head?.any clings = false ∧ after'.head?.any clings = false := by
      intro hlast
      apply hends
      rw [List.getLast?_cons]
      cases hl : rest.getLast? with
      | none => rw [hl] at hlast; cases hlast
      | some d => rwa [hl] at hlast
    rw [keywordsIn, keywordsIn, ih hrest,
      liveKeyword?_congr (List.cons_ne_nil c rest) heven hends]

/-- In one word, at most the whole of it is a keyword. -/
theorem keywordsIn_word (hword : ∀ c ∈ text, isWord c = true) (hne : text ≠ []) :
    keywordsIn before text after = (liveKeyword? before (text ++ after)).toList := by
  have hinside (c : Char) (rest : List Char) (hc : isWord c = true)
      (hrest : ∀ d ∈ rest, isWord d = true) : keywordsIn (some c) rest after = [] := by
    induction rest generalizing c with
    | nil => rfl
    | cons d rest ih =>
      obtain ⟨hd, hrest⟩ := List.forall_mem_cons.1 hrest
      have hclings : (some c).any clings = true := any_clings_of_any_isWord hc
      rw [keywordsIn, liveKeyword?_of_clings hclings, ih d hd hrest]
      rfl
  cases text with
  | nil => exact absurd rfl hne
  | cons c rest =>
    obtain ⟨hc, hrest⟩ := List.forall_mem_cons.1 hword
    rw [keywordsIn, hinside c rest hc hrest, List.append_nil]

/-- The character before a text matters to the keyword that starts it and to no other. -/
theorem exists_keywordsAfter_eq (text : List Char) :
    ∃ later, ∀ before, keywordsAfter before text = (liveKeyword? before text).toList ++ later := by
  cases text with
  | nil =>
    refine ⟨[], ?_⟩
    intro before
    rw [liveKeyword?_of_head rfl]
    rfl
  | cons c rest => exact ⟨keywordsAfter (some c) rest, fun before => rfl⟩

/-- Behind a character that no word clings to, keywords are as at the start of a text. -/
theorem keywordsAfter_cons_of_loose {c : Char} (hc : clings c = false) (before : Option Char)
    (text : List Char) : keywordsAfter before (c :: text) = keywordsAfter none text := by
  have hstart : (some c).any clings = false := hc
  have hhead : (c :: text).head?.any isWord = false := not_any_isWord hstart
  obtain ⟨later, hlater⟩ := exists_keywordsAfter_eq text
  rw [keywordsAfter, liveKeyword?_of_head hhead, hlater, hlater, liveKeyword?_of_not_clings hstart]
  rfl

end Append

/-- A text that separates words, with neither quotes nor characters that a word clings to. -/
structure Gap (gap : List Char) : Prop where
  ne_nil : gap ≠ []
  loose : ∀ c ∈ gap, clings c = false
  unquoted : '"' ∉ gap

namespace Gap

variable {gap gap' : List Char}

theorem head_append (h : Gap gap) (text : List Char) :
    (gap ++ text).head?.any clings = false := by
  obtain ⟨c, rest, rfl⟩ := List.exists_cons_of_ne_nil h.ne_nil
  exact h.loose c List.mem_cons_self

theorem evenQuotes_append (h : Gap gap) (text : List Char) :
    evenQuotes (gap ++ text) = evenQuotes text :=
  evenQuotes_append_of_unquoted h.unquoted text

theorem keywordsAfter_append (h : Gap gap) (before : Option Char) (text : List Char) :
    keywordsAfter before (gap ++ text) = keywordsAfter none text := by
  obtain ⟨hne, hgap, -⟩ := h
  induction gap generalizing before with
  | nil => exact absurd rfl hne
  | cons c rest ih =>
    obtain ⟨hc, hrest⟩ := List.forall_mem_cons.1 hgap
    rw [List.cons_append, keywordsAfter_cons_of_loose hc]
    by_cases hnil : rest = []
    · rw [hnil, List.nil_append]
    · exact ih none hnil hrest

theorem keywords_append (h : Gap gap) (text after : List Char) :
    keywords (text ++ (gap ++ after)) =
      keywordsIn none text (gap ++ after) ++ keywordsAfter none after := by
  rw [TalOutline.keywords_append, h.keywordsAfter_append]

/-- One gap is as good as another. -/
theorem keywords_eq (h : Gap gap) (h' : Gap gap') (text after : List Char) :
    keywords (text ++ (gap ++ after)) = keywords (text ++ (gap' ++ after)) := by
  have heven : evenQuotes (gap ++ after) = evenQuotes (gap' ++ after) := by
    rw [h.evenQuotes_append, h'.evenQuotes_append]
  rw [h.keywords_append, h'.keywords_append,
    keywordsIn_congr heven fun _ => ⟨h.head_append after, h'.head_append after⟩]

theorem space : Gap [' '] where
  ne_nil := List.cons_ne_nil _ _
  loose := List.forall_mem_singleton.2 (by decide)
  unquoted := by decide

end Gap

/-- Two texts written together get or lose a keyword that they have with a blank between them. -/
inductive Altered (x y : List Char) : Prop
  /-- The last word of the first text is a keyword, and something clings to it. -/
  | lostBefore {before word : List Char} {k : Keyword} (split : x = before ++ word)
    (live : Live k before.getLast? word (' ' :: y)) (clung : y.head?.any clings = true)
  /-- The first word of the second text is a keyword, and something clings to it. -/
  | lostAfter {word after : List Char} {k : Keyword} (split : y = word ++ after)
    (live : Live k (some ' ') word after) (clung : x.getLast?.any clings = true)
  /-- The two words are a keyword together. -/
  | made {before u v after : List Char} {k : Keyword} (left : x = before ++ u)
    (right : y = v ++ after) (ne_left : u ≠ []) (ne_right : v ≠ []) (live : Live k before.getLast? (u ++ v) after)

section Meeting

variable {before word x y : List Char}

theorem any_isWord_getLast? (hword : ∀ c ∈ word, isWord c = true) (hne : word ≠ [])
    (before : List Char) : (before ++ word).getLast?.any isWord = true := by
  rw [List.getLast?_append, List.getLast?_eq_some_getLast hne]
  exact hword _ (List.getLast_mem hne)

/-- Where the first text ends in no word, only the first word of the second may change. -/
theorem keywords_meet_iff_of_not_word (hx : x.getLast?.any isWord = false) :
    keywords (x ++ y) = keywords (x ++ ' ' :: y) ↔
      liveKeyword? x.getLast? y = liveKeyword? (some ' ') y := by
  obtain ⟨later, hlater⟩ := exists_keywordsAfter_eq y
  have hin : keywordsIn none x y = keywordsIn none x (' ' :: y) := by
    refine keywordsIn_congr (Gap.space.evenQuotes_append y).symm ?_
    intro hword
    rw [hx] at hword
    cases hword
  have hblank : keywords (x ++ ' ' :: y) =
      keywordsIn none x (' ' :: y) ++ keywordsAfter none y := Gap.space.keywords_append x y
  have hstart : liveKeyword? (some ' ') y = liveKeyword? none y :=
    liveKeyword?_of_not_clings (by decide) y
  rw [keywords_append, hblank, hin, hlater, hlater, hstart, List.append_cancel_left_eq,
    List.append_cancel_right_eq]
  constructor
  · intro h
    simpa using congrArg List.head? h
  · intro h
    rw [h]

theorem toList_eq_append_iff {α : Type} {o p q : Option α} :
    o.toList = p.toList ++ q.toList ↔ p = none ∧ o = q ∨ q = none ∧ o = p := by
  cases o <;> cases p <;> cases q <;> simp

/-- Where the first text ends in a word, that word may change, and the first word of the second. -/
theorem keywords_meet_iff_of_word (hword : ∀ c ∈ word, isWord c = true) (hne : word ≠ [])
    (hbefore : before.getLast?.any isWord = false) :
    keywords (before ++ word ++ y) = keywords (before ++ word ++ ' ' :: y) ↔
      liveKeyword? before.getLast? (word ++ ' ' :: y) = none ∧
          liveKeyword? before.getLast? (word ++ y) = liveKeyword? (some ' ') y ∨
        liveKeyword? (some ' ') y = none ∧
          liveKeyword? before.getLast? (word ++ y) =
            liveKeyword? before.getLast? (word ++ ' ' :: y) := by
  obtain ⟨later, hlater⟩ := exists_keywordsAfter_eq y
  have hlast : (before ++ word).getLast?.any clings = true :=
    any_clings_of_any_isWord (any_isWord_getLast? hword hne before)
  have hin : keywordsIn none before (word ++ y) = keywordsIn none before (word ++ ' ' :: y) := by
    refine keywordsIn_congr (evenQuotes_append (Gap.space.evenQuotes_append y).symm word) ?_
    intro hlast
    rw [hbefore] at hlast
    cases hlast
  have hblank : keywords (before ++ word ++ ' ' :: y) =
      keywordsIn none (before ++ word) (' ' :: y) ++ keywordsAfter none y :=
    Gap.space.keywords_append (before ++ word) y
  have hstart : liveKeyword? (some ' ') y = liveKeyword? none y :=
    liveKeyword?_of_not_clings (by decide) y
  rw [keywords_append, hblank, keywordsIn_append, keywordsIn_append, hin, hlater, hlater, hstart,
    keywordsIn_word hword hne, keywordsIn_word hword hne, liveKeyword?_of_clings hlast, Option.or_none,
    Option.toList_none, List.nil_append, List.append_assoc, List.append_assoc,
    List.append_cancel_left_eq, ← List.append_assoc, List.append_cancel_right_eq,
    toList_eq_append_iff]

/-- A live word that starts a text is its first word. -/
theorem Live.eq_of_append {k : Keyword} {b : Option Char} {w after rest : List Char}
    (h : Live k b w after) (hsplit : word ++ rest = w ++ after)
    (hword : ∀ c ∈ word, isWord c = true) (hrest : rest.head?.any isWord = false) :
    w = word ∧ after = rest :=
  eq_of_run_append h.letters (not_any_isWord h.stop) hword hrest hsplit.symm

theorem Live.length_eq {k : Keyword} {b b' : Option Char} {w w' after after' : List Char}
    (h : Live k b w after) (h' : Live k b' w' after') : w.length = w'.length :=
  (length_of_ofWord? h.spelled).trans (length_of_ofWord? h'.spelled).symm

/-- Keywords of one spelling are equally long, so none comes in the place of one that is lost. -/
theorem Altered.keywords_ne (h : Altered x y) : keywords (x ++ y) ≠ keywords (x ++ ' ' :: y) := by
  cases h with
  | @lostBefore before word k split live clung =>
    subst split
    have hlive := liveKeyword?_eq_some_iff.2 ⟨word, ' ' :: y, rfl, live⟩
    rw [Ne, keywords_meet_iff_of_word live.letters live.ne_nil (not_any_isWord live.start), hlive]
    rintro (⟨hnone, -⟩ | ⟨-, hsame⟩)
    · cases hnone
    · obtain ⟨w, after, hsplit, hjoined⟩ := liveKeyword?_eq_some_iff.1 hsame
      obtain ⟨-, rfl⟩ := List.append_inj hsplit (live.length_eq hjoined)
      rw [hjoined.stop] at clung
      cases clung
  | @lostAfter word after k split live clung =>
    have hlive := liveKeyword?_eq_some_iff.2 ⟨word, after, split, live⟩
    cases hx : x.getLast?.any isWord with
    | false =>
      rw [Ne, keywords_meet_iff_of_not_word hx, liveKeyword?_of_clings clung, hlive]
      nofun
    | true =>
      obtain ⟨before, u, rfl, hne, hu, hbefore⟩ := exists_lastWord hx
      rw [Ne, keywords_meet_iff_of_word hu hne hbefore, hlive]
      rintro (⟨-, hsame⟩ | ⟨hnone, -⟩)
      · obtain ⟨w, rest, hsplit, hjoined⟩ := liveKeyword?_eq_some_iff.1 hsame
        have hletters : ∀ c ∈ u ++ word, isWord c = true :=
          List.forall_mem_append.2 ⟨hu, live.letters⟩
        rw [split, ← List.append_assoc] at hsplit
        obtain ⟨rfl, -⟩ := hjoined.eq_of_append hsplit hletters (not_any_isWord live.stop)
        have hlength := hjoined.length_eq live
        rw [List.length_append] at hlength
        exact hne (List.length_eq_zero_iff.1 (by omega))
      · cases hnone
  | @made before u v after k left right ne_left ne_right live =>
    subst left
    obtain ⟨hu, hv⟩ := List.forall_mem_append.1 live.letters
    have hjoined : liveKeyword? before.getLast? (u ++ y) = some k := by
      refine liveKeyword?_eq_some_iff.2 ⟨u ++ v, after, ?_, live⟩
      rw [right, List.append_assoc]
    rw [Ne, keywords_meet_iff_of_word hu ne_left (not_any_isWord live.start), hjoined]
    rintro (⟨-, hsame⟩ | ⟨-, hsame⟩)
    · obtain ⟨w, rest, hsplit, hlive⟩ := liveKeyword?_eq_some_iff.1 hsame.symm
      rw [right] at hsplit
      obtain ⟨rfl, -⟩ := hlive.eq_of_append hsplit hv (not_any_isWord live.stop)
      have hlength := hlive.length_eq live
      rw [List.length_append] at hlength
      exact ne_left (List.length_eq_zero_iff.1 (by omega))
    · obtain ⟨w, rest, hsplit, hlive⟩ := liveKeyword?_eq_some_iff.1 hsame.symm
      obtain ⟨rfl, -⟩ := hlive.eq_of_append hsplit hu (not_any_isWord (Gap.space.head_append y))
      have hlength := hlive.length_eq live
      rw [List.length_append] at hlength
      exact ne_right (List.length_eq_zero_iff.1 (by omega))

theorem keywords_meet_of_not_altered (h : ¬ Altered x y) :
    keywords (x ++ y) = keywords (x ++ ' ' :: y) := by
  have hafter (hx : x.getLast?.any clings = true) : liveKeyword? (some ' ') y = none := by
    apply liveKeyword?_eq_none
    intro k word after hsplit hlive
    exact h (.lostAfter hsplit hlive hx)
  cases hx : x.getLast?.any isWord with
  | false =>
    rw [keywords_meet_iff_of_not_word hx]
    cases hclings : x.getLast?.any clings with
    | false =>
      have hblank : (some ' ').any clings = false := by decide
      rw [liveKeyword?_of_not_clings hclings, liveKeyword?_of_not_clings hblank]
    | true => rw [liveKeyword?_of_clings hclings, hafter hclings]
  | true =>
    have hclings := any_clings_of_any_isWord hx
    obtain ⟨before, u, rfl, hne, hu, hbefore⟩ := exists_lastWord hx
    rw [keywords_meet_iff_of_word hu hne hbefore]
    right
    refine ⟨hafter hclings, ?_⟩
    cases hy : y.head?.any clings with
    | false =>
      exact liveKeyword?_congr hne (Gap.space.evenQuotes_append y).symm fun _ =>
        ⟨hy, Gap.space.head_append y⟩
    | true =>
      -- Something clings to the last word of the first text, which is no keyword with a blank
      -- behind it, and none together with the first word of the second.
      have hlast : liveKeyword? before.getLast? (u ++ ' ' :: y) = none := by
        apply liveKeyword?_eq_none
        intro k w after hsplit hlive
        obtain ⟨rfl, rfl⟩ := hlive.eq_of_append hsplit hu (not_any_isWord (Gap.space.head_append y))
        exact h (.lostBefore rfl hlive hy)
      have hjoined : liveKeyword? before.getLast? (u ++ y) = none := by
        apply liveKeyword?_eq_none
        intro k w after hsplit hlive
        obtain ⟨v, rest, rfl, hv, hrest⟩ := exists_run isWord y
        rw [← List.append_assoc] at hsplit
        obtain ⟨rfl, rfl⟩ :=
          hlive.eq_of_append hsplit (List.forall_mem_append.2 ⟨hu, hv⟩) hrest
        by_cases hnil : v = []
        · subst hnil
          rw [List.nil_append, hlive.stop] at hy
          cases hy
        · exact h (.made rfl rfl hne hnil hlive)
      rw [hlast, hjoined]

/-- Where one of the texts ends in nothing that clings, writing them together alters nothing. -/
theorem not_altered_of_loose (h : x.getLast?.any clings = false ∨ y.head?.any clings = false) :
    ¬ Altered x y := by
  intro haltered
  have hboth : x.getLast?.any clings = true ∧ y.head?.any clings = true := by
    cases haltered with
    | @lostBefore before word k split live clung =>
      subst split
      have hlast := any_isWord_getLast? live.letters live.ne_nil before
      exact ⟨any_clings_of_any_isWord hlast, clung⟩
    | @lostAfter word after k split live clung =>
      subst split
      exact ⟨clung, any_clings_of_any_isWord (live.head after)⟩
    | @made before u v after k left right ne_left ne_right live =>
      subst left right
      obtain ⟨hu, hv⟩ := List.forall_mem_append.1 live.letters
      obtain ⟨d, v, rfl⟩ := List.exists_cons_of_ne_nil ne_right
      have hlast := any_isWord_getLast? hu ne_left before
      have hhead : (d :: v ++ after).head?.any isWord = true := hv d List.mem_cons_self
      exact ⟨any_clings_of_any_isWord hlast, any_clings_of_any_isWord hhead⟩
  rcases h with h | h
  · rw [hboth.1] at h
    cases h
  · rw [hboth.2] at h
    cases h

end Meeting

end TalOutline
