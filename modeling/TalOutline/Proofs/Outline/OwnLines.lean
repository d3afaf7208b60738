import TalOutline.Proofs.Outline.Extent

/-!
The exact extent of procs and subprocs. The own lines of a routine are those that count for its
body. From them alone, without a running depth, follows whether it has a body, where the body ends
and where the search goes on.
-/
namespace TalOutline

/-- A line that counts for the body of a routine. -/
structure OwnLine where
  line : Nat
  facts : Facts
  deriving DecidableEq, Repr

def Facts.hasBlock (f : Facts) : Bool :=
  0 < f.begins || 0 < f.ends

/-- A body that does not end on a line is open after it exactly if a block has begun. -/
theorem Facts.depthAfter_pos_iff {f : Facts} {depth : Nat} (h : f.closes depth = false) :
    0 < f.depthAfter depth ↔ 0 < depth ∨ f.hasBlock = true := by
  simp only [closes, depthAfter, hasBlock, Bool.and_eq_false_iff,
    decide_eq_false_iff_not, Bool.or_eq_true, decide_eq_true_eq] at h ⊢
  omega

namespace OwnLine

/-- All lines from a line on, which are the own lines of a subproc declared there. -/
def ofSubproc (n : Nat) : List Facts → List OwnLine
  | [] => []
  | f :: rest => ⟨n, f⟩ :: ofSubproc (n + 1) rest

/--
The own lines of a proc after its declaration, past lines that an earlier subproc has taken. A
declaration of a subproc is passed over with all that the subproc takes, unless a linkage on it
comes before the first block keyword.
-/
def afterProc (begun : Bool) (skip n : Nat) : List Facts → List OwnLine
  | [] => []
  | f :: rest =>
    match skip with
    | k + 1 => afterProc begun k (n + 1) rest
    | 0 =>
      if (f.declares? .subproc).isSome && (begun || f.linkage.isNone) then
        afterProc begun ((Body.read 0 n (f :: rest)).next - (n + 1)) (n + 1) rest
      else ⟨n, f⟩ :: afterProc (begun || f.hasBlock) 0 (n + 1) rest

def ofProc (n : Nat) : List Facts → List OwnLine
  | [] => []
  | f :: rest => ⟨n, f⟩ :: afterProc f.hasBlock 0 (n + 1) rest

/-- The `begin` keywords of the lines less the `end` keywords. -/
def net : List OwnLine → Int
  | [] => 0
  | l :: rest => (l.facts.begins : Int) - l.facts.ends + net rest

structure First (own : List OwnLine) (P : OwnLine → Prop) (l : OwnLine) : Prop where
  mem : l ∈ own
  holds : P l
  least : ∀ m ∈ own, P m → l.line ≤ m.line

/-- A line with a linkage, up to which no own line has a block keyword before it. -/
def EndsBodyless (own : List OwnLine) (l : OwnLine) : Prop :=
  First own (·.facts.linkage ≠ none) l ∧ ∀ m, First own (·.facts.hasBlock) m → l.line ≤ m.line

/-- A line with an `end`, up to which the own lines have no more `begin` than `end` keywords. -/
def Closes (own : List OwnLine) (l : OwnLine) : Prop :=
  0 < l.facts.ends ∧ net (own.filter (·.line ≤ l.line)) ≤ 0

/-- Reads a body on its own lines alone: how it ends, and the line after it. -/
def settle (depth stop : Nat) : List OwnLine → Ending × Nat
  | [] => (.unfinished, stop)
  | l :: rest =>
    match l.facts.linkageAt depth with
    | some linkage => (.bodyless linkage, l.line + 1)
    | none =>
      if l.facts.closes depth then (.closed, l.line + 1)
      else settle (l.facts.depthAfter depth) stop rest

theorem settle_ofSubproc (depth n : Nat) (lines : List Facts) :
    settle depth (n + lines.length) (ofSubproc n lines) =
      ((Body.read depth n lines).ending, (Body.read depth n lines).next) := by
  induction lines generalizing depth n with
  | nil => rfl
  | cons f rest ih =>
    have hlen : n + (f :: rest).length = n + 1 + rest.length := by
      rw [List.length_cons]
      omega
    rw [hlen, ofSubproc, settle, Body.read]
    cases hl : f.linkageAt depth with
    | some linkage => rfl
    | none =>
      cases hc : f.closes depth with
      | true => rfl
      | false => exact ih (f.depthAfter depth) (n + 1)

/-- Passing over subprocs beforehand or while reading makes no difference. -/
theorem settle_afterProc (skip depth n : Nat) (lines : List Facts) :
    settle depth (n + lines.length) (afterProc (0 < depth) skip n lines) =
      ((Proc.readBody skip depth n lines).1.ending,
        (Proc.readBody skip depth n lines).1.next) := by
  induction lines generalizing skip depth n with
  | nil => cases skip <;> rfl
  | cons f rest ih =>
    have hlen : n + (f :: rest).length = n + 1 + rest.length := by
      rw [List.length_cons]
      omega
    rw [hlen]
    cases skip with
    | succ k => exact ih k depth (n + 1)
    | zero =>
      rw [afterProc, Proc.readBody]
      cases hl : f.linkageAt depth with
      | some linkage =>
        -- The linkage counts, so nothing has begun and the line is not passed over.
        have hown : ((f.declares? .subproc).isSome && (decide (0 < depth) || f.linkage.isNone)) =
            false := by
          unfold Facts.linkageAt at hl
          split at hl
          · next h => simp [h, hl]
          · cases hl
        rw [hown]
        simp only [Bool.false_eq_true, if_false, settle, hl]
        rfl
      | none =>
        have hopen : (decide (0 < depth) || f.linkage.isNone) = true := by
          unfold Facts.linkageAt at hl
          split at hl
          · simp [hl]
          · next h => simp [Nat.pos_of_ne_zero h]
        rw [hopen, Bool.and_true]
        cases hd : f.declares? .subproc with
        | some name =>
          simp only [Option.isSome_some, if_true]
          exact ih _ depth (n + 1)
        | none =>
          simp only [Option.isSome_none, Bool.false_eq_true, if_false, settle, hl]
          cases hc : f.closes depth with
          | true => rfl
          | false =>
            have hbegun : (decide (0 < depth) || f.hasBlock) = decide (0 < f.depthAfter depth) := by
              rw [Bool.eq_iff_iff, decide_eq_true_eq, Facts.depthAfter_pos_iff hc, Bool.or_eq_true,
                decide_eq_true_eq]
            simp only [Bool.false_eq_true, if_false, hbegun]
            exact ih 0 (f.depthAfter depth) (n + 1)

theorem settle_ofProc (n : Nat) {f : Facts} (rest : List Facts)
    (hf : f.declares? .subproc = none) :
    settle 0 (n + (f :: rest).length) (ofProc n (f :: rest)) =
      ((Proc.readBody 0 0 n (f :: rest)).1.ending,
        (Proc.readBody 0 0 n (f :: rest)).1.next) := by
  rw [← settle_afterProc, afterProc, hf]
  simp [ofProc]

theorem line_ofSubproc {n : Nat} {lines : List Facts} {l : OwnLine}
    (hl : l ∈ ofSubproc n lines) : n ≤ l.line := by
  induction lines generalizing n with
  | nil => cases hl
  | cons f rest ih =>
    rcases List.mem_cons.1 hl with rfl | hl
    · exact Nat.le_refl n
    · exact Nat.le_of_succ_le (ih hl)

theorem ofSubproc_pairwise (n : Nat) (lines : List Facts) :
    (ofSubproc n lines).Pairwise (·.line < ·.line) := by
  induction lines generalizing n with
  | nil => exact .nil
  | cons f rest ih => exact .cons (fun l hl => line_ofSubproc hl) (ih (n + 1))

theorem line_afterProc {begun : Bool} {skip n : Nat} {lines : List Facts} {l : OwnLine}
    (hl : l ∈ afterProc begun skip n lines) : n ≤ l.line := by
  induction lines generalizing begun skip n with
  | nil => cases skip <;> cases hl
  | cons f rest ih =>
    cases skip with
    | succ k => exact Nat.le_of_succ_le (ih hl)
    | zero =>
      rw [afterProc] at hl
      split at hl
      · exact Nat.le_of_succ_le (ih hl)
      · rcases List.mem_cons.1 hl with rfl | hl
        · exact Nat.le_refl n
        · exact Nat.le_of_succ_le (ih hl)

theorem afterProc_pairwise (begun : Bool) (skip n : Nat) (lines : List Facts) :
    (afterProc begun skip n lines).Pairwise (·.line < ·.line) := by
  induction lines generalizing begun skip n with
  | nil => cases skip <;> exact .nil
  | cons f rest ih =>
    cases skip with
    | succ k => exact ih begun k (n + 1)
    | zero =>
      rw [afterProc]
      split
      · exact ih _ _ _
      · exact .cons (fun l hl => line_afterProc hl) (ih _ _ _)

theorem ofProc_pairwise (n : Nat) (lines : List Facts) :
    (ofProc n lines).Pairwise (·.line < ·.line) := by
  cases lines with
  | nil => exact .nil
  | cons f rest => exact .cons (fun l hl => line_afterProc hl) (afterProc_pairwise _ _ _ rest)

section Sorted

variable {own before rest : List OwnLine} {l m : OwnLine} {P : OwnLine → Prop} {depth : Nat}

theorem exists_first (hs : own.Pairwise (·.line < ·.line)) (hm : m ∈ own) (hP : P m) :
    ∃ l, First own P l := by
  induction own with
  | nil => cases hm
  | cons a rest ih =>
    obtain ⟨hfirst, hrest⟩ := List.pairwise_cons.1 hs
    by_cases ha : P a
    · refine ⟨a, List.mem_cons_self, ha, ?_⟩
      rintro b hb -
      rcases List.mem_cons.1 hb with rfl | hb
      · exact Nat.le_refl _
      · exact Nat.le_of_lt (hfirst b hb)
    · rcases List.mem_cons.1 hm with rfl | hm
      · exact absurd hP ha
      · obtain ⟨l, hl, hPl, hleast⟩ := ih hrest hm
        refine ⟨l, List.mem_cons_of_mem a hl, hPl, ?_⟩
        intro b hb hPb
        rcases List.mem_cons.1 hb with rfl | hb
        · exact absurd hPb ha
        · exact hleast b hb hPb

theorem eq_of_line_eq (hs : own.Pairwise (·.line < ·.line)) (hl : l ∈ own) (hm : m ∈ own)
    (h : l.line = m.line) : l = m := by
  induction own with
  | nil => cases hl
  | cons a rest ih =>
    obtain ⟨hfirst, hrest⟩ := List.pairwise_cons.1 hs
    rcases List.mem_cons.1 hl with rfl | hl' <;> rcases List.mem_cons.1 hm with rfl | hm'
    · rfl
    · have := hfirst m hm'
      omega
    · have := hfirst l hl'
      omega
    · exact ih hrest hl' hm'

theorem First.unique (hs : own.Pairwise (·.line < ·.line)) (hl : First own P l)
    (hm : First own P m) : l = m :=
  eq_of_line_eq hs hl.mem hm.mem
    (Nat.le_antisymm (hl.least m hm.mem hm.holds) (hm.least l hl.mem hl.holds))

theorem line_lt_of_append (hs : (before ++ rest).Pairwise (·.line < ·.line)) (hl : l ∈ before)
    (hm : m ∈ rest) : l.line < m.line :=
  (List.pairwise_append.1 hs).2.2 l hl m hm

theorem mem_before (hs : (before ++ rest).Pairwise (·.line < ·.line)) (hl : l ∈ before)
    (hm : m ∈ before ++ rest) (hle : m.line ≤ l.line) : m ∈ before := by
  rcases List.mem_append.1 hm with hm | hm
  · exact hm
  · have := line_lt_of_append hs hl hm
    omega

theorem net_append_singleton (before : List OwnLine) (l : OwnLine) :
    net (before ++ [l]) = net before + l.facts.begins - l.facts.ends := by
  induction before with
  | nil =>
    simp only [List.nil_append, net]
    omega
  | cons m before ih =>
    rw [List.cons_append, net, net, ih]
    omega

theorem closes_append_iff (hs : (before ++ rest).Pairwise (·.line < ·.line)) (hl : l ∈ before) :
    Closes (before ++ rest) l ↔ Closes before l := by
  have hrest : rest.filter (·.line ≤ l.line) = [] := by
    rw [List.filter_eq_nil_iff]
    intro m hm
    have := line_lt_of_append hs hl hm
    simp only [decide_eq_true_eq]
    omega
  unfold Closes
  rw [List.filter_append, hrest, List.append_nil]

theorem closes_last_iff (hs : (before ++ [l]).Pairwise (·.line < ·.line)) :
    Closes (before ++ [l]) l ↔ 0 < l.facts.ends ∧ net (before ++ [l]) ≤ 0 := by
  have hall : (before ++ [l]).filter (·.line ≤ l.line) = before ++ [l] := by
    rw [List.filter_eq_self]
    intro m hm
    rw [decide_eq_true_eq]
    rcases List.mem_append.1 hm with hm | hm
    · exact Nat.le_of_lt (line_lt_of_append hs hm List.mem_cons_self)
    · exact Nat.le_of_eq (congrArg line (List.mem_singleton.1 hm))
  unfold Closes
  rw [hall]

/-- A block keyword has been seen, and no linkage up to it. -/
def Begun (before : List OwnLine) : Prop :=
  ∃ m ∈ before, m.facts.hasBlock = true ∧ ∀ l ∈ before, l.line ≤ m.line → l.facts.linkage = none

/-- Once a body has begun, no linkage can take it back. -/
theorem Begun.not_endsBodyless (hb : Begun before)
    (hs : (before ++ rest).Pairwise (·.line < ·.line)) (k : OwnLine) :
    ¬ EndsBodyless (before ++ rest) k := by
  rintro ⟨hk, hle⟩
  obtain ⟨m, hm, hblock, hnone⟩ := hb
  have hown : m ∈ before ++ rest := List.mem_append_left rest hm
  obtain ⟨first, hfirst⟩ := exists_first (P := fun l => l.facts.hasBlock = true) hs hown hblock
  have hkm : k.line ≤ m.line := Nat.le_trans (hle first hfirst) (hfirst.least m hown hblock)
  exact hk.holds (hnone k (mem_before hs hm hk.mem hkm) hkm)

/-- What holds of the lines read so far while the body has not come to its end. -/
structure Reading (before : List OwnLine) (depth : Nat) : Prop where
  net_eq : net before = depth
  still : ∀ l ∈ before, ¬ Closes before l
  quiet : depth = 0 → ∀ l ∈ before, l.facts.linkage = none ∧ l.facts.hasBlock = false
  begun : 0 < depth → Begun before

theorem Reading.nil : Reading [] 0 :=
  ⟨rfl, nofun, fun _ => nofun, nofun⟩

private theorem linkage_of_linkageAt {f : Facts} (h : f.linkageAt depth = none)
    (hd : depth = 0) : f.linkage = none := by
  rwa [Facts.linkageAt, if_pos hd] at h

theorem Reading.begun_append (hr : Reading before depth)
    (hs : (before ++ [l]).Pairwise (·.line < ·.line)) (hl : l.facts.linkageAt depth = none)
    (hb : 0 < depth ∨ l.facts.hasBlock = true) : Begun (before ++ [l]) := by
  by_cases hd : depth = 0
  · have hblock : l.facts.hasBlock = true := hb.resolve_left (by omega)
    refine ⟨l, by simp, hblock, ?_⟩
    rintro m hm -
    rcases List.mem_append.1 hm with hm | hm
    · exact (hr.quiet hd m hm).1
    · rw [List.mem_singleton.1 hm]
      exact linkage_of_linkageAt hl hd
  · obtain ⟨m, hm, hblock, hnone⟩ := hr.begun (Nat.pos_of_ne_zero hd)
    refine ⟨m, List.mem_append_left _ hm, hblock, ?_⟩
    intro k hk hle
    exact hnone k (mem_before hs hm hk hle) hle

/-- Reading on past a line that neither ends the body nor tells that there is none. -/
theorem Reading.step (hr : Reading before depth)
    (hs : (before ++ [l]).Pairwise (·.line < ·.line)) (hl : l.facts.linkageAt depth = none)
    (hc : l.facts.closes depth = false) :
    Reading (before ++ [l]) (l.facts.depthAfter depth) where
  net_eq := by
    rw [net_append_singleton, hr.net_eq]
    simp only [Facts.closes, Facts.depthAfter, Bool.and_eq_false_iff, decide_eq_false_iff_not] at hc ⊢
    omega
  still := by
    intro m hm
    rcases List.mem_append.1 hm with hm | hm
    · rw [closes_append_iff hs hm]
      exact hr.still m hm
    · rw [List.mem_singleton.1 hm, closes_last_iff hs, net_append_singleton, hr.net_eq]
      simp only [Facts.closes, Bool.and_eq_false_iff, decide_eq_false_iff_not] at hc
      omega
  quiet := by
    intro hzero
    have hn : ¬ (0 < depth ∨ l.facts.hasBlock = true) := by
      rw [← Facts.depthAfter_pos_iff hc]
      omega
    obtain ⟨hd, hblock⟩ := not_or.1 hn
    intro m hm
    rcases List.mem_append.1 hm with hm | hm
    · exact hr.quiet (by omega) m hm
    · rw [List.mem_singleton.1 hm]
      exact ⟨linkage_of_linkageAt hl (by omega), Bool.eq_false_iff.2 hblock⟩
  begun := fun h => hr.begun_append hs hl ((Facts.depthAfter_pos_iff hc).1 h)

theorem mem_before_or_le (hs : (before ++ l :: rest).Pairwise (·.line < ·.line))
    (hm : m ∈ before ++ l :: rest) : m ∈ before ∨ l.line ≤ m.line := by
  refine (List.mem_append.1 hm).imp_right fun hm => ?_
  rcases List.mem_cons.1 hm with rfl | hm
  · exact Nat.le_refl _
  · exact Nat.le_of_lt ((List.pairwise_cons.1 (List.pairwise_append.1 hs).2.1).1 m hm)

theorem Reading.endsBodyless (hr : Reading before 0)
    (hs : (before ++ l :: rest).Pairwise (·.line < ·.line)) (hl : l.facts.linkage ≠ none) :
    EndsBodyless (before ++ l :: rest) l := by
  refine ⟨⟨by simp, hl, ?_⟩, ?_⟩
  · intro m hm hne
    rcases mem_before_or_le hs hm with hb | hle
    · exact absurd (hr.quiet rfl m hb).1 hne
    · exact hle
  · intro m hm
    rcases mem_before_or_le hs hm.mem with hb | hle
    · exact absurd hm.holds (Bool.eq_false_iff.1 (hr.quiet rfl m hb).2)
    · exact hle

/-- The line where the running depth comes back to zero is the first that closes the body. -/
theorem Reading.first_closes (hr : Reading before depth)
    (hs : (before ++ l :: rest).Pairwise (·.line < ·.line)) (hc : l.facts.closes depth = true) :
    First (before ++ l :: rest) (Closes (before ++ l :: rest)) l := by
  have happend : before ++ l :: rest = before ++ [l] ++ rest := by simp
  refine ⟨by simp, ?_, ?_⟩
  · rw [happend] at hs ⊢
    rw [closes_append_iff hs (by simp), closes_last_iff (List.pairwise_append.1 hs).1,
      net_append_singleton, hr.net_eq]
    simp only [Facts.closes, Bool.and_eq_true, decide_eq_true_eq] at hc
    omega
  · intro m hm hcm
    rcases mem_before_or_le hs hm with hb | hle
    · rw [closes_append_iff hs hb] at hcm
      exact absurd hcm (hr.still m hb)
    · exact hle

end Sorted

/-- What the own lines of a routine say of the end of its body and of the line after it. -/
def Outcome (own : List OwnLine) (stop : Nat) : Ending × Nat → Prop
  | (.bodyless linkage, next) =>
    ∃ k, EndsBodyless own k ∧ k.facts.linkage = some linkage ∧ next = k.line + 1
  | (.closed, next) =>
    (∀ k, ¬ EndsBodyless own k) ∧ ∃ l, First own (Closes own) l ∧ next = l.line + 1
  | (.unfinished, next) =>
    (∀ k, ¬ EndsBodyless own k) ∧ (∀ l ∈ own, ¬ Closes own l) ∧ next = stop

/-- Reading with a running depth comes to what the own lines say. -/
theorem outcome_settle {before rest : List OwnLine} {depth : Nat} (hr : Reading before depth)
    (hs : (before ++ rest).Pairwise (·.line < ·.line)) (stop : Nat) :
    Outcome (before ++ rest) stop (settle depth stop rest) := by
  -- What has been read moves line by line from `rest` to `before`, so their append stays the same.
  induction rest generalizing before depth with
  | nil =>
    refine ⟨?_, ?_, rfl⟩
    · intro k hk
      by_cases hd : depth = 0
      · have hk' : k ∈ before := by simpa using hk.1.mem
        exact hk.1.holds (hr.quiet hd k hk').1
      · exact (hr.begun (Nat.pos_of_ne_zero hd)).not_endsBodyless hs k hk
    · rw [List.append_nil]
      exact hr.still
  | cons l rest ih =>
    have happend : before ++ l :: rest = before ++ [l] ++ rest := by simp
    have hsl : (before ++ [l]).Pairwise (·.line < ·.line) := by
      rw [happend] at hs
      exact (List.pairwise_append.1 hs).1
    rw [settle]
    cases hl : l.facts.linkageAt depth with
    | some linkage =>
      unfold Facts.linkageAt at hl
      split at hl
      · next hd =>
        subst hd
        exact ⟨l, hr.endsBodyless hs (by rw [hl]; nofun), hl, rfl⟩
      · cases hl
    | none =>
      cases hc : l.facts.closes depth with
      | true =>
        have hblock : l.facts.hasBlock = true := by
          simp only [Facts.closes, Bool.and_eq_true, decide_eq_true_eq] at hc
          simp [Facts.hasBlock, hc.1]
        refine ⟨?_, l, hr.first_closes hs hc, rfl⟩
        have hb := hr.begun_append hsl hl (.inr hblock)
        rw [happend] at hs ⊢
        exact hb.not_endsBodyless hs
      | false =>
        simp only [Bool.false_eq_true, if_false]
        rw [happend] at hs ⊢
        exact ih (hr.step hsl hl hc) hs

theorem outcome_of_pairwise {own : List OwnLine} (hs : own.Pairwise (·.line < ·.line))
    (stop : Nat) : Outcome own stop (settle 0 stop own) :=
  outcome_settle .nil hs stop

/--
How the own lines of a routine settle its entry and the line where the search goes on. Without a
body the entry is its declaration line, otherwise it goes to the first line that closes the body,
or to the last line of the document.
-/
structure Settles (lines : List Line) (own : List OwnLine) (start : Nat) (s : Symbol)
    (next : Nat) : Prop where
  bodyless_iff : s.detail ≠ none ↔ ∃ k, EndsBodyless own k
  bodyless : ∀ k, EndsBodyless own k → s.detail = k.facts.linkage ∧
    s.range = .line lines start ∧ next = k.line + 1
  closed : s.detail = none → ∀ l, First own (Closes own) l →
    s.range = .spanning lines start l.line ∧ next = l.line + 1
  unfinished : s.detail = none → (∀ l ∈ own, ¬ Closes own l) →
    s.range = .spanning lines start (lines.length - 1) ∧ next = lines.length

theorem settles_of_outcome {lines : List Line} {own : List OwnLine} {item : Item}
    {ending : Ending} {start next : Nat} (hs : own.Pairwise (·.line < ·.line))
    (ho : Outcome own lines.length (ending, next)) (hfirst : item.first = start)
    (hbodyless : ∀ linkage, ending = .bodyless linkage →
      item.detail = some linkage ∧ item.last = start)
    (hbody : (∀ linkage, ending ≠ .bodyless linkage) →
      item.detail = none ∧ item.last = next - 1) :
    Settles lines own start (item.measure lines) next := by
  subst hfirst
  cases ending with
  | bodyless linkage =>
    obtain ⟨k, hk, hlinkage, rfl⟩ := ho
    obtain ⟨hd, hl⟩ := hbodyless linkage rfl
    have hsome : (item.measure lines).detail ≠ none := by
      rw [Item.measure, hd]
      exact Option.some_ne_none linkage
    refine ⟨⟨fun _ => ⟨k, hk⟩, fun _ => hsome⟩, ?_, fun h => absurd h hsome, fun h => absurd h hsome⟩
    intro m hm
    obtain rfl := hm.1.unique hs hk.1
    refine ⟨?_, ?_, rfl⟩
    · rw [Item.measure, hd, hlinkage]
    · rw [Item.measure, hl, Range.line]
  | closed =>
    obtain ⟨hno, l, hl, rfl⟩ := ho
    obtain ⟨hd, hlast⟩ := hbody (by simp)
    have hnone : ¬ ∃ k, EndsBodyless own k := not_exists.2 hno
    refine ⟨⟨fun h => absurd hd h, fun h => absurd h hnone⟩, fun k hk => absurd hk (hno k),
      ?_, fun _ h => absurd hl.holds (h l hl.mem)⟩
    intro _ m hm
    obtain rfl := hm.unique hs hl
    refine ⟨?_, rfl⟩
    rw [Item.measure, hlast, Nat.add_sub_cancel]
  | unfinished =>
    obtain ⟨hno, hopen, rfl⟩ := ho
    obtain ⟨hd, hlast⟩ := hbody (by simp)
    have hnone : ¬ ∃ k, EndsBodyless own k := not_exists.2 hno
    refine ⟨⟨fun h => absurd hd h, fun h => absurd h hnone⟩, fun k hk => absurd hk (hno k),
      fun _ l hl => absurd hl.holds (hopen l hl.mem), fun _ _ => ⟨?_, rfl⟩⟩
    rw [Item.measure, hlast]

private theorem add_length_drop {lines : List Line} {n : Nat} {f : Facts} {rest : List Facts}
    (h : (lines.map Facts.ofLine).drop n = f :: rest) : n + (f :: rest).length = lines.length := by
  have hlen := congrArg List.length h
  simp only [List.length_drop, List.length_map, List.length_cons] at hlen ⊢
  omega

theorem settles_proc {lines : List Line} {n : Nat} {f : Facts} {rest : List Facts}
    (hn : (lines.map Facts.ofLine).drop n = f :: rest) (hf : f.declares? .subproc = none)
    (name : String) :
    Settles lines (ofProc n (f :: rest)) n
      ((Proc.read name n (f :: rest)).tree.map (Item.measure lines)).label
      (Proc.read name n (f :: rest)).body.next := by
  have ho := outcome_of_pairwise (ofProc_pairwise n (f :: rest)) lines.length
  rw [← add_length_drop hn, settle_ofProc n rest hf, add_length_drop hn] at ho
  rw [Tree.label_map]
  refine settles_of_outcome (ofProc_pairwise n (f :: rest)) ho (Proc.first_tree _) ?_ ?_
  · intro linkage he
    simp only [Proc.tree, Proc.read, he]
    exact ⟨rfl, rfl⟩
  · intro hne
    unfold Proc.tree
    split
    · next linkage h => exact absurd h (hne linkage)
    · exact ⟨rfl, rfl⟩

theorem settles_subproc {lines : List Line} {n : Nat} {f : Facts} {rest : List Facts}
    (hn : (lines.map Facts.ofLine).drop n = f :: rest) (name : String) :
    Settles lines (ofSubproc n (f :: rest)) n
      ((Subproc.mk name n (.read 0 n (f :: rest))).item.measure lines)
      (Body.read 0 n (f :: rest)).next := by
  have ho := outcome_of_pairwise (ofSubproc_pairwise n (f :: rest)) lines.length
  rw [← add_length_drop hn, settle_ofSubproc, add_length_drop hn] at ho
  refine settles_of_outcome (ofSubproc_pairwise n (f :: rest)) ho rfl ?_ ?_
  · intro linkage he
    simp [Subproc.item, Subproc.detail, Subproc.last, he]
  · intro hne
    cases he : (Body.read 0 n (f :: rest)).ending with
    | bodyless linkage => exact absurd he (hne linkage)
    | closed | unfinished => simp [Subproc.item, Subproc.detail, Subproc.last, he]

/--
The entry of every proc that is found, and of every subproc in it, is settled by its own lines, and
after a proc the search goes on at the line that they give. The subprocs have their entries below
that of the proc, unless it has no body.
-/
theorem procs_settled (lines : List Line) {before after : List Proc} {p : Proc}
    (h : (Survey.ofLines lines).procs = before ++ p :: after) :
    p.tree.map (Item.measure lines) ∈ Outline.symbols lines ∧
      Settles lines (ofProc p.start ((lines.map Facts.ofLine).drop p.start)) p.start
        (p.tree.map (Item.measure lines)).label p.body.next ∧
      after = Survey.procsFrom (lines.map Facts.ofLine) p.body.next ∧
      ((p.tree.map (Item.measure lines)).label.detail = none →
        ((p.tree.map (Item.measure lines)).children.map Tree.label).filter (·.kind = .subproc) =
          p.subprocs.map fun s => s.item.measure lines) ∧
      ∀ s ∈ p.subprocs,
        Settles lines (ofSubproc s.start ((lines.map Facts.ofLine).drop s.start)) s.start
          (s.item.measure lines) s.body.next := by
  have hsplit := h
  rw [Survey.procs_ofLines] at hsplit
  obtain ⟨f, rest, name, hn, hf, hp, ha⟩ := Survey.procsFrom_split hsplit
  refine ⟨?_, ?_, ha, ?_, ?_⟩
  · unfold Outline.symbols Outline.items
    rw [Tree.mapForest_eq]
    split
    · next hnil => simp [hnil] at h
    · rw [h]
      simp
  · rw [hn]
    have hs := settles_proc hn (Facts.declares?_subproc_of_proc hf) (.ofList name)
    rwa [← hp] at hs
  · intro hd
    rw [Tree.label_map] at hd
    rw [Proc.label_children_tree lines hd, Proc.filter_entries]
  · intro s hs
    rw [hp] at hs
    obtain ⟨g, more, subname, hg, -, he⟩ := Proc.subproc_of_readBody hn hs
    rw [hg]
    have hsub := settles_subproc hg (.ofList subname)
    rw [he] at hsub ⊢
    exact hsub

/-- A proc with a subproc that is declared only, and a proc that is external. -/
def twoProcs : List Line :=
  ["proc a;", "subproc b;", "forward;", "begin", "end;", "proc d; external;"].map String.toList

theorem procs_settled_twoProcs :
    (Survey.ofLines twoProcs).procs = [] ++ Proc.read "a" 0 (twoProcs.map Facts.ofLine) ::
      [Proc.read "d" 5 ((twoProcs.map Facts.ofLine).drop 5)] ∧
    Settles twoProcs (ofProc 0 (twoProcs.map Facts.ofLine)) 0
      ⟨"a", .proc, none, .spanning twoProcs 0 4, .line twoProcs 0⟩ 5 := by
  have h : (Survey.ofLines twoProcs).procs = [] ++ Proc.read "a" 0 (twoProcs.map Facts.ofLine) ::
      [Proc.read "d" 5 ((twoProcs.map Facts.ofLine).drop 5)] := by decide +kernel
  have hentry : (Proc.read "a" 0 (twoProcs.map Facts.ofLine)).tree.label =
      ⟨"a", .proc, none, 0, 4⟩ ∧ (Proc.read "a" 0 (twoProcs.map Facts.ofLine)).body.next = 5 := by
    decide +kernel
  have hs := (procs_settled twoProcs h).2.1
  rw [Tree.label_map, hentry.1, hentry.2] at hs
  exact ⟨h, hs⟩
end OwnLine

end TalOutline
