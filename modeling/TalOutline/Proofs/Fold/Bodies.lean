import TalOutline.Fold.Block
import TalOutline.Proofs.Outline.Nodes

/-!
Bodies and folds of blocks agree. Where no line has two block keywords, the body of a proc without
subprocs goes from its first `begin` to the line that closes it, and these lines are one fold. It does
not matter what earlier lines have left open.
-/
namespace TalOutline

namespace Fold

theorem blockWords_cases {line : Line} (h : (blockWords line).length ≤ 1) :
    (blockWords line = [] ∧ (Facts.ofLine line).begins = 0 ∧ (Facts.ofLine line).ends = 0) ∨
    (blockWords line = [.blockBegin] ∧ (Facts.ofLine line).begins = 1 ∧
      (Facts.ofLine line).ends = 0) ∨
    (blockWords line = [.blockEnd] ∧ (Facts.ofLine line).begins = 0 ∧
      (Facts.ofLine line).ends = 1) := by
  have hbegins : (Facts.ofLine line).begins = (blockWords line).count .blockBegin :=
    (List.count_filter rfl).symm
  have hends : (Facts.ofLine line).ends = (blockWords line).count .blockEnd :=
    (List.count_filter rfl).symm
  rw [hbegins, hends]
  cases hwords : blockWords line with
  | nil => exact .inl ⟨rfl, rfl, rfl⟩
  | cons k rest =>
    have hrest : rest = [] := by
      rw [hwords, List.length_cons] at h
      exact List.length_eq_zero_iff.1 (by omega)
    have hk : k ∈ blockWords line := by simp [hwords]
    have hblock : k.isBlock = true := (List.mem_filter.1 hk).2
    simp only [Keyword.isBlock, Bool.or_eq_true, beq_iff_eq] at hblock
    rw [hrest]
    rcases hblock with rfl | rfl
    · exact .inr (.inl ⟨rfl, rfl, rfl⟩)
    · exact .inr (.inr ⟨rfl, rfl, rfl⟩)

theorem filter_upTo?_self (kind : FoldKind) (first next : Nat) :
    (upTo? kind first next).toList.filter (·.first = first) = (upTo? kind first next).toList := by
  unfold upTo?
  split <;> simp

theorem filter_upTo?_ne {first b : Nat} (h : first ≠ b) {kind : FoldKind} {next : Nat} :
    (upTo? kind first next).toList.filter (·.first = b) = [] := by
  unfold upTo?
  split <;> simp [h]

section Avoids

variable {b n : Nat} {opened : List Nat}

theorem stepBlocks_avoids (hn : b ≠ n) (hopened : b ∉ opened) (words : List Keyword) :
    b ∉ (stepBlocks n opened words).1 ∧
      (stepBlocks n opened words).2.filter (·.first = b) = [] := by
  induction words generalizing opened with
  | nil => cases opened <;> exact ⟨hopened, rfl⟩
  | cons k rest ih =>
    cases k with
    | blockBegin =>
      have hpush : b ∉ n :: opened := by simp [hn, hopened]
      cases opened <;> exact ih hpush
    | blockEnd =>
      cases opened with
      | nil => exact ih hopened
      | cons first opened =>
        rw [List.mem_cons, not_or] at hopened
        obtain ⟨hfirst, hlater⟩ := hopened
        obtain ⟨hstack, hfolds⟩ := ih hlater
        refine ⟨hstack, ?_⟩
        rw [stepBlocks, List.filter_append, filter_upTo?_ne (Ne.symm hfirst), hfolds,
          List.append_nil]
    | proc | subproc | forward | external => cases opened <;> exact ih hopened

theorem run_avoids (hn : b < n) (hopened : b ∉ opened) (lines : List Line) :
    (blockTracker.run opened n lines).filter (·.first = b) = [] := by
  induction lines generalizing opened n with
  | nil => rfl
  | cons line rest ih =>
    obtain ⟨hstack, hfolds⟩ := stepBlocks_avoids (Nat.ne_of_lt hn) hopened (blockWords line)
    have hrest := ih (Nat.lt_succ_of_lt hn) hstack
    rw [Tracker.run, List.filter_append]
    exact List.append_eq_nil_iff.2 ⟨hfolds, hrest⟩

theorem exists_run_eq (hn : n ≤ b) (hopened : b ∉ opened) (lines : List Line) :
    ∃ later, b ∉ later ∧ (blockTracker.run opened n lines).filter (·.first = b) =
      (blockTracker.run later b (lines.drop (b - n))).filter (·.first = b) := by
  induction lines generalizing opened n with
  | nil => exact ⟨opened, hopened, by rw [List.drop_nil]; rfl⟩
  | cons line rest ih =>
    by_cases hb : b = n
    · subst hb
      exact ⟨opened, hopened, by rw [Nat.sub_self, List.drop_zero]⟩
    · obtain ⟨hstack, hfolds⟩ := stepBlocks_avoids hb hopened (blockWords line)
      obtain ⟨later, hlater, hrun⟩ := ih (n := n + 1) (by omega) hstack
      have hdrop : (line :: rest).drop (b - n) = rest.drop (b - (n + 1)) := by
        have hsucc : b - n = b - (n + 1) + 1 := by omega
        rw [hsucc, List.drop_succ_cons]
      refine ⟨later, hlater, ?_⟩
      rw [hdrop, ← hrun, Tracker.run, List.filter_append]
      exact (congrArg (· ++ _) hfolds)

end Avoids

end Fold

namespace Proc

/-- How a line is read in a body that is closed later on or here, and has no subprocs. -/
theorem gist_readBody_closed {depth n next : Nat} {f : Facts} {rest : List Facts}
    (h : gist (readBody 0 depth n (f :: rest)) = (.closed, next, [])) :
    (f.closes depth = true ∧ next = n + 1) ∨
      (f.closes depth = false ∧
        gist (readBody 0 (f.depthAfter depth) (n + 1) rest) = (.closed, next, [])) := by
  cases hlinkage : f.linkageAt depth with
  | some linkage =>
    rw [readBody] at h
    simp only [hlinkage, gist, Body.stop, Prod.mk.injEq] at h
    cases h.1
  | none =>
    cases hnone : f.declares? .subproc with
    | some name =>
      rw [readBody] at h
      simp only [hlinkage, hnone, gist, Prod.mk.injEq, List.map_cons] at h
      cases h.2.2
    | none =>
      cases hcloses : f.closes depth with
      | true =>
        rw [readBody] at h
        simp only [hlinkage, hnone, hcloses, gist, if_true, Body.stop, Prod.mk.injEq] at h
        exact .inl ⟨rfl, h.2.1.symm⟩
      | false =>
        rw [gist_readBody_pass rest hlinkage hnone hcloses] at h
        exact .inr ⟨rfl, h⟩

/-- Before its first `begin` a body that is closed later on is read at depth zero. -/
theorem gist_readBody_quiet {doc : List Facts} {n k next : Nat} (hnext : n + k < next)
    (h : gist (readBody 0 0 n (doc.drop n)) = (.closed, next, []))
    (hquiet : ∀ m f, n ≤ m → m < n + k → doc[m]? = some f → f.begins = 0) :
    gist (readBody 0 0 (n + k) (doc.drop (n + k))) = (.closed, next, []) := by
  induction k generalizing n with
  | zero => exact h
  | succ k ih =>
    have hadd : n + (k + 1) = n + 1 + k := by omega
    rw [hadd] at hnext hquiet ⊢
    cases hdoc : doc.drop n with
    | nil =>
      rw [hdoc] at h
      cases h
    | cons f rest =>
      have hrest : doc.drop (n + 1) = rest := drop_succ_of_drop hdoc
      have hf : doc[n]? = some f := getElem?_of_drop hdoc
      have hbegins : f.begins = 0 := hquiet n f (Nat.le_refl n) (by omega) hf
      rw [hdoc] at h
      rcases gist_readBody_closed h with ⟨-, hclosed⟩ | ⟨hcloses, hlater⟩
      · omega
      · have hdepth : f.depthAfter 0 = 0 := by
          simp only [Facts.closes, Facts.depthAfter, hbegins, Bool.and_eq_false_iff,
            decide_eq_false_iff_not] at hcloses ⊢
          omega
        rw [hdepth, ← hrest] at hlater
        exact ih hnext hlater fun m g hm hlt hg => hquiet m g (by omega) hlt hg

end Proc

namespace Fold

/--
While a body is open, the stack stands above what was left open before by as much as the block depth
is, with the first `begin` of the body at its bottom. So the `end` that closes the body is that of
this `begin`.
-/
theorem run_of_closed {lines : List Line} {b next : Nat} {inner opened : List Nat} {depth n : Nat}
    (hone : ∀ line ∈ lines, (blockWords line).length ≤ 1) (hheight : inner.length + 1 = depth)
    (hinner : b ∉ inner) (hopened : b ∉ opened) (hb : b < n)
    (h : Proc.gist (Proc.readBody 0 depth n (lines.map Facts.ofLine)) = (.closed, next, [])) :
    (blockTracker.run (inner ++ b :: opened) n lines).filter (·.first = b) =
      (upTo? .region b (next - 1)).toList := by
  -- The depth is that of the reader of bodies, the height that of the stack. Both move with each line.
  induction lines generalizing inner depth n with
  | nil => cases h
  | cons line rest ih =>
    obtain ⟨hline, hrest⟩ := List.forall_mem_cons.1 hone
    have hstep : (blockTracker.run (inner ++ b :: opened) n (line :: rest)).filter (·.first = b) =
        (stepBlocks n (inner ++ b :: opened) (blockWords line)).2.filter (·.first = b) ++
          (blockTracker.run (stepBlocks n (inner ++ b :: opened) (blockWords line)).1 (n + 1)
            rest).filter (·.first = b) := by
      rw [Tracker.run, List.filter_append]
      rfl
    have hcases := Proc.gist_readBody_closed h
    simp only [Facts.closes, Facts.depthAfter, Bool.and_eq_false_iff, Bool.and_eq_true,
      decide_eq_false_iff_not, decide_eq_true_eq] at hcases
    rw [hstep]
    rcases blockWords_cases hline with ⟨hwords, hbegins, hends⟩ | ⟨hwords, hbegins, hends⟩ |
      ⟨hwords, hbegins, hends⟩
    · rw [hbegins, hends] at hcases
      rcases hcases with ⟨hcloses, -⟩ | ⟨-, hlater⟩
      · omega
      · rw [hwords]
        exact ih hrest hheight hinner (by omega) hlater
    · rw [hbegins, hends] at hcases
      rcases hcases with ⟨hcloses, -⟩ | ⟨-, hlater⟩
      · omega
      · have hpush : b ∉ n :: inner := by
          rw [List.mem_cons, not_or]
          exact ⟨Nat.ne_of_lt hb, hinner⟩
        have hheight' : (n :: inner).length + 1 = depth + 1 := by
          rw [List.length_cons, hheight]
        rw [hwords]
        exact ih hrest hheight' hpush (by omega) hlater
    · have hpop (first : Nat) (stack : List Nat) : stepBlocks n (first :: stack) [.blockEnd] =
          (stack, (upTo? .region first n).toList) := by
        simp [stepBlocks]
      rw [hbegins, hends] at hcases
      rw [hwords]
      cases inner with
      | nil =>
        rcases hcases with ⟨-, rfl⟩ | ⟨hopen, -⟩
        · have hafter := run_avoids (Nat.lt_succ_of_lt hb) hopened rest
          rw [List.nil_append, hpop, filter_upTo?_self, hafter, List.append_nil, Nat.add_sub_cancel]
        · rw [List.length_nil] at hheight
          omega
      | cons i inner =>
        rw [List.mem_cons, not_or] at hinner
        rw [List.length_cons] at hheight
        rcases hcases with ⟨hcloses, -⟩ | ⟨-, hlater⟩
        · omega
        · have hlower : inner.length + 1 = depth + 0 - 1 := by omega
          have hrun := ih hrest hlower hinner.2 (by omega) hlater
          rw [List.cons_append, hpop, filter_upTo?_ne (Ne.symm hinner.1), hrun, List.nil_append]

end Fold

/-- The first line with a `begin` between two lines, both of them included. -/
structure FirstBegin (lines : List Line) (low high b : Nat) : Prop where
  low_le : low ≤ b
  le_high : b ≤ high
  begins : ∃ line, lines[b]? = some line ∧ 0 < (Facts.ofLine line).begins
  none_before : ∀ m line, low ≤ m → m < b → lines[m]? = some line → (Facts.ofLine line).begins = 0

theorem Proc.subprocs_of_leaf {p : Proc} (hclosed : p.body.ending = .closed)
    (hleaf : p.tree.children = []) : p.subprocs = [] := by
  rw [children_tree, List.map_eq_nil_iff, below, hclosed] at hleaf
  have hentries : p.subprocs.map Subproc.item ++ p.mainItem?.toList = [] := hleaf
  exact List.map_eq_nil_iff.1 (List.append_eq_nil_iff.1 hentries).1

theorem Survey.gist_of_closed {lines : List Line} {p : Proc} (hp : p ∈ (ofLines lines).procs)
    (hclosed : p.body.ending = .closed) (hleaf : p.tree.children = []) :
    Proc.gist (Proc.readBody 0 0 p.start ((lines.map Facts.ofLine).drop p.start)) =
      (.closed, p.body.next, []) := by
  have hsubs : p.subprocs = [] := Proc.subprocs_of_leaf hclosed hleaf
  obtain ⟨f, rest, name, hn, -, hread⟩ := read_of_mem hp
  have hbody : p.body = (Proc.readBody 0 0 p.start (f :: rest)).1 := congrArg Proc.body hread
  have hfound : p.subprocs = (Proc.readBody 0 0 p.start (f :: rest)).2 :=
    congrArg Proc.subprocs hread
  rw [hn, Proc.gist, ← hbody, ← hfound, hclosed, hsubs, List.map_nil]

namespace Fold

/-- The first `begin` of a body gives the fold up to the line that closes the body, and no other. -/
theorem run_of_firstBegin {lines : List Line} {low high b : Nat} {opened : List Nat}
    (hone : ∀ line ∈ lines, (blockWords line).length ≤ 1) (hb : FirstBegin lines low high b)
    (hopened : b ∉ opened)
    (h : Proc.gist (Proc.readBody 0 0 low ((lines.map Facts.ofLine).drop low)) =
      (.closed, high + 1, [])) :
    (blockTracker.run opened b (lines.drop b)).filter (·.first = b) =
      (upTo? .region b high).toList := by
  obtain ⟨line, hline, hpos⟩ := hb.begins
  obtain ⟨k, hk⟩ := Nat.exists_eq_add_of_le hb.low_le
  obtain ⟨rest, hrest⟩ : ∃ rest, lines.drop b = line :: rest := by
    rw [← List.head?_drop] at hline
    exact List.head?_eq_some_iff.1 hline
  have hlater : Proc.gist (Proc.readBody 0 0 b ((lines.map Facts.ofLine).drop b)) =
      (.closed, high + 1, []) := by
    have hle := hb.le_high
    rw [hk] at hle ⊢
    refine Proc.gist_readBody_quiet (by omega) h fun m f hlow hlt hf => ?_
    rw [List.getElem?_map] at hf
    obtain ⟨before, hbefore, rfl⟩ := Option.map_eq_some_iff.1 hf
    exact hb.none_before m before hlow (by omega) hbefore
  have hmem : ∀ other ∈ line :: rest, (blockWords other).length ≤ 1 := by
    intro other hother
    rw [← hrest] at hother
    exact hone other (List.mem_of_mem_drop hother)
  obtain ⟨hsingle, hothers⟩ := List.forall_mem_cons.1 hmem
  rw [← List.map_drop, hrest, List.map_cons] at hlater
  have hcases := Proc.gist_readBody_closed hlater
  simp only [Facts.closes, Facts.depthAfter, Bool.and_eq_false_iff, Bool.and_eq_true,
    decide_eq_false_iff_not, decide_eq_true_eq] at hcases
  rcases blockWords_cases hsingle with ⟨-, hbegins, -⟩ | ⟨hwords, hbegins, hends⟩ | ⟨-, hbegins, -⟩
  · omega
  · rw [hbegins, hends] at hcases
    rcases hcases with ⟨hcloses, -⟩ | ⟨-, hinside⟩
    · omega
    · have hheight : ([] : List Nat).length + 1 = 0 + 1 - 0 := rfl
      have hrun := run_of_closed hothers hheight List.not_mem_nil hopened (Nat.lt_succ_self b) hinside
      rw [hrest, Tracker.run, List.filter_append]
      simp only [blockTracker, hwords, stepBlocks] at hrun ⊢
      exact hrun
  · omega

/--
Where no line has two block keywords, a proc without subprocs whose body is closed on a line, with a
`begin` on its lines, gives rise to one fold from the first of them up to that line, if it has more
than one line, and to no other fold that begins there.
-/
theorem blocks_of_closed {lines : List Line}
    (hone : ∀ line ∈ lines, (blockWords line).length ≤ 1) {p : Proc}
    (hp : p ∈ (Survey.ofLines lines).procs) (hleaf : p.tree.children = [])
    (hclosed : p.body.ending = .closed) {last : Nat} (hlast : p.body.next = last + 1) {b : Nat}
    (hb : FirstBegin lines p.start last b) :
    (blocks lines).filter (·.first = b) =
      if 1 < last - b then [⟨b, last - 1, .region⟩] else [] := by
  have hgist := Survey.gist_of_closed hp hclosed hleaf
  rw [hlast] at hgist
  obtain ⟨opened, hopened, hrun⟩ := exists_run_eq (Nat.zero_le b) List.not_mem_nil lines
  have hfold := run_of_firstBegin hone hb hopened hgist
  have hspan : b + 1 < last ↔ 1 < last - b := by omega
  rw [Nat.sub_zero] at hrun
  rw [blocks, hrun, hfold, upTo?]
  simp only [hspan]
  split <;> rfl

def leftovers : List Line :=
  ["end;", "begin", "proc a;", "int x;", "begin", "if x then begin", "end;", "x := 1;", "end;"].map
    String.toList

theorem blocks_of_closed_leftovers :
    (∀ line ∈ leftovers, (blockWords line).length ≤ 1) ∧
    (Survey.ofLines leftovers).procs = [.read "a" 2 ((leftovers.map Facts.ofLine).drop 2)] ∧
    (blocks leftovers).filter (·.first = 4) = [⟨4, 7, .region⟩] := by
  have hone : ∀ line ∈ leftovers, (blockWords line).length ≤ 1 := by decide +kernel
  have hprocs : (Survey.ofLines leftovers).procs =
      [.read "a" 2 ((leftovers.map Facts.ofLine).drop 2)] := by decide +kernel
  have hmem : Proc.read "a" 2 ((leftovers.map Facts.ofLine).drop 2) ∈
      (Survey.ofLines leftovers).procs := by
    rw [hprocs]
    exact List.mem_singleton_self _
  have hbody : (Proc.read "a" 2 ((leftovers.map Facts.ofLine).drop 2)).body.ending = .closed ∧
      (Proc.read "a" 2 ((leftovers.map Facts.ofLine).drop 2)).body.next = 8 + 1 ∧
      (Proc.read "a" 2 ((leftovers.map Facts.ofLine).drop 2)).below = [] := by decide +kernel
  have hleaf : (Proc.read "a" 2 ((leftovers.map Facts.ofLine).drop 2)).tree.children = [] := by
    rw [Proc.children_tree, hbody.2.2, List.map_nil]
  have hfirst : FirstBegin leftovers 2 8 4 := by
    refine ⟨by decide, by decide, ⟨"begin".toList, rfl, by decide +kernel⟩, ?_⟩
    intro m line hlow hlt hline
    have hm : m = 2 ∨ m = 3 := by omega
    rcases hm with rfl | rfl <;> obtain rfl := Option.some.inj hline <;> decide +kernel
  exact ⟨hone, hprocs, blocks_of_closed hone hmem hleaf hbody.1 hbody.2.1 hfirst⟩

end Fold

end TalOutline
