import TalOutline.Proofs.Outline.Nodes
import TalOutline.Proofs.Outline.OwnLines

/-!
No declaration is lost or counted twice. The search moves on with every step and takes the lines of one
proc after those of the other, and a line that no proc takes declares none. The same holds of the
subprocs in the body of a proc.
-/
namespace TalOutline

namespace Proc

theorem lt_next_readBody (depth n : Nat) (f : Facts) (rest : List Facts) :
    n < (readBody 0 depth n (f :: rest)).1.next := by
  rw [readBody]
  split
  · exact Nat.lt_succ_self n
  · split
    · have hlt := Body.lt_next_read 0 n f rest
      have hle := Body.next_read_le 0 n (f :: rest)
      rw [List.length_cons] at hle
      have hlater := (readBody_inOrder ((Body.read 0 n (f :: rest)).next - (n + 1)) depth (n + 1)
        rest (by omega)).le
      simp only [Body.next_visit]
      omega
    · split
      · exact Nat.lt_succ_self n
      · have hlater := (readBody_inOrder 0 (f.depthAfter depth) (n + 1) rest (Nat.zero_le _)).le
        simp only [Body.next_visit]
        omega

/-- A line of a body that no subproc takes declares none, unless it tells that there is no body. -/
theorem declares?_of_outside {doc lines : List Facts} {skip depth n m : Nat} {f : Facts}
    (hdoc : doc.drop n = lines) (hskip : skip ≤ lines.length)
    (hbody : ∀ linkage, (readBody skip depth n lines).1.ending ≠ .bodyless linkage)
    (hlow : n + skip ≤ m) (hhigh : m < (readBody skip depth n lines).1.next)
    (hout : ∀ s ∈ (readBody skip depth n lines).2, ¬ (s.start ≤ m ∧ m < s.body.next))
    (hf : doc[m]? = some f) : f.declares? .subproc = none := by
  induction lines generalizing skip depth n with
  | nil =>
    have hle := next_readBody_le skip depth n []
    rw [List.length_nil] at hle
    omega
  | cons g rest ih =>
    have hrest : doc.drop (n + 1) = rest := drop_succ_of_drop hdoc
    have hhead : doc[n]? = some g := getElem?_of_drop hdoc
    cases skip with
    | succ k =>
      rw [readBody] at hbody hhigh hout
      exact ih hrest (by simpa using hskip) hbody (by omega) hhigh hout
    | zero =>
      revert hbody hhigh hout
      rw [readBody]
      split
      · next linkage _ => exact fun hbody => absurd rfl (hbody linkage)
      · split
        · -- The line lies behind the subproc that is declared here, since it is not in it.
          intro hbody hhigh hout
          obtain ⟨hself, hlater⟩ := List.forall_mem_cons.1 hout
          have hlt := Body.lt_next_read 0 n g rest
          have hle := Body.next_read_le 0 n (g :: rest)
          rw [List.length_cons] at hle
          dsimp only at hself hbody hhigh hlater
          exact ih hrest (by omega) hbody (by omega) hhigh hlater
        · next hnone =>
          by_cases hm : m = n
          · have hfg : g = f := by
              rw [hm, hhead] at hf
              exact Option.some.inj hf
            rw [← hfg]
            exact fun _ _ _ => hnone
          · split
            · intro _ hhigh _
              rw [Body.next_stop] at hhigh
              omega
            · intro hbody hhigh hout
              exact ih hrest (Nat.zero_le _) hbody (by omega) hhigh hout

theorem label_tree (p : Proc) : p.tree.label.name = p.name ∧ p.tree.label.first = p.start := by
  unfold tree
  split <;> exact ⟨rfl, rfl⟩

theorem ending_of_detail {p : Proc} (h : p.tree.label.detail = none) (linkage : Linkage) :
    p.body.ending ≠ .bodyless linkage := by
  intro he
  simp only [tree, he] at h
  cases h

theorem kind_of_mem_below {p : Proc} {item : Item} (h : item ∈ p.below) : item.kind ≠ .proc := by
  rcases mem_entries.1 (mem_entries_of_below h) with ⟨s, -, rfl⟩ | hmain
  · simp [Subproc.item]
  · obtain ⟨s, -, -, rfl⟩ := mainItem?_eq_some_iff.1 hmain
    simp

end Proc

/-- Only a linkage that comes before the first block keyword keeps the declaration of a subproc. -/
theorem OwnLine.linkage_of_declares {begun : Bool} {skip n : Nat} {lines : List Facts} {l : OwnLine}
    (hl : l ∈ afterProc begun skip n lines) (hd : l.facts.declares? .subproc ≠ none) :
    begun = false ∧ l.facts.linkage ≠ none ∧
      ∀ m ∈ afterProc begun skip n lines, m.line < l.line → m.facts.hasBlock = false := by
  induction lines generalizing begun skip n with
  | nil => cases skip <;> cases hl
  | cons f rest ih =>
    cases skip with
    | succ k => exact ih hl
    | zero =>
      rw [afterProc] at hl ⊢
      split at hl
      · next htaken =>
        simp only [htaken, if_true]
        exact ih hl
      · next htaken =>
        simp only [htaken]
        rcases List.mem_cons.1 hl with rfl | hl
        · simp only [ne_eq, Bool.and_eq_true, Bool.or_eq_true, Option.isSome_iff_ne_none,
            Option.isNone_iff_eq_none, not_and, not_or] at htaken
          obtain ⟨hbegun, hlinkage⟩ := htaken hd
          refine ⟨Bool.eq_false_iff.2 hbegun, hlinkage, ?_⟩
          intro m hm hlt
          rcases List.mem_cons.1 hm with rfl | hm
          · exact absurd hlt (Nat.lt_irrefl _)
          · have hle := line_afterProc hm
            dsimp only at hlt
            omega
        · obtain ⟨hbegun, hlinkage, hquiet⟩ := ih hl
          obtain ⟨hbegun, hblock⟩ := Bool.or_eq_false_iff.1 hbegun
          refine ⟨hbegun, hlinkage, ?_⟩
          intro m hm hlt
          rcases List.mem_cons.1 hm with rfl | hm
          · exact hblock
          · exact hquiet m hm hlt

/-- The own lines of a proc that has a body declare no subproc after the first of them. -/
theorem OwnLine.declares?_of_own {lines : List Line} {n : Nat} {f : Facts} {rest : List Facts}
    (hn : (lines.map Facts.ofLine).drop n = f :: rest) (hf : f.declares? .subproc = none)
    {name : String} (hbody : (Proc.read name n (f :: rest)).tree.label.detail = none)
    {l : OwnLine} (hl : l ∈ ofProc n (f :: rest)) : l.facts.declares? .subproc = none := by
  rcases List.mem_cons.1 hl with rfl | hafter
  · exact hf
  · refine Classical.byContradiction fun hd => ?_
    obtain ⟨hbegun, hlinkage, hquiet⟩ := linkage_of_declares hafter hd
    have hsorted : (ofProc n (f :: rest)).Pairwise (·.line < ·.line) := ofProc_pairwise n (f :: rest)
    -- The first linkage then comes before any block keyword, so there would be no body.
    obtain ⟨k, hk⟩ := exists_first (P := fun l => l.facts.linkage ≠ none) hsorted hl hlinkage
    have hends : EndsBodyless (ofProc n (f :: rest)) k := by
      refine ⟨hk, fun m hm => ?_⟩
      have hkl : k.line ≤ l.line := hk.least l hl hlinkage
      have hlm : l.line ≤ m.line := by
        refine Nat.le_of_not_lt fun hlt => ?_
        have hblock : m.facts.hasBlock = false := by
          rcases List.mem_cons.1 hm.mem with rfl | hm'
          · exact hbegun
          · exact hquiet m hm' hlt
        exact absurd hm.holds (Bool.eq_false_iff.1 hblock)
      exact Nat.le_trans hkl hlm
    have hsettles := settles_proc hn hf name
    have hdetail := hsettles.bodyless_iff.2 ⟨k, hends⟩
    rw [Tree.label_map] at hdetail
    exact hdetail hbody

namespace Survey

/-- From a line the search goes on at a later one of the document, as reading a routine does. -/
structure Advances (doc : List Facts) (n : Nat) : Prop where
  proc : ∀ name, n < (Proc.read name n (doc.drop n)).body.next ∧
    (Proc.read name n (doc.drop n)).body.next ≤ doc.length
  subproc : n < (Body.read 0 n (doc.drop n)).next ∧ (Body.read 0 n (doc.drop n)).next ≤ doc.length
  other : ∀ f, doc[n]? = some f → f.declares? .proc = none →
    procsFrom doc n = procsFrom doc (n + 1)
  found : ∀ f name, doc[n]? = some f → f.declares? .proc = some name →
    procsFrom doc n = Proc.read (.ofList name) n (doc.drop n) ::
      procsFrom doc (Proc.read (.ofList name) n (doc.drop n)).body.next

/-- Every declaration of a proc is found once, or lies in the lines of a proc that is found. -/
structure Exhaustive (lines : List Line) (procs : List Proc) : Prop where
  inOrder : InOrder Proc.start (·.body.next) 0 lines.length procs
  entries : ((Outline.nodes lines).map Prod.snd).filter (·.kind = .proc) =
    procs.map fun p => p.tree.label.measure lines
  declared : ∀ p ∈ procs, ∃ line name, lines[p.start]? = some line ∧
    (Facts.ofLine line).declares? .proc = some name ∧
    p = Proc.read (.ofList name) p.start ((lines.map Facts.ofLine).drop p.start) ∧
    (p.tree.label.measure lines).name = .ofList name ∧
    (p.tree.label.measure lines).range.start.line = p.start
  outside : ∀ n line, lines[n]? = some line →
    (∀ p ∈ procs, ¬ (p.start ≤ n ∧ n < p.body.next)) →
    (Facts.ofLine line).declares? .proc = none

end Survey

/-- Every declaration of a subproc in a proc is found once, or lies in the lines of one found. -/
structure Proc.Exhaustive (lines : List Line) (p : Proc) : Prop where
  inOrder : InOrder Subproc.start (·.body.next) (p.start + 1) p.body.next p.subprocs
  entries : ((p.tree.map (Item.measure lines)).children.map Tree.label).filter (·.kind = .subproc) =
    p.subprocs.map fun s => s.item.measure lines
  declared : ∀ s ∈ p.subprocs, ∃ line name, lines[s.start]? = some line ∧
    (Facts.ofLine line).declares? .subproc = some name ∧
    s = ⟨.ofList name, s.start, .read 0 s.start ((lines.map Facts.ofLine).drop s.start)⟩
  outside : ∀ n line, lines[n]? = some line → p.start < n → n < p.body.next →
    (∀ s ∈ p.subprocs, ¬ (s.start ≤ n ∧ n < s.body.next)) →
    (Facts.ofLine line).declares? .subproc = none
  own : ∀ l ∈ OwnLine.ofProc p.start ((lines.map Facts.ofLine).drop p.start), p.start < l.line →
    l.facts.declares? .subproc = none

namespace Survey

variable {lines : List Line}

private theorem exists_line_of_drop {n : Nat} {f : Facts} {rest : List Facts}
    (h : (lines.map Facts.ofLine).drop n = f :: rest) :
    ∃ line, lines[n]? = some line ∧ Facts.ofLine line = f := by
  have hget : (lines.map Facts.ofLine)[n]? = some f := getElem?_of_drop h
  rw [List.getElem?_map] at hget
  exact Option.map_eq_some_iff.1 hget

theorem advances {doc : List Facts} {n : Nat} (h : n < doc.length) : Advances doc n := by
  have hpos : 0 < (doc.drop n).length := by
    rw [List.length_drop]
    omega
  obtain ⟨f, rest, hdoc⟩ := List.exists_cons_of_length_pos hpos
  have hlength : n + (f :: rest).length = doc.length := by
    have hlen := congrArg List.length hdoc
    rw [List.length_drop] at hlen
    omega
  have hhead {g : Facts} (hg : doc[n]? = some g) : g = f := by
    rw [getElem?_of_drop hdoc] at hg
    exact (Option.some.inj hg).symm
  constructor
  · intro name
    have hle := Proc.next_read_le name n (f :: rest)
    rw [hdoc]
    exact ⟨Proc.lt_next_readBody 0 n f rest, by omega⟩
  · have hle := Body.next_read_le 0 n (f :: rest)
    rw [hdoc]
    exact ⟨Body.lt_next_read 0 n f rest, by omega⟩
  · intro g hg hnone
    rw [hhead hg] at hnone
    exact procsFrom_other hdoc hnone
  · intro g name hg hname
    rw [hhead hg] at hname
    rw [hdoc]
    exact procsFrom_proc hdoc hname

theorem declares?_of_outside {doc : List Facts} (n : Nat) {m : Nat} {f : Facts}
    (hlow : n ≤ m) (hf : doc[m]? = some f)
    (hout : ∀ p ∈ procsFrom doc n, ¬ (p.start ≤ m ∧ m < p.body.next)) :
    f.declares? .proc = none := by
  revert hlow hout
  refine procsFrom_induction doc (motive := fun n found => n ≤ m →
    (∀ p ∈ found, ¬ (p.start ≤ m ∧ m < p.body.next)) → f.declares? .proc = none) ?_ ?_ ?_ n
  · intro n hn hlow _
    rw [List.getElem?_eq_none (by omega)] at hf
    cases hf
  · intro n g rest hn hnone _ ih hlow hout
    by_cases hm : m = n
    · rw [hm, getElem?_of_drop hn, Option.some.injEq] at hf
      rw [← hf]
      exact hnone
    · exact ih (by omega) hout
  · intro n g rest name _ _ p hp _ _ ih hlow hout
    obtain ⟨hself, hlater⟩ := List.forall_mem_cons.1 hout
    have hstart : p.start = n := by rw [hp, Proc.read]
    rw [hstart] at hself
    exact ih (by omega) hlater

/-- Of the entries at all depths, those of procs are the procs found, in their order. -/
theorem filter_nodes (lines : List Line) :
    ((Outline.nodes lines).map Prod.snd).filter (·.kind = .proc) =
      (ofLines lines).procs.map fun p => p.tree.label.measure lines := by
  by_cases hprocs : (ofLines lines).procs = []
  · rw [hprocs, List.map_nil, List.filter_eq_nil_iff]
    intro s hs
    obtain ⟨e, he, rfl⟩ := List.mem_map.1 hs
    rcases Outline.kind_of_no_procs hprocs he with hkind | hkind <;> simp [hkind]
  · have hbelow (p : Proc) : ((p.below.map (Item.measure lines)).filter (·.kind = .proc)) = [] := by
      rw [List.filter_eq_nil_iff]
      intro s hs
      obtain ⟨item, hitem, rfl⟩ := List.mem_map.1 hs
      have hkind := Proc.kind_of_mem_below hitem
      simp [Item.measure, hkind]
    have hproc (p : Proc) : (((p.tree.preorder 0).map Prod.snd).map (Item.measure lines)).filter
        (·.kind = .proc) = [p.tree.label.measure lines] := by
      have hkind : (p.tree.label.measure lines).kind = .proc := p.kind_tree
      rw [Tree.preorder_eq, Proc.children_tree, Tree.preorderForest_leaves, List.map_cons,
        List.map_cons, List.map_map, List.filter_cons, hkind]
      simp only [decide_true, if_true]
      exact congrArg _ (by simpa [Function.comp_def] using hbelow p)
    have hnodes : (Outline.nodes lines).map Prod.snd =
        ((Tree.preorderForest 0 (Outline.items lines)).map Prod.snd).map (Item.measure lines) := by
      rw [Outline.nodes_eq, List.map_map, List.map_map]
      rfl
    rw [hnodes, Outline.items_of_procs hprocs, Tree.preorderForest_eq, List.flatMap_map,
      List.map_flatMap, List.map_flatMap, List.filter_flatMap, List.map_eq_flatMap]
    simp only [hproc]

theorem ofLines_exhaustive (lines : List Line) : Exhaustive lines (ofLines lines).procs where
  inOrder := ofLines_inOrder lines
  entries := filter_nodes lines
  declared := by
    intro p hp
    obtain ⟨f, rest, name, hn, hf, hread⟩ := read_of_mem hp
    obtain ⟨line, hline, rfl⟩ := exists_line_of_drop hn
    obtain ⟨hname, hfirst⟩ := p.label_tree
    refine ⟨line, name, hline, hf, ?_, ?_, hfirst⟩
    · rw [hn]
      exact hread
    · rw [Item.measure, hname, hread, Proc.read]
  outside := by
    intro n line hline hout
    have hf : (lines.map Facts.ofLine)[n]? = some (Facts.ofLine line) := by simp [hline]
    exact declares?_of_outside 0 (Nat.zero_le n) hf hout

theorem exhaustive_of_mem {p : Proc} (hp : p ∈ (ofLines lines).procs)
    (hbody : p.tree.label.detail = none) : p.Exhaustive lines := by
  obtain ⟨f, rest, name, hn, hf, hread⟩ := read_of_mem hp
  have hnone : f.declares? .subproc = none := Facts.declares?_subproc_of_proc hf
  constructor
  · exact subprocs_inOrder hp
  · rw [Proc.label_children_tree lines hbody, Proc.filter_entries]
  · intro s hs
    rw [hread] at hs
    obtain ⟨g, more, subname, hg, hsub, hs⟩ := Proc.subproc_of_readBody hn hs
    obtain ⟨line, hline, rfl⟩ := exists_line_of_drop hg
    refine ⟨line, subname, hline, hsub, ?_⟩
    rw [hg]
    exact hs
  · intro n line hline hlow hhigh hout
    have hget : (lines.map Facts.ofLine)[n]? = some (Facts.ofLine line) := by simp [hline]
    have hending := Proc.ending_of_detail hbody
    rw [hread] at hhigh hout hending
    exact Proc.declares?_of_outside hn (Nat.zero_le _) hending (Nat.le_of_lt hlow) hhigh hout hget
  · intro l hl _
    rw [hn] at hl
    rw [hread] at hbody
    exact OwnLine.declares?_of_own hn hnone hbody hl

theorem exists_proc_iff :
    (∃ e ∈ Outline.nodes lines, e.2.kind = .proc) ↔ (ofLines lines).procs ≠ [] := by
  constructor
  · rintro ⟨e, he, hkind⟩ hprocs
    rcases Outline.kind_of_no_procs hprocs he with h | h <;> simp [h] at hkind
  · intro hprocs
    obtain ⟨p, hp⟩ := List.exists_mem_of_ne_nil _ hprocs
    have hmem : (0, p.tree.label.measure lines) ∈ Outline.nodes lines :=
      (Outline.mem_nodes_of_procs hprocs).2 ⟨p, hp, .inl rfl⟩
    exact ⟨_, hmem, p.kind_tree⟩

/--
The search moves on with every step. Each declaration of a proc is found once or lies in the lines of
a proc that is found, as does each declaration of a subproc in a proc with a body, and the outline
has a proc exactly if a line declares one.
-/
theorem declarations_found (lines : List Line) :
    (∀ n < lines.length, Advances (lines.map Facts.ofLine) n) ∧
    Exhaustive lines (ofLines lines).procs ∧
    (∀ p ∈ (ofLines lines).procs, p.tree.label.detail = none → p.Exhaustive lines) ∧
    ((∃ e ∈ Outline.nodes lines, e.2.kind = .proc) ↔
      ∃ line ∈ lines, (Facts.ofLine line).declares? .proc ≠ none) := by
  refine ⟨fun n hn => ?_, ofLines_exhaustive lines, fun p hp hbody => exhaustive_of_mem hp hbody, ?_⟩
  · apply advances
    rw [List.length_map]
    exact hn
  · rw [exists_proc_iff, ne_eq, procs_eq_nil_iff]
    simp

def nested : List Line :=
  ["int x;", "proc a;", "begin", "subproc b;", "begin", "end;", "end;"].map String.toList

theorem declarations_found_nested :
    ((ofLines nested).procs.map fun p =>
      (p.start, p.body.next, p.subprocs.map fun s => (s.start, s.body.next))) = [(1, 7, [(3, 6)])] ∧
    Exhaustive nested (ofLines nested).procs ∧
    ∀ p ∈ (ofLines nested).procs, p.Exhaustive nested := by
  have hspans : ((ofLines nested).procs.map fun p =>
      (p.start, p.body.next, p.subprocs.map fun s => (s.start, s.body.next))) =
      [(1, 7, [(3, 6)])] := by decide +kernel
  have hbody : ∀ p ∈ (ofLines nested).procs, p.tree.label.detail = none := by decide +kernel
  obtain ⟨-, hprocs, hsubprocs, -⟩ := declarations_found nested
  exact ⟨hspans, hprocs, fun p hp => hsubprocs p hp (hbody p hp)⟩

end Survey

end TalOutline
