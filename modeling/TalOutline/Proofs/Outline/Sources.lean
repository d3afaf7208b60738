import TalOutline.Proofs.Outline.Locality

/-!
Sources that are written in order, with every block closed where it should be. Their outline is what
stands in the source: one entry for each proc and subproc, from its declaration to its closing line,
and one for what follows the last subproc of a proc.
-/
namespace TalOutline

namespace Facts

/-- A line with neither a block keyword nor a linkage. -/
structure Plain (f : Facts) : Prop where
  begins : f.begins = 0
  ends : f.ends = 0
  linkage : f.linkage = none

structure Opens (f : Facts) : Prop where
  begins : f.begins = 1
  ends : f.ends = 0
  linkage : f.linkage = none

structure Shuts (f : Facts) : Prop where
  begins : f.begins = 0
  ends : f.ends = 1

end Facts

/-- The `begin` keywords of the lines less the `end` keywords. -/
def balance : List Line → Int
  | [] => 0
  | line :: rest => (Facts.ofLine line).begins - (Facts.ofLine line).ends + balance rest

/-- From an opening line on, the balance stays above zero and comes back to one. -/
structure Enclosed (opening : Line) (inner : List Line) : Prop where
  positive : ∀ k ≤ inner.length, 1 ≤ balance (opening :: inner.take k)
  one : balance (opening :: inner) = 1

/-- The lines of a routine that stand around its body. -/
structure SourceFrame (routine : Routine) where
  name : List Char
  declaration : Line
  opening : Line
  closing : Line
  declares : (Facts.ofLine declaration).declares? routine = some name
  plain : (Facts.ofLine declaration).Plain
  opens : (Facts.ofLine opening).Opens
  shuts : (Facts.ofLine closing).Shuts

def SourceFrame.around {routine : Routine} (f : SourceFrame routine) (inner : List Line) :
    List Line :=
  f.declaration :: f.opening :: (inner ++ [f.closing])

/-- A subproc, whose body may hold any lines that keep its block open. -/
structure SourceSubproc extends SourceFrame .subproc where
  body : List Line
  enclosed : Enclosed opening body

namespace SourceSubproc

def lines (s : SourceSubproc) : List Line :=
  s.around s.body

def item (s : SourceSubproc) (n : Nat) : Item :=
  ⟨.ofList s.name, .subproc, none, n, n + s.body.length + 2⟩

end SourceSubproc

/-- A proc: lines of its own, and after them its subprocs, each with more lines of the proc. -/
structure SourceProc extends SourceFrame .proc where
  body : List Line
  parts : List (SourceSubproc × List Line)
  enclosed : Enclosed opening (body ++ parts.flatMap Prod.snd)
  noSubproc : ∀ line ∈ opening :: (body ++ parts.flatMap Prod.snd ++ [closing]),
    (Facts.ofLine line).declares? .subproc = none

namespace SourceProc

def partLines (parts : List (SourceSubproc × List Line)) : List Line :=
  parts.flatMap fun part => part.1.lines ++ part.2

def inner (p : SourceProc) : List Line :=
  p.body ++ partLines p.parts

def lines (p : SourceProc) : List Line :=
  p.around p.inner

def subitems (n : Nat) : List (SourceSubproc × List Line) → List Item
  | [] => []
  | (s, after) :: rest => s.item n :: subitems (n + s.lines.length + after.length) rest

def mainItems (name : List Char) (subs : List Item) (closing : Nat) : List Item :=
  match subs.getLast? with
  | none => []
  | some sub => [⟨"main: " ++ .ofList name, .main, none, sub.last + 1, closing⟩]

def tree (p : SourceProc) (n : Nat) : Tree Item :=
  let subs := subitems (n + p.body.length + 2) p.parts
  let closing := n + p.inner.length + 2
  .node ⟨.ofList p.name, .proc, none, n, closing⟩
    ((subs ++ mainItems p.name subs closing).map .leaf)

end SourceProc

/-- A module: procs between lines that declare none. -/
structure SourceModule where
  before : List Line
  procs : List (SourceProc × List Line)
  noProc : ∀ line ∈ before ++ procs.flatMap Prod.snd, (Facts.ofLine line).declares? .proc = none

namespace SourceModule

def procLines (procs : List (SourceProc × List Line)) : List Line :=
  procs.flatMap fun part => part.1.lines ++ part.2

def lines (m : SourceModule) : List Line :=
  m.before ++ procLines m.procs

/-- The entries of procs of which the first is declared on a line. -/
def treesFrom (n : Nat) : List (SourceProc × List Line) → List (Tree Item)
  | [] => []
  | (p, after) :: rest => p.tree n :: treesFrom (n + p.lines.length + after.length) rest

def trees (m : SourceModule) : List (Tree Item) :=
  treesFrom m.before.length m.procs

end SourceModule

/-! Reading a line that keeps a body open only moves on to the next line. -/

/-- Reading the lines takes the block depth from one to another and never down to zero. -/
def Facts.Runs : Nat → List Facts → Nat → Prop
  | depth, [], last => 0 < depth ∧ depth = last
  | depth, f :: rest, last => 0 < depth ∧ f.closes depth = false ∧ Runs (f.depthAfter depth) rest last

namespace Facts.Runs

theorem pos {depth last : Nat} {inner : List Facts} (h : Runs depth inner last) : 0 < depth := by
  cases inner with
  | nil => exact h.1
  | cons f rest => exact h.1

theorem of_balance {depth last : Nat} {inner : List Line}
    (hpos : ∀ k ≤ inner.length, 1 ≤ depth + balance (inner.take k))
    (hlast : (last : Int) = depth + balance inner) : Runs depth (inner.map Facts.ofLine) last := by
  induction inner generalizing depth with
  | nil =>
    have hdepth := hpos 0 (Nat.zero_le _)
    simp only [List.take_nil, balance] at hdepth hlast
    exact ⟨by omega, by omega⟩
  | cons line rest ih =>
    have hdepth := hpos 0 (Nat.zero_le _)
    have hline := hpos 1 (by simp)
    simp only [List.take_zero, List.take_succ_cons, balance] at hdepth hline hlast
    have hafter : (((Facts.ofLine line).depthAfter depth : Nat) : Int) =
        depth + ((Facts.ofLine line).begins - (Facts.ofLine line).ends) := by
      rw [Facts.depthAfter]
      omega
    refine ⟨by omega, ?_, ih ?_ ?_⟩
    · rw [Facts.closes, Bool.and_eq_false_iff, decide_eq_false_iff_not, decide_eq_false_iff_not]
      omega
    · intro k hk
      have hcons := hpos (k + 1) (by simpa using hk)
      rw [List.take_succ_cons, balance] at hcons
      omega
    · omega

theorem append {depth last : Nat} {first second : List Facts} (h : Runs depth (first ++ second) last) :
    ∃ mid, Runs depth first mid ∧ Runs mid second last := by
  induction first generalizing depth with
  | nil => exact ⟨depth, ⟨h.pos, rfl⟩, h⟩
  | cons f rest ih =>
    obtain ⟨hpos, hcloses, hrest⟩ := h
    obtain ⟨mid, hfirst, hsecond⟩ := ih hrest
    exact ⟨mid, ⟨hpos, hcloses, hfirst⟩, hsecond⟩

end Facts.Runs

/-- The facts of a line without what it declares, which is how the body of a subproc is read. -/
def Facts.undeclared (f : Facts) : Facts :=
  { f with declared := none }

theorem Body.read_eq_readBody (depth n : Nat) (lines : List Facts) :
    read depth n lines = (Proc.readBody 0 depth n (lines.map Facts.undeclared)).1 := by
  induction lines generalizing depth n with
  | nil => rfl
  | cons f rest ih =>
    have hlinkage : f.undeclared.linkageAt depth = f.linkageAt depth := rfl
    have hcloses : f.undeclared.closes depth = f.closes depth := rfl
    have hnone : f.undeclared.declares? .subproc = none := rfl
    rw [List.map_cons, read, Proc.readBody]
    simp only [hlinkage, hcloses, hnone]
    split
    · rfl
    · split
      · rfl
      · rw [ih]
        rfl

theorem Facts.Runs.undeclared {depth last : Nat} {inner : List Facts} (h : Runs depth inner last) :
    Runs depth (inner.map Facts.undeclared) last := by
  induction inner generalizing depth with
  | nil => exact h
  | cons f rest ih =>
    obtain ⟨hpos, hcloses, hrest⟩ := h
    exact ⟨hpos, hcloses, ih hrest⟩

namespace Proc

variable {depth last n : Nat} {f : Facts}

theorem gist_readBody_runs {inner : List Facts} (rest : List Facts) (h : Facts.Runs depth inner last)
    (hnone : ∀ f ∈ inner, f.declares? .subproc = none) :
    gist (readBody 0 depth n (inner ++ rest)) = gist (readBody 0 last (n + inner.length) rest) := by
  induction inner generalizing depth n with
  | nil =>
    obtain ⟨-, rfl⟩ := h
    rfl
  | cons f inner ih =>
    obtain ⟨hpos, hcloses, hinner⟩ := h
    have hlinkage : f.linkageAt depth = none := if_neg (Nat.ne_of_gt hpos)
    obtain ⟨hf, hlater⟩ := List.forall_mem_cons.1 hnone
    have hlength : n + (f :: inner).length = n + 1 + inner.length := by
      rw [List.length_cons]
      omega
    rw [List.cons_append, gist_readBody_pass _ hlinkage hf hcloses, ih hinner hlater, hlength]

/-- A declaration and the opening line after it begin a body. -/
theorem gist_readBody_opening {g : Facts} (rest : List Facts) (hplain : f.Plain) (hopens : g.Opens)
    (hf : f.declares? .subproc = none) (hg : g.declares? .subproc = none) :
    gist (readBody 0 0 n (f :: g :: rest)) = gist (readBody 0 1 (n + 2) rest) := by
  have hflinkage : f.linkageAt 0 = none := hplain.linkage
  have hglinkage : g.linkageAt 0 = none := hopens.linkage
  have hfcloses : f.closes 0 = false := by simp [Facts.closes, hplain.ends]
  have hfdepth : f.depthAfter 0 = 0 := by simp [Facts.depthAfter, hplain.begins]
  have hgcloses : g.closes 0 = false := by simp [Facts.closes, hopens.ends]
  have hgdepth : g.depthAfter 0 = 1 := by simp [Facts.depthAfter, hopens.begins, hopens.ends]
  rw [gist_readBody_pass _ hflinkage hf hfcloses, hfdepth,
    gist_readBody_pass _ hglinkage hg hgcloses, hgdepth]

theorem gist_readBody_closing (rest : List Facts) (hshuts : f.Shuts)
    (hnone : f.declares? .subproc = none) :
    gist (readBody 0 1 n (f :: rest)) = (.closed, n + 1, []) := by
  have hlinkage : f.linkageAt 1 = none := rfl
  have hcloses : f.closes 1 = true := by simp [Facts.closes, hshuts.begins, hshuts.ends]
  rw [readBody]
  simp only [hlinkage, hnone, hcloses]
  rfl

end Proc

theorem Enclosed.runs {opening : Line} {inner : List Line} (h : Enclosed opening inner)
    (hopens : (Facts.ofLine opening).Opens) : Facts.Runs 1 (inner.map Facts.ofLine) 1 := by
  refine Facts.Runs.of_balance ?_ ?_
  · intro k hk
    have hpos := h.positive k hk
    rw [balance, hopens.begins, hopens.ends] at hpos
    omega
  · have hone := h.one
    rw [balance, hopens.begins, hopens.ends] at hone
    omega

theorem SourceFrame.length_around {routine : Routine} (f : SourceFrame routine)
    (inner : List Line) : (f.around inner).length = inner.length + 3 := by
  simp [around]

namespace SourceSubproc

theorem length_lines (s : SourceSubproc) : s.lines.length = s.body.length + 3 :=
  s.length_around s.body

/-- The body of a subproc that is written in order is read up to its closing line. -/
theorem read_lines (s : SourceSubproc) (n : Nat) :
    (Body.read 0 n (s.lines.map Facts.ofLine)).ending = .closed ∧
      (Body.read 0 n (s.lines.map Facts.ofLine)).next = n + s.lines.length := by
  have hruns := (s.enclosed.runs s.opens).undeclared
  have hplain : (Facts.ofLine s.declaration).undeclared.Plain :=
    ⟨s.plain.begins, s.plain.ends, s.plain.linkage⟩
  have hopens : (Facts.ofLine s.opening).undeclared.Opens :=
    ⟨s.opens.begins, s.opens.ends, s.opens.linkage⟩
  have hshuts : (Facts.ofLine s.closing).undeclared.Shuts := ⟨s.shuts.begins, s.shuts.ends⟩
  have hnone : ∀ f ∈ (s.body.map Facts.ofLine).map Facts.undeclared,
      f.declares? .subproc = none := by
    intro f hf
    obtain ⟨g, -, rfl⟩ := List.mem_map.1 hf
    rfl
  have hgist : Proc.gist (Proc.readBody 0 0 n ((s.lines.map Facts.ofLine).map Facts.undeclared)) =
      (.closed, n + 2 + s.body.length + 1, []) := by
    have hlines : (s.lines.map Facts.ofLine).map Facts.undeclared =
        (Facts.ofLine s.declaration).undeclared :: (Facts.ofLine s.opening).undeclared ::
          ((s.body.map Facts.ofLine).map Facts.undeclared ++
            [(Facts.ofLine s.closing).undeclared]) := by
      simp [lines, SourceFrame.around]
    rw [hlines, Proc.gist_readBody_opening _ hplain hopens rfl rfl,
      Proc.gist_readBody_runs _ hruns hnone, Proc.gist_readBody_closing _ hshuts rfl,
      List.length_map, List.length_map]
  simp only [Proc.gist, Prod.mk.injEq] at hgist
  obtain ⟨hending, hnext, -⟩ := hgist
  rw [Body.read_eq_readBody]
  refine ⟨hending, ?_⟩
  rw [hnext, length_lines]
  omega

/-- Inside a proc the search finds a subproc and goes on after its closing line. -/
theorem gist_readBody (s : SourceSubproc) {depth : Nat} (hdepth : 0 < depth) (n : Nat)
    (rest : List Facts) :
    Proc.gist (Proc.readBody 0 depth n (s.lines.map Facts.ofLine ++ rest)) =
      let later := Proc.gist (Proc.readBody 0 depth (n + s.lines.length) rest)
      (later.1, later.2.1, s.item n :: later.2.2) := by
  obtain ⟨hending, hnext⟩ := s.read_lines n
  have hread : Body.read 0 n (s.lines.map Facts.ofLine ++ rest) =
      Body.read 0 n (s.lines.map Facts.ofLine) := by
    refine Body.read_append rest ?_
    rw [hending]
    nofun
  -- All but the declaration of the subproc is passed over.
  obtain ⟨more, hlines⟩ : ∃ more, s.lines.map Facts.ofLine = Facts.ofLine s.declaration :: more :=
    ⟨_, List.map_cons⟩
  have hlength : more.length + 1 = s.lines.length := by
    have hlen := congrArg List.length hlines
    rw [List.length_map, List.length_cons] at hlen
    exact hlen.symm
  have hskip : n + s.lines.length - (n + 1) = more.length := by omega
  have hafter : n + 1 + more.length = n + s.lines.length := by omega
  have hlinkage : (Facts.ofLine s.declaration).linkageAt depth = none :=
    if_neg (Nat.ne_of_gt hdepth)
  have hlater : Proc.readBody more.length depth (n + 1) (more ++ rest) =
      Proc.readBody 0 depth (n + s.lines.length) rest := by
    rw [Proc.readBody_skip _ _ _ _ (by simp), List.drop_left, hafter]
  have hitem : Subproc.item ⟨.ofList s.name, n, Body.read 0 n (s.lines.map Facts.ofLine)⟩ =
      s.item n := by
    have hlast : n + s.lines.length - 1 = n + s.body.length + 2 := by
      rw [length_lines]
      omega
    simp [Subproc.item, Subproc.detail, Subproc.last, item, hending, hnext, hlast]
  rw [hlines, List.cons_append] at hread
  rw [hlines, List.cons_append, Proc.readBody]
  simp only [hlinkage, s.declares, hread, ← hlines, hnext, hskip, hlater]
  rw [← hitem]
  rfl

end SourceSubproc

namespace SourceProc

variable {depth last : Nat}

theorem gist_readBody_parts (parts : List (SourceSubproc × List Line)) (n : Nat) (rest : List Facts)
    (h : Facts.Runs depth ((parts.flatMap Prod.snd).map Facts.ofLine) last)
    (hnone : ∀ line ∈ parts.flatMap Prod.snd, (Facts.ofLine line).declares? .subproc = none) :
    Proc.gist (Proc.readBody 0 depth n ((partLines parts).map Facts.ofLine ++ rest)) =
      let later := Proc.gist (Proc.readBody 0 last (n + (partLines parts).length) rest)
      (later.1, later.2.1, subitems n parts ++ later.2.2) := by
  induction parts generalizing depth n with
  | nil =>
    obtain ⟨-, rfl⟩ := h
    rfl
  | cons part parts ih =>
    obtain ⟨s, after⟩ := part
    rw [List.flatMap_cons, List.map_append] at h
    rw [List.flatMap_cons] at hnone
    obtain ⟨hafter, hlater⟩ := List.forall_mem_append.1 hnone
    obtain ⟨mid, hruns, hparts⟩ := h.append
    have hfacts : ∀ f ∈ after.map Facts.ofLine, f.declares? .subproc = none :=
      List.forall_mem_map.2 hafter
    have hlines : (partLines ((s, after) :: parts)).map Facts.ofLine ++ rest =
        s.lines.map Facts.ofLine ++
          (after.map Facts.ofLine ++ ((partLines parts).map Facts.ofLine ++ rest)) := by
      simp [partLines]
    have hlength : n + (partLines ((s, after) :: parts)).length =
        n + s.lines.length + after.length + (partLines parts).length := by
      simp only [partLines, List.flatMap_cons, List.length_append]
      omega
    rw [hlines, s.gist_readBody h.pos, Proc.gist_readBody_runs _ hruns hfacts, List.length_map,
      ih _ hparts hlater, hlength]
    rfl

/-- A proc that is written in order is read up to its closing line, with its subprocs. -/
theorem gist_readBody (p : SourceProc) (n : Nat) :
    Proc.gist (Proc.readBody 0 0 n (p.lines.map Facts.ofLine)) =
      (.closed, n + p.lines.length, subitems (n + p.body.length + 2) p.parts) := by
  have hdeclaration : (Facts.ofLine p.declaration).declares? .subproc = none :=
    Facts.declares?_subproc_of_proc p.declares
  obtain ⟨hopening, hrest⟩ := List.forall_mem_cons.1 p.noSubproc
  obtain ⟨hown, hclosing⟩ := List.forall_mem_append.1 hrest
  obtain ⟨hbody, hparts⟩ := List.forall_mem_append.1 hown
  have hfacts : ∀ f ∈ p.body.map Facts.ofLine, f.declares? .subproc = none :=
    List.forall_mem_map.2 hbody
  have hruns := p.enclosed.runs p.opens
  rw [List.map_append] at hruns
  obtain ⟨mid, hfirst, hsecond⟩ := hruns.append
  have hlines : p.lines.map Facts.ofLine =
      Facts.ofLine p.declaration :: Facts.ofLine p.opening :: (p.body.map Facts.ofLine ++
        ((partLines p.parts).map Facts.ofLine ++ [Facts.ofLine p.closing])) := by
    simp [lines, inner, SourceFrame.around]
  have hlength : n + 2 + p.body.length + (partLines p.parts).length + 1 = n + p.lines.length := by
    rw [lines, SourceFrame.length_around, inner, List.length_append]
    omega
  have hstart : n + 2 + p.body.length = n + p.body.length + 2 := by omega
  rw [hlines, Proc.gist_readBody_opening _ p.plain p.opens hdeclaration hopening,
    Proc.gist_readBody_runs _ hfirst hfacts, List.length_map,
    gist_readBody_parts p.parts _ _ hsecond hparts,
    Proc.gist_readBody_closing _ p.shuts (hclosing _ List.mem_cons_self), hlength]
  simp only [List.append_nil, hstart]

def found (p : SourceProc) (n : Nat) : Proc :=
  .read (.ofList p.name) n (p.lines.map Facts.ofLine)

theorem found_body (p : SourceProc) (n : Nat) :
    (p.found n).body.ending = .closed ∧ (p.found n).body.next = n + p.lines.length ∧
      (p.found n).subprocs.map Subproc.item = subitems (n + p.body.length + 2) p.parts := by
  have hgist := p.gist_readBody n
  simp only [Proc.gist, Prod.mk.injEq] at hgist
  exact hgist

/-- After the last subproc the closing line is left at least. -/
theorem last_lt_next (p : SourceProc) (n : Nat) {s : Subproc} (hs : s ∈ (p.found n).subprocs) :
    s.last + 1 < (p.found n).body.next := by
  have hended : (p.found n).body.ending ≠ .unfinished := by
    rw [(p.found_body n).1]
    nofun
  have horder := Proc.readBody_inOrder_of_ended 0 0 n (p.lines.map Facts.ofLine) (Nat.zero_le _)
    hended
  obtain ⟨-, hlt, hle⟩ := horder.bounds_of_mem hs
  have hlast := (Subproc.last_bounds hlt).2
  have hnext : s.body.next ≤ (p.found n).body.next - 1 := hle
  omega

theorem mainItem?_found (p : SourceProc) (n : Nat) :
    (p.found n).mainItem?.toList =
      mainItems p.name (subitems (n + p.body.length + 2) p.parts) ((p.found n).body.next - 1) := by
  obtain ⟨-, -, hsubs⟩ := p.found_body n
  rw [Proc.mainItem?, mainItems, ← hsubs, List.getLast?_map]
  cases hlast : (p.found n).subprocs.getLast? with
  | none => rfl
  | some s =>
    have hlt := p.last_lt_next n (List.mem_of_getLast? hlast)
    simp only [hlt, if_true]
    rfl

theorem tree_found (p : SourceProc) (n : Nat) : (p.found n).tree = p.tree n := by
  obtain ⟨hending, hnext, hsubs⟩ := p.found_body n
  have hclosing : n + p.lines.length - 1 = n + p.inner.length + 2 := by
    rw [lines, SourceFrame.length_around]
    omega
  have hmain := p.mainItem?_found n
  rw [hnext, hclosing] at hmain
  simp only [Proc.tree, hending, hnext, hsubs, hmain, hclosing]
  rfl

/-- In the lines of a source proc alone that proc is found, and nothing else. -/
theorem procs_readFrom (p : SourceProc) (n : Nat) :
    (Survey.readFrom 0 n (p.lines.map Facts.ofLine)).procs = [p.found n] := by
  obtain ⟨more, hlines⟩ : ∃ more, p.lines.map Facts.ofLine = Facts.ofLine p.declaration :: more :=
    ⟨_, List.map_cons⟩
  have hlength : more.length + 1 = p.lines.length := by
    have hlen := congrArg List.length hlines
    rw [List.length_map, List.length_cons] at hlen
    exact hlen.symm
  obtain ⟨-, hnext, -⟩ := p.found_body n
  rw [found, hlines] at hnext
  have hskip : n + p.lines.length - (n + 1) = more.length := by omega
  rw [found, hlines, Survey.readFrom]
  simp only [p.declares, hnext, hskip]
  rw [Survey.readFrom_skip _ _ _ (Nat.le_refl _), List.drop_length]
  rfl

end SourceProc

theorem Outline.label_mem_nodes {lines : List Line} {t : Tree Symbol} (ht : t ∈ symbols lines) :
    (0, t.label) ∈ nodes lines := by
  rw [nodes, Tree.preorderForest_eq, List.mem_flatMap]
  refine ⟨t, ht, ?_⟩
  rw [Tree.preorder_eq]
  exact List.mem_cons_self

namespace SourceModule

theorem procs_readFrom (procs : List (SourceProc × List Line)) (n : Nat)
    (hnone : ∀ line ∈ procs.flatMap Prod.snd, (Facts.ofLine line).declares? .proc = none) :
    (Survey.readFrom 0 n ((procLines procs).map Facts.ofLine)).procs.map Proc.tree =
      treesFrom n procs := by
  induction procs generalizing n with
  | nil => rfl
  | cons part procs ih =>
    obtain ⟨p, after⟩ := part
    rw [List.flatMap_cons] at hnone
    obtain ⟨hafter, hlater⟩ := List.forall_mem_append.1 hnone
    have hgap (n : Nat) : (Survey.readFrom 0 n (after.map Facts.ofLine)).procs = [] :=
      (Survey.procs_readFrom_eq_nil_iff n _).2 (List.forall_mem_map.2 hafter)
    have hproc : ∀ q ∈ (Survey.readFrom 0 n (p.lines.map Facts.ofLine)).procs,
        q.body.ending ≠ .unfinished := by
      intro q hq
      rw [p.procs_readFrom, List.mem_singleton] at hq
      rw [hq, (p.found_body n).1]
      nofun
    have hlines : (procLines ((p, after) :: procs)).map Facts.ofLine =
        p.lines.map Facts.ofLine ++ (after.map Facts.ofLine ++ (procLines procs).map Facts.ofLine) := by
      simp [procLines]
    rw [hlines, Survey.readFrom_append _ (Nat.zero_le _) hproc,
      Survey.readFrom_append _ (Nat.zero_le _) (by simp [hgap])]
    simp only [Survey.append, p.procs_readFrom, hgap, List.nil_append, List.length_map, List.map_append,
      List.map_cons, List.map_nil, p.tree_found, ih _ hlater]
    rfl

theorem procs_ofLines (m : SourceModule) :
    (Survey.ofLines m.lines).procs.map Proc.tree = m.trees := by
  obtain ⟨hbefore, hprocs⟩ := List.forall_mem_append.1 m.noProc
  have hgap : (Survey.readFrom 0 0 (m.before.map Facts.ofLine)).procs = [] :=
    (Survey.procs_readFrom_eq_nil_iff 0 _).2 (List.forall_mem_map.2 hbefore)
  rw [Survey.ofLines, lines, List.map_append,
    Survey.readFrom_append _ (Nat.zero_le _) (by simp [hgap])]
  simp only [Survey.append, hgap, List.nil_append, List.length_map, Nat.zero_add]
  exact procs_readFrom m.procs m.before.length hprocs

theorem kind_of_mem_treesFrom {n : Nat} {procs : List (SourceProc × List Line)} {t : Tree Item}
    (ht : t ∈ treesFrom n procs) : t.label.kind = .proc := by
  induction procs generalizing n with
  | nil => cases ht
  | cons part procs ih =>
    rcases List.mem_cons.1 ht with rfl | ht
    · rfl
    · exact ih ht

/--
The outline of a module that is written in order has exactly the procs of the module, with their
subprocs and main parts as written, and consists of them if there are any.
-/
theorem symbols_lines (m : SourceModule) :
    (Outline.symbols m.lines).filter (·.label.kind = .proc) =
      m.trees.map (Tree.map (Item.measure m.lines)) ∧
    (m.procs ≠ [] → Outline.symbols m.lines = m.trees.map (Tree.map (Item.measure m.lines))) := by
  have hsymbols (hprocs : m.procs ≠ []) :
      Outline.symbols m.lines = m.trees.map (Tree.map (Item.measure m.lines)) := by
    have hfound : (Survey.ofLines m.lines).procs ≠ [] := by
      intro hnil
      have htrees := m.procs_ofLines
      rw [hnil, List.map_nil, trees] at htrees
      obtain ⟨part, rest, hcons⟩ := List.exists_cons_of_ne_nil hprocs
      rw [hcons] at htrees
      cases htrees
    rw [Outline.symbols, Outline.items_of_procs hfound, m.procs_ofLines, Tree.mapForest_eq]
  refine ⟨?_, hsymbols⟩
  by_cases hprocs : m.procs = []
  · have htrees : m.trees = [] := by rw [trees, hprocs, treesFrom]
    have hnil : (Survey.ofLines m.lines).procs = [] := by
      rw [← List.map_eq_nil_iff (f := Proc.tree), m.procs_ofLines, htrees]
    rw [htrees, List.map_nil, List.filter_eq_nil_iff]
    intro t ht
    have hkind : t.label.kind = .sect ∨ t.label.kind = .page :=
      Outline.kind_of_no_procs hnil (Outline.label_mem_nodes ht)
    rcases hkind with hkind | hkind <;> simp [hkind]
  · rw [hsymbols hprocs, List.filter_eq_self]
    intro t ht
    obtain ⟨u, hu, rfl⟩ := List.mem_map.1 ht
    rw [Tree.label_map, decide_eq_true_eq]
    exact kind_of_mem_treesFrom hu

def sampleSubproc : SourceSubproc where
  name := ['b']
  declaration := "int subproc b;".toList
  opening := "begin".toList
  body := ["if x then begin", "return 1; end;"].map String.toList
  closing := "end;".toList
  declares := by decide +kernel
  plain := ⟨by decide +kernel, by decide +kernel, by decide +kernel⟩
  opens := ⟨by decide +kernel, by decide +kernel, by decide +kernel⟩
  shuts := ⟨by decide +kernel, by decide +kernel⟩
  enclosed := ⟨by decide +kernel, by decide +kernel⟩

def sampleProc : SourceProc where
  name := ['a']
  declaration := "proc a;".toList
  opening := "begin".toList
  body := ["int x;".toList]
  parts := [(sampleSubproc, ["call b; ! end".toList])]
  closing := "end;".toList
  declares := by decide +kernel
  plain := ⟨by decide +kernel, by decide +kernel, by decide +kernel⟩
  opens := ⟨by decide +kernel, by decide +kernel, by decide +kernel⟩
  shuts := ⟨by decide +kernel, by decide +kernel⟩
  enclosed := ⟨by decide +kernel, by decide +kernel⟩
  noSubproc := by decide +kernel

def sample : SourceModule where
  before := ["?page \"a\"".toList]
  procs := [(sampleProc, ["end".toList])]
  noProc := by decide +kernel

theorem symbols_lines_sample :
    sample.procs ≠ [] ∧
    Tree.preorderForest 0 sample.trees =
      [(0, ⟨"a", .proc, none, 1, 10⟩), (1, ⟨"b", .subproc, none, 4, 8⟩),
        (1, ⟨"main: a", .main, none, 9, 10⟩)] ∧
    Outline.symbols sample.lines = sample.trees.map (Tree.map (Item.measure sample.lines)) := by
  have hprocs : sample.procs ≠ [] := List.cons_ne_nil _ _
  have htrees : Tree.preorderForest 0 sample.trees =
      [(0, ⟨"a", .proc, none, 1, 10⟩), (1, ⟨"b", .subproc, none, 4, 8⟩),
        (1, ⟨"main: a", .main, none, 9, 10⟩)] := by decide +kernel
  exact ⟨hprocs, htrees, (symbols_lines sample).2 hprocs⟩

end SourceModule

end TalOutline
