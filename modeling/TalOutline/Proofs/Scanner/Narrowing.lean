import TalOutline.Proofs.Outline.Wellformed
import TalOutline.Proofs.Scanner.Requests
import TalOutline.Proofs.Tree.Descent

/-!
Narrowing to the entry around a line. The descent never turns back, and still it ends at the deepest
entry around the line, since entries lie inside those above them and apart from those beside them.
-/
namespace TalOutline

namespace Symbol

/-- The lines of an entry are among those of another. -/
def Within (s t : Symbol) : Prop :=
  t.range.start.line ≤ s.range.start.line ∧ s.range.stop.line ≤ t.range.stop.line

def Before (s t : Symbol) : Prop :=
  s.range.stop.line < t.range.start.line

theorem narrows_containsLine (line : Nat) :
    Tree.Narrows Within Before (·.range.containsLine line) where
  trans := by
    intro a b c hab hbc
    exact ⟨Nat.le_trans hbc.1 hab.1, Nat.le_trans hab.2 hbc.2⟩
  up := by
    intro a b hab ha
    obtain ⟨hstart, hstop⟩ := hab
    simp only [Range.containsLine, Bool.and_eq_true, decide_eq_true_eq] at ha ⊢
    omega
  single := by
    intro a b hab ha
    have hlt : a.range.stop.line < b.range.start.line := hab
    simp only [Range.containsLine, Bool.and_eq_true, decide_eq_true_eq] at ha
    simp only [Range.containsLine, Bool.and_eq_false_iff, decide_eq_false_iff_not]
    omega

end Symbol

namespace Outline

variable {lines : List Line}

theorem laminar_of_sound {forest : List (Tree Symbol)} (hapart : Apart forest)
    (hsound : ∀ t, t.Occurs forest → Sound lines t) :
    Tree.Laminar Symbol.Within Symbol.Before forest := by
  refine .intro hapart ?_ ?_
  · intro t ht c hc
    have hinside := (hsound t (.root ht)).inside c hc
    exact ⟨Nat.le_of_lt hinside.1, hinside.2⟩
  · intro t ht
    exact laminar_of_sound (hsound t (.root ht)).apart fun c hc => hsound c (.child ht hc)
termination_by sizeOf forest
decreasing_by
  obtain ⟨a, ts⟩ := t
  have hsize := List.sizeOf_lt_of_mem ht
  simp only [Tree.node.sizeOf_spec] at hsize
  simp only [Tree.children]
  omega

theorem symbols_laminar (lines : List Line) :
    Tree.Laminar Symbol.Within Symbol.Before (symbols lines) := by
  unfold symbols items
  rw [Tree.mapForest_eq]
  split
  · exact laminar_of_sound (wellFormed_headings lines).apart (wellFormed_headings lines).sound
  · exact laminar_of_sound (wellFormed_procs lines).apart (wellFormed_procs lines).sound

end Outline

namespace Scanner

/-- The outline that a scanner keeps for a document is that of the lines of some request. -/
theorem Follows.exists_lines {history : List Operation} {s : Scanner} (h : Follows history s)
    {uri : String} {outline : List (Tree Symbol)} (hkept : s.latestSymbols? uri = some outline) :
    ∃ lines, outline = Outline.symbols lines := by
  obtain ⟨stored, hstored, rfl⟩ := Option.map_eq_some_iff.1 hkept
  obtain ⟨d, -, -, -, hvalue⟩ := h.symbols uri stored hstored
  exact ⟨d.lines, hvalue⟩

theorem latestSymbols?_of_requestSymbols {s s' : Scanner} (hcache : s.settings.cache = true)
    {point : CancelPoint} {d : Document} {outline : List (Tree Symbol)}
    (hrequest : s.requestSymbols point d = (.ok outline, s')) :
    s'.latestSymbols? d.uri = some outline := by
  rw [requestSymbols, hcache, Prod.mk.injEq] at hrequest
  obtain ⟨hanswer, rfl⟩ := hrequest
  rw [latestSymbols?, Cache.latest?_answer hanswer]
  rfl

/-- Narrowing gives the lines of the deepest entry around a line, if there is one at all. -/
theorem narrowingSpan?_cases {s : Scanner} {uri : String} {lines : List Line}
    (hkept : s.latestSymbols? uri = some (Outline.symbols lines)) (line : Nat) :
    (s.narrowingSpan? uri line = none ∧
      ∀ e ∈ Outline.nodes lines, e.2.range.containsLine line = false) ∨
    ∃ depth symbol, s.narrowingSpan? uri line =
        some (symbol.range.start.line, symbol.range.stop.line) ∧
      Tree.Deepest Symbol.Within (·.range.containsLine line) (Outline.nodes lines) depth symbol := by
  have hspan : s.narrowingSpan? uri line =
      (Tree.descendForest (·.range.containsLine line) (Outline.symbols lines)).map fun symbol =>
        (symbol.range.start.line, symbol.range.stop.line) := by
    rw [narrowingSpan?, hkept]
    rfl
  have hdescent := (Outline.symbols_laminar lines).descendForest_eq_none_or_deepest
    (Symbol.narrows_containsLine line) 0
  rcases hdescent with ⟨hnone, hall⟩ | ⟨symbol, depth, hsome, -, hdeepest⟩
  · exact .inl ⟨by rw [hspan, hnone]; rfl, hall⟩
  · exact .inr ⟨depth, symbol, by rw [hspan, hsome]; rfl, hdeepest⟩

/--
After a request for symbols has been answered and kept, narrowing to a line gives a span exactly if
some entry is around the line, and then it is that of the deepest one, which lies inside all others.
-/
theorem narrowingSpan?_after_requestSymbols {settings : Settings} (hcache : settings.cache = true)
    {history : List Operation} {point : CancelPoint} {d : Document} {outline : List (Tree Symbol)}
    {s : Scanner} (hrequest : (after settings history).requestSymbols point d = (.ok outline, s))
    (line : Nat) :
    (Steady (history ++ [.symbols point d]) → outline = Outline.symbols d.lines) ∧
    ((s.narrowingSpan? d.uri line).isSome = true ↔
      ∃ e ∈ Tree.preorderForest 0 outline, e.2.range.containsLine line = true) ∧
    ∀ first last, s.narrowingSpan? d.uri line = some (first, last) →
      ∃ depth symbol, first = symbol.range.start.line ∧ last = symbol.range.stop.line ∧
        Tree.Deepest Symbol.Within (·.range.containsLine line) (Tree.preorderForest 0 outline)
          depth symbol := by
  have hfollows := Follows.after settings history
  have hkept : s.latestSymbols? d.uri = some outline :=
    latestSymbols?_of_requestSymbols (by rw [settings_after, hcache]) hrequest
  obtain ⟨lines, rfl⟩ : ∃ lines, outline = Outline.symbols lines := by
    have hnext := hfollows.perform (.symbols point d)
    rw [perform, hrequest] at hnext
    exact hnext.exists_lines hkept
  refine ⟨fun hsteady => ?_, ?_⟩
  · rcases hfollows.answered hsteady with hok | ⟨-, hcancelled⟩
    · rw [perform, hrequest] at hok
      exact Except.ok.inj (Answer.symbols.inj hok)
    · rw [perform, hrequest] at hcancelled
      cases hcancelled
  · rcases narrowingSpan?_cases hkept line with ⟨hnone, hall⟩ | ⟨depth, symbol, hsome, hdeepest⟩
    · refine ⟨⟨by rw [hnone]; nofun, ?_⟩, by rw [hnone]; nofun⟩
      rintro ⟨e, he, hcontains⟩
      rw [hall e he] at hcontains
      cases hcontains
    · refine ⟨⟨fun _ => ?_, fun _ => by rw [hsome]; rfl⟩, ?_⟩
      · obtain ⟨before, after, hsplit, hcontains, -⟩ := hdeepest
        exact ⟨(depth, symbol), by rw [← Outline.nodes, hsplit]; simp, hcontains⟩
      · intro first last hspan
        rw [hsome, Option.some.injEq, Prod.mk.injEq] at hspan
        exact ⟨depth, symbol, hspan.1.symm, hspan.2.symm, hdeepest⟩

/-- A proc with a subproc in it. -/
def nested : Document :=
  ⟨"a", 1, ["proc p;", "begin", "subproc q;", "begin", "end;", "end;"].map String.toList⟩

theorem narrowingSpan?_after_requestSymbols_nested :
    ((after {} []).requestSymbols .never nested).2.narrowingSpan? "a" 3 = some (2, 4) ∧
      ∃ depth symbol, 2 = symbol.range.start.line ∧ 4 = symbol.range.stop.line ∧
        Tree.Deepest Symbol.Within (·.range.containsLine 3)
          (Tree.preorderForest 0 (Outline.symbols nested.lines)) depth symbol := by
  have hrequest : (after {} []).requestSymbols .never nested =
      (.ok (Outline.symbols nested.lines), ((after {} []).requestSymbols .never nested).2) := rfl
  have hspan : ((after {} []).requestSymbols .never nested).2.narrowingSpan? "a" 3 = some (2, 4) := by
    decide +kernel
  exact ⟨hspan, (narrowingSpan?_after_requestSymbols rfl hrequest 3).2.2 2 4 hspan⟩

end Scanner

end TalOutline
