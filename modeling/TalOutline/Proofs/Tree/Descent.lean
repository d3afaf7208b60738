import TalOutline.Tree

/-!
The nodes of a forest in pre-order, and where a descent through it ends. In a forest whose nodes lie
inside their parents and apart from their siblings, the descent ends at the deepest node with the
property.
-/
namespace TalOutline.Tree

variable {α β : Type}

mutual

theorem preorder_map (f : α → β) (depth : Nat) (t : Tree α) :
    (t.map f).preorder depth = (t.preorder depth).map fun e => (e.1, f e.2) := by
  match t with
  | .node a ts => rw [map, preorder, preorder, List.map_cons, preorderForest_mapForest]

theorem preorderForest_mapForest (f : α → β) (depth : Nat) (ts : List (Tree α)) :
    preorderForest depth (mapForest f ts) =
      (preorderForest depth ts).map fun e => (e.1, f e.2) := by
  match ts with
  | [] => rfl
  | t :: ts =>
    rw [mapForest, preorderForest, preorderForest, List.map_append, preorder_map,
      preorderForest_mapForest]

end

theorem preorder_eq (depth : Nat) (t : Tree α) :
    t.preorder depth = (depth, t.label) :: preorderForest (depth + 1) t.children := by
  cases t
  rfl

theorem descend_eq (p : α → Bool) (t : Tree α) :
    t.descend p = if p t.label then (descendForest p t.children).or (some t.label) else none := by
  cases t
  rfl

theorem preorderForest_append (depth : Nat) (ts us : List (Tree α)) :
    preorderForest depth (ts ++ us) = preorderForest depth ts ++ preorderForest depth us := by
  simp only [preorderForest_eq, List.flatMap_append]

theorem preorderForest_leaves (depth : Nat) (items : List α) :
    preorderForest depth (items.map leaf) = items.map (depth, ·) := by
  rw [preorderForest_eq, List.flatMap_map]
  exact (List.map_eq_flatMap).symm

/-- A forest ends in pre-order where a node above it follows, so what follows is told from it. -/
theorem eq_of_preorderForest_append (depth : Nat) :
    (ts us : List (Tree α)) → {rest rest' : List (Nat × α)} → (∀ e ∈ rest.head?, e.1 < depth) →
      (∀ e ∈ rest'.head?, e.1 < depth) →
      preorderForest depth ts ++ rest = preorderForest depth us ++ rest' → ts = us ∧ rest = rest'
  | [], [], _, _, _, _, h => ⟨rfl, h⟩
  | [], .node b bs :: us, rest, _, hrest, _, h => by
    have hhead : (depth, b) ∈ rest.head? := by
      rw [preorderForest, List.nil_append] at h
      rw [h]
      rfl
    exact absurd (hrest _ hhead) (Nat.lt_irrefl _)
  | .node a as :: ts, [], _, rest', _, hrest', h => by
    have hhead : (depth, a) ∈ rest'.head? := by
      rw [preorderForest, preorderForest, List.nil_append] at h
      rw [← h]
      rfl
    exact absurd (hrest' _ hhead) (Nat.lt_irrefl _)
  | .node a as :: ts, .node b bs :: us, rest, rest', hrest, hrest', h => by
    have habove {vs : List (Tree α)} {rest : List (Nat × α)} (hrest : ∀ e ∈ rest.head?, e.1 < depth) :
        ∀ e ∈ (preorderForest depth vs ++ rest).head?, e.1 < depth + 1 := by
      intro e he
      cases vs with
      | nil => exact Nat.lt_succ_of_lt (hrest e he)
      | cons v vs =>
        rw [preorderForest, preorder_eq] at he
        obtain rfl := Option.some.inj he
        exact Nat.lt_succ_self depth
    simp only [preorderForest, preorder, List.cons_append, List.append_assoc, List.cons.injEq,
      Prod.mk.injEq, true_and] at h
    obtain ⟨rfl, hbelow⟩ := h
    obtain ⟨rfl, hbehind⟩ :=
      eq_of_preorderForest_append (depth + 1) as bs (habove hrest) (habove hrest') hbelow
    obtain ⟨rfl, hend⟩ := eq_of_preorderForest_append depth ts us hrest hrest' hbehind
    exact ⟨rfl, hend⟩

/-- The labels in pre-order with their depths tell the forest. -/
theorem preorderForest_inj {depth : Nat} {ts us : List (Tree α)}
    (h : preorderForest depth ts = preorderForest depth us) : ts = us := by
  have hnil : ∀ e ∈ ([] : List (Nat × α)).head?, e.1 < depth := by simp
  have happend : preorderForest depth ts ++ [] = preorderForest depth us ++ [] := by rw [h]
  exact (eq_of_preorderForest_append depth ts us hnil hnil happend).1

/-- Nodes lie inside their parents and apart from their siblings, at every level. -/
inductive Laminar (inside apart : α → α → Prop) : List (Tree α) → Prop
  | intro {ts : List (Tree α)} :
    ts.Pairwise (fun t u => apart t.label u.label) →
    (∀ t ∈ ts, ∀ c ∈ t.children, inside c.label t.label) →
    (∀ t ∈ ts, Laminar inside apart t.children) → Laminar inside apart ts

/-- A property passes from a node to those around it, and no two nodes apart have it both. -/
structure Narrows (inside apart : α → α → Prop) (p : α → Bool) : Prop where
  trans : ∀ a b c, inside a b → inside b c → inside a c
  up : ∀ a b, inside a b → p a = true → p b = true
  single : ∀ a b, apart a b → p a = true → p b = false

/-- A node that has a property and lies inside all others that have it, which are less deep. -/
def Deepest (inside : α → α → Prop) (p : α → Bool) (nodes : List (Nat × α)) (depth : Nat) (a : α) :
    Prop :=
  ∃ before after, nodes = before ++ (depth, a) :: after ∧ p a = true ∧
    ∀ e ∈ before ++ after, p e.2 = true → e.1 < depth ∧ inside a e.2

section Descent

variable {inside apart : α → α → Prop} {p : α → Bool} {ts : List (Tree α)}

theorem Laminar.inside_of_mem (h : Laminar inside apart ts) (hp : Narrows inside apart p)
    {t : Tree α} (ht : t ∈ ts) {depth : Nat} {e : Nat × α}
    (he : e ∈ preorderForest depth t.children) : inside e.2 t.label := by
  induction h generalizing t depth with
  | intro hpair hinside hchildren ih =>
    rw [preorderForest_eq] at he
    obtain ⟨c, hc, he⟩ := List.mem_flatMap.1 he
    have hct : inside c.label t.label := hinside t ht c hc
    rw [preorder_eq] at he
    rcases List.mem_cons.1 he with rfl | he
    · exact hct
    · have hec : inside e.2 c.label := ih t ht hc he
      exact hp.trans _ _ _ hec hct

/-- Trees whose roots do not have the property have no node with it. -/
theorem Laminar.not_of_roots (h : Laminar inside apart ts) (hp : Narrows inside apart p)
    {us : List (Tree α)} (hus : ∀ t ∈ us, t ∈ ts ∧ p t.label = false) {depth : Nat}
    {e : Nat × α} (he : e ∈ preorderForest depth us) : p e.2 = false := by
  rw [preorderForest_eq] at he
  obtain ⟨t, ht, he⟩ := List.mem_flatMap.1 he
  obtain ⟨hts, hroot⟩ := hus t ht
  rw [preorder_eq] at he
  rcases List.mem_cons.1 he with rfl | he
  · exact hroot
  · refine Bool.eq_false_iff.2 fun hpe => ?_
    have hlabel : p t.label = true := hp.up _ _ (h.inside_of_mem hp hts he) hpe
    rw [hroot] at hlabel
    cases hlabel

theorem descendForest_of_roots {us : List (Tree α)} (hus : ∀ t ∈ us, p t.label = false) :
    descendForest p us = none := by
  rw [descendForest_eq, List.findSome?_eq_none_iff]
  intro t ht
  rw [descend_eq, hus t ht]
  rfl

/-- At most one root of a forest has the property. -/
theorem Laminar.split_roots (h : Laminar inside apart ts) (hp : Narrows inside apart p) :
    (∀ t ∈ ts, p t.label = false) ∨ ∃ before t after, ts = before ++ t :: after ∧
      p t.label = true ∧ (∀ u ∈ before, p u.label = false) ∧ ∀ u ∈ after, p u.label = false := by
  obtain ⟨hpair, -, -⟩ := h
  by_cases hroots : ∃ t ∈ ts, p t.label = true
  · obtain ⟨t, ht, hpt⟩ := hroots
    obtain ⟨before, after, rfl⟩ := List.append_of_mem ht
    obtain ⟨-, hafter, hbefore⟩ := List.pairwise_append.1 hpair
    refine .inr ⟨before, t, after, rfl, hpt, ?_, ?_⟩
    · intro u hu
      refine Bool.eq_false_iff.2 fun hpu => ?_
      have hnot := hp.single _ _ (hbefore u hu t List.mem_cons_self) hpu
      rw [hpt] at hnot
      cases hnot
    · intro u hu
      exact hp.single _ _ ((List.pairwise_cons.1 hafter).1 u hu) hpt
  · refine .inl fun t ht => Bool.eq_false_iff.2 fun hpt => hroots ⟨t, ht, hpt⟩

theorem deepest_root {nodes : List (Nat × α)} {depth : Nat} {a : α} (ha : p a = true)
    (hnodes : ∀ e ∈ nodes, p e.2 = false) : Deepest inside p ((depth, a) :: nodes) depth a := by
  refine ⟨[], nodes, rfl, ha, fun e he hpe => ?_⟩
  rw [hnodes e he] at hpe
  cases hpe

theorem Deepest.cons {nodes : List (Nat × α)} {depth above : Nat} {a b : α}
    (h : Deepest inside p nodes depth a) (hdepth : above < depth) (hab : inside a b) :
    Deepest inside p ((above, b) :: nodes) depth a := by
  obtain ⟨before, after, rfl, ha, hall⟩ := h
  refine ⟨(above, b) :: before, after, rfl, ha, fun e he hpe => ?_⟩
  rcases List.mem_cons.1 he with rfl | he
  · exact ⟨hdepth, hab⟩
  · exact hall e he hpe

theorem Deepest.append {left nodes right : List (Nat × α)} {depth : Nat} {a : α}
    (h : Deepest inside p nodes depth a) (hleft : ∀ e ∈ left, p e.2 = false)
    (hright : ∀ e ∈ right, p e.2 = false) : Deepest inside p (left ++ nodes ++ right) depth a := by
  obtain ⟨before, after, rfl, ha, hall⟩ := h
  refine ⟨left ++ before, after ++ right, by simp, ha, fun e he hpe => ?_⟩
  have hmem : (e ∈ left ∨ e ∈ right) ∨ e ∈ before ++ after := by
    simp only [List.mem_append] at he ⊢
    rcases he with (he | he) | he | he <;> simp [he]
  rcases hmem with (he | he) | he
  · rw [hleft e he] at hpe
    cases hpe
  · rw [hright e he] at hpe
    cases hpe
  · exact hall e he hpe

/-- The descent follows one root at each level, and all that has the property lies on its way. -/
theorem Laminar.descendForest_eq_none_or_deepest (h : Laminar inside apart ts)
    (hp : Narrows inside apart p) (depth : Nat) :
    (descendForest p ts = none ∧ ∀ e ∈ preorderForest depth ts, p e.2 = false) ∨
    ∃ a k, descendForest p ts = some a ∧ depth ≤ k ∧
      Deepest inside p (preorderForest depth ts) k a := by
  induction h generalizing depth with
  | @intro ts hpair hinside hchildren ih =>
    have h : Laminar inside apart ts := .intro hpair hinside hchildren
    rcases h.split_roots hp with hnone | ⟨before, t, after, rfl, hpt, hbefore, hafter⟩
    · refine .inl ⟨descendForest_of_roots hnone, fun e he => ?_⟩
      exact h.not_of_roots hp (fun t ht => ⟨ht, hnone t ht⟩) he
    · -- The trees on both sides of the one root do not count, so the descent goes on below it.
      have ht : t ∈ before ++ t :: after := by simp
      have hleft : ∀ e ∈ preorderForest depth before, p e.2 = false := fun e he =>
        h.not_of_roots hp (fun u hu => ⟨by simp [hu], hbefore u hu⟩) he
      have hright : ∀ e ∈ preorderForest depth after, p e.2 = false := fun e he =>
        h.not_of_roots hp (fun u hu => ⟨by simp [hu], hafter u hu⟩) he
      have hdescend : descendForest p (before ++ t :: after) =
          (descendForest p t.children).or (some t.label) := by
        have hskip := descendForest_of_roots hbefore
        rw [descendForest_eq] at hskip ⊢
        rw [List.findSome?_append, hskip, List.findSome?_cons, descend_eq, hpt]
        cases descendForest p t.children <;> rfl
      have hnodes : preorderForest depth (before ++ t :: after) =
          preorderForest depth before ++ t.preorder depth ++ preorderForest depth after := by
        rw [preorderForest_append, preorderForest, List.append_assoc]
      right
      rw [hdescend, hnodes, preorder_eq]
      rcases ih t ht (depth + 1) with ⟨hnil, hbelow⟩ | ⟨a, k, ha, hk, hdeepest⟩
      · refine ⟨t.label, depth, by rw [hnil]; rfl, Nat.le_refl depth, ?_⟩
        exact (deepest_root hpt hbelow).append hleft hright
      · have hat : inside a t.label := by
          obtain ⟨below, behind, hsplit, -⟩ := hdeepest
          have hmem : (k, a) ∈ preorderForest (depth + 1) t.children := by rw [hsplit]; simp
          exact h.inside_of_mem hp ht hmem
        refine ⟨a, k, by rw [ha]; rfl, Nat.le_of_succ_le hk, ?_⟩
        exact (hdeepest.cons hk hat).append hleft hright

end Descent

end TalOutline.Tree
