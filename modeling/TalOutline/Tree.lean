/-! Trees of labelled nodes, and forests of them. -/
namespace TalOutline

/-- A node with its label and its children in order. -/
inductive Tree (α : Type) where
  | node (label : α) (children : List (Tree α))
  deriving Repr

namespace Tree

variable {α β : Type}

def leaf (a : α) : Tree α := .node a []

def label : Tree α → α
  | .node a _ => a

def children : Tree α → List (Tree α)
  | .node _ ts => ts

mutual

def map (f : α → β) : Tree α → Tree β
  | .node a ts => .node (f a) (mapForest f ts)

def mapForest (f : α → β) : List (Tree α) → List (Tree β)
  | [] => []
  | t :: ts => t.map f :: mapForest f ts

end

mutual

/-- The labels in pre-order, each with its depth. -/
def preorder (depth : Nat) : Tree α → List (Nat × α)
  | .node a ts => (depth, a) :: preorderForest (depth + 1) ts

/-- The labels of a forest in pre-order, each with its depth. -/
def preorderForest (depth : Nat) : List (Tree α) → List (Nat × α)
  | [] => []
  | t :: ts => t.preorder depth ++ preorderForest depth ts

end

mutual

/-- The label where the descent ends that goes through labels with a property. -/
def descend (p : α → Bool) : Tree α → Option α
  | .node a ts => if p a then (descendForest p ts).or (some a) else none

/-- The descent from the first tree of a forest whose root has the property. -/
def descendForest (p : α → Bool) : List (Tree α) → Option α
  | [] => none
  | t :: ts => (t.descend p).or (descendForest p ts)

end

@[simp] theorem label_map (f : α → β) (t : Tree α) : (t.map f).label = f t.label := by
  cases t
  rfl

@[simp] theorem mapForest_eq (f : α → β) (ts : List (Tree α)) :
    mapForest f ts = ts.map (map f) := by
  induction ts with
  | nil => rfl
  | cons t ts ih => rw [mapForest, ih, List.map_cons]

@[simp] theorem children_map (f : α → β) (t : Tree α) :
    (t.map f).children = t.children.map (map f) := by
  cases t
  exact mapForest_eq f _

mutual

theorem map_map {γ : Type} (f : α → β) (g : β → γ) :
    (t : Tree α) → (t.map f).map g = t.map (g ∘ f)
  | .node a ts => by rw [map, map, map, mapForest_mapForest f g ts, Function.comp_apply]

theorem mapForest_mapForest {γ : Type} (f : α → β) (g : β → γ) :
    (ts : List (Tree α)) → mapForest g (mapForest f ts) = mapForest (g ∘ f) ts
  | [] => rfl
  | t :: ts => by rw [mapForest, mapForest, mapForest, map_map f g t, mapForest_mapForest f g ts]

end

theorem preorderForest_eq (depth : Nat) (ts : List (Tree α)) :
    preorderForest depth ts = ts.flatMap (preorder depth) := by
  induction ts with
  | nil => rfl
  | cons t ts ih => rw [preorderForest, ih, List.flatMap_cons]

theorem descendForest_eq (p : α → Bool) (ts : List (Tree α)) :
    descendForest p ts = ts.findSome? (descend p) := by
  induction ts with
  | nil => rfl
  | cons t ts ih =>
    rw [descendForest, ih, List.findSome?_cons]
    cases t.descend p <;> rfl

end Tree

end TalOutline
