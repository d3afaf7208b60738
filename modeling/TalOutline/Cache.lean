import TalOutline.Table

/-! A cache with one result per document, that of the version stored last. -/
namespace TalOutline

structure Stored (α : Type) where
  version : Int
  value : α
  deriving DecidableEq, Repr

structure Cache (α : Type) where
  table : Table (Stored α)

namespace Cache

variable {α : Type}

def empty : Cache α := ⟨∅⟩

instance : EmptyCollection (Cache α) := ⟨empty⟩

instance : Inhabited (Cache α) := ⟨empty⟩

/-- The result stored last for a document, with its version. -/
def latest? (c : Cache α) (uri : String) : Option (Stored α) :=
  c.table.get? uri

/-- The result stored last for a document, if it belongs to the given version. -/
def get? (c : Cache α) (uri : String) (version : Int) : Option α :=
  match c.latest? uri with
  | none => none
  | some stored => if stored.version = version then some stored.value else none

def set (c : Cache α) (uri : String) (version : Int) (value : α) : Cache α :=
  ⟨c.table.insert uri ⟨version, value⟩⟩

/-- Removes the result of a document, and tells whether there was one. -/
def remove (c : Cache α) (uri : String) : Cache α × Bool :=
  (⟨c.table.erase uri⟩, (c.latest? uri).isSome)

def clear (_ : Cache α) : Cache α :=
  ∅

@[simp] theorem latest?_empty (uri : String) : (∅ : Cache α).latest? uri = none := rfl

/-- The result stored last wins, whatever its version. -/
theorem latest?_set (c : Cache α) (uri other : String) (version : Int) (value : α) :
    (c.set uri version value).latest? other =
      if other = uri then some ⟨version, value⟩ else c.latest? other :=
  Table.get?_insert c.table uri other ⟨version, value⟩

theorem latest?_remove (c : Cache α) (uri other : String) :
    (c.remove uri).1.latest? other = if other = uri then none else c.latest? other :=
  Table.get?_erase c.table uri other

@[simp] theorem latest?_clear (c : Cache α) (uri : String) : c.clear.latest? uri = none := rfl

def size (c : Cache α) : Nat :=
  c.table.size

def isEmpty (c : Cache α) : Bool :=
  c.table.isEmpty

end Cache

end TalOutline
