/-! Finite tables with strings for keys, each key at most once. -/
namespace TalOutline

/-- Entries with distinct keys. -/
structure Table (α : Type) where
  entries : List (String × α)
  distinct : (entries.map Prod.fst).Nodup

namespace Table

variable {α : Type}

def empty : Table α := ⟨[], .nil⟩

instance : EmptyCollection (Table α) := ⟨empty⟩

instance : Inhabited (Table α) := ⟨empty⟩

def get? (t : Table α) (key : String) : Option α :=
  t.entries.lookup key

def erase (t : Table α) (key : String) : Table α where
  entries := t.entries.filter (·.1 != key)
  distinct := t.distinct.sublist (List.filter_sublist.map _)

/-- With a value for a key, in place of an earlier one. -/
def insert (t : Table α) (key : String) (value : α) : Table α where
  entries := (key, value) :: (t.erase key).entries
  distinct := by
    refine List.nodup_cons.2 ⟨?_, (t.erase key).distinct⟩
    simp [erase]

@[simp] theorem get?_empty (key : String) : (∅ : Table α).get? key = none := rfl

private theorem lookup_filter_self (entries : List (String × α)) (key : String) :
    (entries.filter (·.1 != key)).lookup key = none := by
  induction entries with
  | nil => rfl
  | cons e rest ih =>
    obtain ⟨k, v⟩ := e
    by_cases hk : k = key
    · simp [hk, ih]
    · have hko : (key == k) = false := by simp [Ne.symm hk]
      simp [hk, List.lookup_cons, hko, ih]

private theorem lookup_filter_ne (entries : List (String × α)) {key other : String}
    (h : other ≠ key) : (entries.filter (·.1 != key)).lookup other = entries.lookup other := by
  induction entries with
  | nil => rfl
  | cons e rest ih =>
    obtain ⟨k, v⟩ := e
    by_cases hk : k = key
    · have hko : (other == key) = false := by simp [h]
      simp [hk, List.lookup_cons, hko, ih]
    · by_cases ho : other = k
      · simp [hk, ho]
      · have hko : (other == k) = false := by simp [ho]
        simp [hk, List.lookup_cons, hko, ih]

theorem get?_erase (t : Table α) (key other : String) :
    (t.erase key).get? other = if other = key then none else t.get? other := by
  split
  · next h => subst h; exact lookup_filter_self t.entries other
  · next h => exact lookup_filter_ne t.entries h

theorem get?_insert (t : Table α) (key other : String) (value : α) :
    (t.insert key value).get? other = if other = key then some value else t.get? other := by
  by_cases h : other = key
  · simp [get?, insert, h]
  · have hb : (other == key) = false := by simp [h]
    simp only [get?, insert, List.lookup_cons, hb, h, if_false]
    exact lookup_filter_ne t.entries h

def size (t : Table α) : Nat :=
  t.entries.length

def isEmpty (t : Table α) : Bool :=
  t.entries.isEmpty

end Table

end TalOutline
