import Mathlib.Data.List.Induction
import Mathlib.Data.Set.Card
import TalOutline.Proofs.Scanner.Kept

/-!
Runs of a cache. What it keeps for a document is settled by the last operation that stored a result
for the document, removed it or cleared the cache. The versions stored before that play no part.
-/
namespace TalOutline

namespace Table

variable {α : Type}

theorem isSome_get?_iff (t : Table α) (key : String) :
    (t.get? key).isSome = true ↔ key ∈ t.entries.map Prod.fst := by
  unfold get?
  induction t.entries with
  | nil => simp
  | cons entry entries ih =>
    rw [List.lookup_cons, List.map_cons, List.mem_cons]
    by_cases hkey : key = entry.1
    · simp [hkey]
    · have hbeq : (key == entry.1) = false := by simp [hkey]
      rw [hbeq, ih]
      simp [hkey]

/-- No key counts twice, as the keys are distinct. -/
theorem encard_keys (t : Table α) :
    {key | (t.get? key).isSome = true}.encard = (t.size : ℕ∞) := by
  have hkeys : {key | (t.get? key).isSome = true} =
      ((t.entries.map Prod.fst).toFinset : Set String) := by
    ext key
    rw [Finset.mem_coe, List.mem_toFinset]
    exact isSome_get?_iff t key
  rw [hkeys, Set.encard_coe_eq_coe_finsetCard, List.toFinset_card_of_nodup t.distinct,
    List.length_map]
  rfl

theorem isEmpty_iff (t : Table α) : t.isEmpty = true ↔ t.size = 0 := by
  unfold isEmpty size
  rw [List.isEmpty_iff, List.length_eq_zero_iff]

end Table

namespace Cache

variable {α : Type}

inductive Operation (α : Type) where
  | set (uri : String) (version : Int) (value : α)
  | remove (uri : String)
  | clear
  | get (uri : String) (version : Int)
  | latest (uri : String)
  | size
  | isEmpty

/-- The cache that an operation leaves behind. To look at a cache does not change it. -/
def perform (c : Cache α) : Operation α → Cache α
  | .set uri version value => c.set uri version value
  | .remove uri => (c.remove uri).1
  | .clear => c.clear
  | .get _ _ | .latest _ | .size | .isEmpty => c

def after (history : List (Operation α)) : Cache α :=
  history.foldl perform ∅

def Operation.settles (uri : String) : Operation α → Bool
  | .set other _ _ | .remove other => uri = other
  | .clear => true
  | .get _ _ | .latest _ | .size | .isEmpty => false

/-- The last operation that settled what is kept for a document. -/
def last? (history : List (Operation α)) (uri : String) : Option (Operation α) :=
  (history.filter (·.settles uri)).getLast?

/-- The documents for which the last such operation stored a result. -/
def storedLast (history : List (Operation α)) : Set String :=
  {uri | ∃ version value, last? history uri = some (.set uri version value)}

def Operation.stored? : Operation α → Option (Stored α)
  | .set _ version value => some ⟨version, value⟩
  | _ => none

theorem Operation.eq_set {op : Operation α} {uri : String} {version : Int} {value : α}
    (hsettles : op.settles uri = true) (hstored : op.stored? = some ⟨version, value⟩) :
    op = .set uri version value := by
  cases op with
  | set other v x =>
    obtain rfl : uri = other := of_decide_eq_true hsettles
    cases hstored
    rfl
  | remove _ | clear | get _ _ | latest _ | size | isEmpty => cases hstored

/-- An operation that settles what is kept for a document leaves what it has stored itself. -/
theorem latest?_perform (c : Cache α) (op : Operation α) (uri : String) :
    (c.perform op).latest? uri = if op.settles uri then op.stored? else c.latest? uri := by
  cases op with
  | set other version value =>
    simp only [perform, latest?_set, Operation.settles, Operation.stored?, decide_eq_true_eq]
  | remove other =>
    simp only [perform, latest?_remove, Operation.settles, Operation.stored?, decide_eq_true_eq]
  | clear => rfl
  | get _ _ | latest _ | size | isEmpty => rfl

theorem last?_append (history : List (Operation α)) (op : Operation α) (uri : String) :
    last? (history ++ [op]) uri = if op.settles uri then some op else last? history uri := by
  unfold last?
  by_cases hop : op.settles uri = true
  · simp [hop]
  · simp [hop]

theorem settles_of_last? {history : List (Operation α)} {op : Operation α} {uri : String}
    (h : last? history uri = some op) : op.settles uri = true :=
  (List.mem_filter.1 (List.mem_of_getLast? h)).2

theorem latest?_after (history : List (Operation α)) (uri : String) :
    (after history).latest? uri = (last? history uri).bind Operation.stored? := by
  induction history using List.reverseRecOn with
  | nil => rfl
  | append_singleton history op ih =>
    -- The new operation settles the document, or else the run before it has the last word.
    have hafter : after (history ++ [op]) = (after history).perform op := by simp [after]
    rw [hafter, latest?_perform, last?_append, ih]
    split <;> rfl

theorem latest?_after_iff {history : List (Operation α)} {uri : String} {version : Int}
    {value : α} : (after history).latest? uri = some ⟨version, value⟩ ↔
      last? history uri = some (.set uri version value) := by
  rw [latest?_after, Option.bind_eq_some_iff]
  constructor
  · intro h
    obtain ⟨op, hlast, hstored⟩ := h
    rw [hlast, Operation.eq_set (settles_of_last? hlast) hstored]
  · intro h
    exact ⟨_, h, rfl⟩

theorem isSome_latest?_after_iff {history : List (Operation α)} {uri : String} :
    ((after history).latest? uri).isSome = true ↔ uri ∈ storedLast history := by
  rw [Option.isSome_iff_exists]
  constructor
  · intro h
    obtain ⟨⟨version, value⟩, hlatest⟩ := h
    exact ⟨version, value, latest?_after_iff.1 hlatest⟩
  · intro h
    obtain ⟨version, value, hlast⟩ := h
    exact ⟨⟨version, value⟩, latest?_after_iff.2 hlast⟩

theorem size_after (history : List (Operation α)) :
    ((after history).size : ℕ∞) = (storedLast history).encard := by
  have hkeys : storedLast history = {uri | ((after history).latest? uri).isSome = true} := by
    ext uri
    exact isSome_latest?_after_iff.symm
  rw [hkeys]
  exact (Table.encard_keys (after history).table).symm

structure KeepsLast (history : List (Operation α)) : Prop where
  /-- A result is found for a version exactly if it was stored last, and for that version. -/
  get : ∀ uri version value, (after history).get? uri version = some value ↔
    last? history uri = some (.set uri version value)
  latest : ∀ uri version value, (after history).latest? uri = some ⟨version, value⟩ ↔
    last? history uri = some (.set uri version value)
  /-- There is a result to remove exactly if one was stored last. -/
  remove : ∀ uri, ((after history).remove uri).2 = true ↔ uri ∈ storedLast history
  size : ((after history).size : ℕ∞) = (storedLast history).encard
  isEmpty : (after history).isEmpty = true ↔ (storedLast history).encard = 0

/-- A cache keeps what was stored last for each document, and nothing else. -/
theorem keepsLast (history : List (Operation α)) : KeepsLast history where
  get := by
    intro uri version value
    rw [get?_eq_some_iff, latest?_after_iff]
  latest := by
    intro uri version value
    exact latest?_after_iff
  remove := by
    intro uri
    exact isSome_latest?_after_iff
  size := size_after history
  isEmpty := by
    rw [← size_after, Nat.cast_eq_zero]
    exact Table.isEmpty_iff (after history).table

end Cache

end TalOutline
