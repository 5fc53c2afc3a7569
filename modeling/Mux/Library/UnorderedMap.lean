import Mathlib.Data.Finmap

/-!
# Hash maps with an unspecified iteration order

`UnorderedMap` is Mathlib's `Finmap` at a constant value type: a finite map
without an order. An iteration over such a map meets each entry once, in an
order that the map does not determine; `Listing` is one such order.
-/

universe u v

/-- A finite map from keys to values, without an order on its entries. -/
def UnorderedMap (κ : Type u) (α : Type v) : Type (max u v) := Finmap (fun _ : κ => α)

namespace UnorderedMap

variable {κ : Type u} {α : Type v}

/-- The map without entries. -/
def empty : UnorderedMap κ α := (∅ : Finmap (fun _ : κ => α))

variable [DecidableEq κ]

/-- The value stored under a key. -/
def find? (m : UnorderedMap κ α) (k : κ) : Option α := Finmap.lookup k m

/-- Whether a key has an entry. -/
def contains (m : UnorderedMap κ α) (k : κ) : Bool := (m.find? k).isSome

/-- Store a value under a key, replacing what was there. -/
def insert (m : UnorderedMap κ α) (k : κ) (v : α) : UnorderedMap κ α := Finmap.insert k v m

/-- Remove the entry of a key, if there is one. -/
def erase (m : UnorderedMap κ α) (k : κ) : UnorderedMap κ α := Finmap.erase k m

/-- The subscript operator: an absent key is first entered with the default
value, so that the lookup itself may change the map. -/
def subscript (m : UnorderedMap κ α) (default : α) (k : κ) : α × UnorderedMap κ α :=
  match m.find? k with
  | some v => (v, m)
  | none => (default, m.insert k default)

@[simp] theorem find?_empty (k : κ) : (empty : UnorderedMap κ α).find? k = none :=
  Finmap.lookup_empty k

@[simp] theorem find?_insert (m : UnorderedMap κ α) (k : κ) (v : α) :
    (m.insert k v).find? k = some v := Finmap.lookup_insert m

theorem find?_insert_ne (m : UnorderedMap κ α) {k k' : κ} (v : α) (h : k' ≠ k) :
    (m.insert k v).find? k' = m.find? k' := Finmap.lookup_insert_of_ne m h

@[simp] theorem find?_erase (m : UnorderedMap κ α) (k : κ) : (m.erase k).find? k = none :=
  Finmap.lookup_erase k m

theorem find?_erase_ne (m : UnorderedMap κ α) {k k' : κ} (h : k' ≠ k) :
    (m.erase k).find? k' = m.find? k' := Finmap.lookup_erase_ne h

theorem find?_insert_ite (m : UnorderedMap κ α) (k k' : κ) (v : α) :
    (m.insert k v).find? k' = if k' = k then some v else m.find? k' := by
  split
  · next same => rw [same, find?_insert]
  · next other => exact find?_insert_ne m v other

theorem find?_erase_ite (m : UnorderedMap κ α) (k k' : κ) :
    (m.erase k).find? k' = if k' = k then none else m.find? k' := by
  split
  · next same => rw [same, find?_erase]
  · next other => exact find?_erase_ne m other

/-- Maps with the same entries are the same. -/
theorem ext {m m' : UnorderedMap κ α} (h : ∀ k, m.find? k = m'.find? k) : m = m' :=
  Finmap.ext_lookup h

/-- The entries after an insertion: the new one, and the old ones under other keys. -/
theorem find?_insert_eq_some {m : UnorderedMap κ α} {k k' : κ} {v v' : α} :
    (m.insert k v).find? k' = some v' ↔ (k' = k ∧ v = v') ∨ (k' ≠ k ∧ m.find? k' = some v') := by
  rw [find?_insert_ite]
  split
  · next same => simp [same]
  · next other => simp [other]

theorem find?_erase_eq_some {m : UnorderedMap κ α} {k k' : κ} {v : α} :
    (m.erase k).find? k' = some v ↔ k' ≠ k ∧ m.find? k' = some v := by
  rw [find?_erase_ite]
  split
  · next same => simp [same]
  · next other => simp [other]

@[simp] theorem insert_insert (m : UnorderedMap κ α) (k : κ) (v v' : α) :
    (m.insert k v).insert k v' = m.insert k v' := Finmap.insert_insert m

/-- Storing what is already stored changes nothing. -/
theorem insert_of_find? {m : UnorderedMap κ α} {k : κ} {v : α} (h : m.find? k = some v) :
    m.insert k v = m := by
  refine Finmap.ext_lookup fun k' => ?_
  by_cases same : k' = k
  · subst same
    exact (find?_insert m k' v).trans h.symm
  · exact find?_insert_ne m v same

theorem subscript_present {m : UnorderedMap κ α} {k : κ} {v : α} (h : m.find? k = some v)
    (default : α) : m.subscript default k = (v, m) := by
  simp only [subscript, h]

theorem subscript_absent {m : UnorderedMap κ α} {k : κ} (h : m.find? k = none) (default : α) :
    m.subscript default k = (default, m.insert k default) := by
  simp only [subscript, h]

/-- One order in which an iteration may meet the entries of a map. -/
structure Listing (m : UnorderedMap κ α) where
  pairs : List (κ × α)
  nodup : (pairs.map Prod.fst).Nodup
  mem_iff : ∀ k v, (k, v) ∈ pairs ↔ m.find? k = some v

/-- The only iteration over a map without entries. -/
def Listing.empty : Listing (UnorderedMap.empty : UnorderedMap κ α) where
  pairs := []
  nodup := List.nodup_nil
  mem_iff := by simp

/-- The only iteration over a map with one entry. -/
def Listing.single (k : κ) (v : α) :
    Listing ((UnorderedMap.empty : UnorderedMap κ α).insert k v) where
  pairs := [(k, v)]
  nodup := List.nodup_singleton _
  mem_iff k' v' := by
    rw [find?_insert_eq_some, find?_empty, List.mem_singleton, Prod.mk.injEq]
    simp [eq_comm]

end UnorderedMap
