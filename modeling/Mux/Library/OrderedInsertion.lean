import Mathlib.Data.List.Basic
import Mathlib.Order.Lattice
import Mathlib.Order.Nat

/-!
# Lists that are built by insertions in the order of their elements

A list is built from some of its elements by inserting the others, the smallest
first and equal ones from front to back. While the elements equal to `m` are
inserted, a front of the list has been passed and the rest has not: the elements
that are there are `placed m front rest`.

An insertion is found by counting. The pairs of an element and a position are
ordered by their elements first, and a list of `h` elements has `h + 1` positions;
the number of pairs that are passed gives the next element and its position.
-/

namespace OrderedInsertion

variable {α : Type} [LinearOrder α] {m n c : α} {front rest s : List α}

/-- The elements up to `m` in front, and those below it behind. -/
def placed (m : α) (front rest : List α) : List α :=
  front.filter (fun c => decide (c ≤ m)) ++ rest.filter (fun c => decide (c < m))

/-- A smaller element is there already. -/
theorem placed_smaller (smaller : c < m) :
    placed m (front ++ [c]) rest = placed m front (c :: rest) := by
  simp [placed, smaller, smaller.le]

/-- A larger element comes later. -/
theorem placed_larger (larger : m < c) :
    placed m (front ++ [c]) rest = placed m front (c :: rest) := by
  simp [placed, larger.not_ge, larger.not_gt]

theorem insertIdx_append {β : Type} (front rest : List β) (b : β) :
    (front ++ rest).insertIdx front.length b = front ++ b :: rest := by
  induction front with
  | nil => rfl
  | cons a front ih => rw [List.cons_append, List.length_cons, List.insertIdx_succ_cons, ih]; rfl

/-- An element equal to `m` is inserted behind those of the front. -/
theorem placed_equal : placed m (front ++ [m]) rest =
    (placed m front (m :: rest)).insertIdx (front.filter fun c => decide (c ≤ m)).length m := by
  rw [placed, placed, List.filter_cons_of_neg (by simp), insertIdx_append]
  simp

/-- The elements of the front are among those that are there. -/
theorem length_filter_le_placed (m : α) (front rest : List α) :
    (front.filter fun c => decide (c ≤ m)).length ≤ (placed m front rest).length := by
  rw [placed, List.length_append]
  exact Nat.le_add_right _ _

/-- As long as an element is missing, fewer are there. -/
theorem length_placed_lt (front : List α) (missing : m ∈ rest) :
    (placed m front rest).length < (front ++ rest).length := by
  have fewer : (rest.filter fun c => decide (c < m)).length < rest.length :=
    List.length_filter_lt_length_iff_exists.mpr ⟨m, missing, by simp⟩
  have most := List.length_filter_le (fun c => decide (c ≤ m)) front
  rw [placed, List.length_append, List.length_append]
  omega

/-- A pass inserts at least one element. -/
theorem length_placed_grows (found : m ∈ s) : (placed m [] s).length < (placed m s []).length := by
  have smaller : s.filter (fun c => decide (c < m)) =
      (s.filter fun c => decide (c ≤ m)).filter fun c => decide (c < m) := by
    rw [List.filter_filter]
    exact List.filter_congr fun c _ => by grind
  rw [placed, placed, List.filter_nil, List.filter_nil, List.nil_append, List.append_nil, smaller]
  exact List.length_filter_lt_length_iff_exists.mpr
    ⟨m, List.mem_filter.mpr ⟨found, by simp⟩, by simp⟩

/-- Nothing lies between the elements of one pass and those of the next. -/
theorem placed_next (next : ∀ c ∈ s, n ≤ c → m ≤ c) (after : n ≤ m) :
    placed m [] s = placed n [] s := by
  rw [placed, placed, List.filter_nil, List.filter_nil, List.nil_append, List.nil_append]
  refine List.filter_congr fun c found => decide_eq_decide.mpr ?_
  constructor
  · intro below
    exact lt_of_not_ge fun reached => below.not_ge (next c found reached)
  · exact fun below => lt_of_lt_of_le below after

/-- What is there after the pass for `m` is there before the next one. -/
theorem placed_succ {m : Nat} {s : List Nat} : placed (m + 1) [] s = placed m s [] := by
  rw [placed, placed, List.filter_nil, List.filter_nil, List.nil_append, List.append_nil]
  exact List.filter_congr fun c _ => decide_eq_decide.mpr Nat.lt_succ_iff

/-- The count of passed pairs gives the element and its position. -/
theorem position_spec {n m i passed position h : Nat} (fits : position ≤ h)
    (count : n * (h + 1) + i + passed = m * (h + 1) + position) :
    n + (i + passed) / (h + 1) = m ∧ (i + passed) % (h + 1) = position := by
  have small : position < h + 1 := Nat.lt_succ_of_le fits
  rw [Nat.add_assoc, Nat.mul_comm n, Nat.mul_comm m] at count
  constructor
  · have quotient := congrArg (· / (h + 1)) count
    simp only [Nat.mul_add_div h.succ_pos, Nat.div_eq_of_lt small] at quotient
    exact quotient
  · have remainder := congrArg (· % (h + 1)) count
    simp only [Nat.mul_add_mod, Nat.mod_eq_of_lt small] at remainder
    exact remainder

end OrderedInsertion
