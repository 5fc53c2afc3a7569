import Mathlib.Algebra.BigOperators.Group.List.Basic
import Mathlib.Algebra.Ring.Int.Defs
import Mathlib.Data.List.GetD
import Mux.Library.Periods

/-!
# The Gregorian calendar

Days are numbered from the first of January 1970, months from the January of the year
zero, and the calendar is extended to all years in both directions. A year is found by
an estimate from the mean length of a year, which is one too small at most; a month of
the year by going through the lengths of the months.
-/

namespace Calendar

/-- Every fourth year, but not every hundredth, but every four-hundredth. -/
def isLeap (year : ℤ) : Bool := year % 4 = 0 ∧ (year % 100 ≠ 0 ∨ year % 400 = 0)

/-- The lengths of the months, from January on. -/
def monthLengths (year : ℤ) : List ℤ :=
  [31, if isLeap year then 29 else 28, 31, 30, 31, 30, 31, 31, 30, 31, 30, 31]

/-- The day on which a year begins. -/
def yearStart (year : ℤ) : ℤ :=
  365 * (year - 1970) + ((year - 1) / 4 - (year - 1) / 100 + (year - 1) / 400) - 477

/-- The year of a day. -/
def yearOf (day : ℤ) : ℤ :=
  let estimate := 400 * (day + 719162) / 146097 + 1
  if day < yearStart (estimate + 1) then estimate else estimate + 1

theorem sum_monthLengths (year : ℤ) :
    (monthLengths year).sum = if isLeap year then 366 else 365 := by
  unfold monthLengths
  cases isLeap year <;> rfl

theorem yearStart_succ (year : ℤ) :
    yearStart (year + 1) = yearStart year + (monthLengths year).sum := by
  rw [sum_monthLengths]
  unfold yearStart isLeap
  split
  · next leap =>
      simp only [decide_eq_true_eq] at leap
      omega
  · next common =>
      simp only [decide_eq_true_eq] at common
      omega

theorem yearOf_spec (day : ℤ) :
    yearStart (yearOf day) ≤ day ∧ day < yearStart (yearOf day + 1) := by
  simp only [yearOf]
  split
  · next before =>
      refine ⟨?_, before⟩
      unfold yearStart
      omega
  · next after =>
      refine ⟨not_lt.mp after, ?_⟩
      unfold yearStart
      omega

/-- The number of whole blocks that fit in front of a position. -/
def wholeBlocks : List ℤ → ℤ → ℕ
  | [], _ => 0
  | length :: lengths, position =>
      if position < length then 0 else wholeBlocks lengths (position - length) + 1

theorem wholeBlocks_spec {lengths : List ℤ} {position : ℤ} (lower : 0 ≤ position)
    (upper : position < lengths.sum) :
    wholeBlocks lengths position < lengths.length ∧
      (lengths.take (wholeBlocks lengths position)).sum ≤ position ∧
      position < (lengths.take (wholeBlocks lengths position + 1)).sum := by
  induction lengths generalizing position with
  | nil => exact absurd upper (not_lt.mpr lower)
  | cons length lengths ih =>
      rw [wholeBlocks]
      split
      · next inside => simpa using ⟨lower, inside⟩
      · next behind =>
          rw [List.sum_cons] at upper
          have inside : 0 ≤ position - length ∧ position - length < lengths.sum := by omega
          obtain ⟨bound, begun, pending⟩ := ih inside.1 inside.2
          simp only [List.length_cons, List.take_succ_cons, List.sum_cons]
          omega

/-- The day on which a month begins. -/
def monthStart (month : ℤ) : ℤ :=
  yearStart (month / 12) + ((monthLengths (month / 12)).take (month % 12).toNat).sum

/-- The length of a month. -/
def monthLength (month : ℤ) : ℤ := (monthLengths (month / 12)).getD (month % 12).toNat 0

/-- The month of a day. -/
def monthOf (day : ℤ) : ℤ :=
  12 * yearOf day + wholeBlocks (monthLengths (yearOf day)) (day - yearStart (yearOf day))

theorem monthStart_eq (year : ℤ) {k : ℕ} (month : k ≤ 12) :
    monthStart (12 * year + k) = yearStart year + ((monthLengths year).take k).sum := by
  by_cases last : k = 12
  · have same : 12 * year + (k : ℤ) = 12 * (year + 1) := by omega
    have first : monthStart (12 * (year + 1)) = yearStart (year + 1) := by
      rw [monthStart, Int.mul_ediv_cancel_left _ (by decide), Int.mul_emod_right]
      simp
    rw [same, first, yearStart_succ, last]
    rfl
  · have quotient : (12 * year + (k : ℤ)) / 12 = year := by omega
    have remainder : ((12 * year + (k : ℤ)) % 12).toNat = k := by omega
    rw [monthStart, quotient, remainder]

/-- A month of a year, given by its number from January on. -/
theorem exists_month (month : ℤ) : ∃ year, ∃ k < 12, month = 12 * year + (k : ℕ) :=
  ⟨month / 12, (month % 12).toNat, by omega, by omega⟩

theorem monthLength_eq (year : ℤ) {k : ℕ} (month : k < 12) :
    monthLength (12 * year + k) = (monthLengths year).getD k 0 := by
  have quotient : (12 * year + (k : ℤ)) / 12 = year := by omega
  have remainder : ((12 * year + (k : ℤ)) % 12).toNat = k := by omega
  rw [monthLength, quotient, remainder]

theorem monthStart_succ (month : ℤ) :
    monthStart (month + 1) = monthStart month + monthLength month := by
  obtain ⟨year, k, bound, rfl⟩ := exists_month month
  have fits : k < (monthLengths year).length := bound
  have next := monthStart_eq year (k := k + 1) bound
  rw [List.sum_take_succ _ _ fits, ← List.getD_eq_getElem _ 0 fits, ← Int.add_assoc] at next
  rw [monthLength_eq year bound, monthStart_eq year bound.le, ← next, Int.add_assoc]
  rfl

theorem mem_monthLengths (month : ℤ) : monthLength month ∈ monthLengths (month / 12) := by
  have fits : (month % 12).toNat < (monthLengths (month / 12)).length :=
    show (month % 12).toNat < 12 by omega
  rw [monthLength, List.getD_eq_getElem _ 0 fits]
  exact List.getElem_mem _

theorem monthLength_bounds (month : ℤ) : 28 ≤ monthLength month ∧ monthLength month ≤ 31 := by
  have member := mem_monthLengths month
  unfold monthLengths at member
  split at member <;> simp at member <;> omega

theorem monthOf_spec (day : ℤ) :
    monthStart (monthOf day) ≤ day ∧ day < monthStart (monthOf day + 1) := by
  obtain ⟨begun, pending⟩ := yearOf_spec day
  rw [yearStart_succ] at pending
  have lower : 0 ≤ day - yearStart (yearOf day) := by omega
  have upper : day - yearStart (yearOf day) < (monthLengths (yearOf day)).sum := by omega
  obtain ⟨bound, before, behind⟩ := wholeBlocks_spec lower upper
  have first := monthStart_eq (yearOf day) (Nat.le_of_lt bound)
  have second := monthStart_eq (yearOf day) (Nat.succ_le_of_lt bound)
  rw [Nat.succ_eq_add_one] at second
  push_cast at second
  rw [monthOf, Int.add_assoc, first, second]
  omega

/-- The months as periods of days. -/
def months : Periods where
  start := monthStart
  index := monthOf
  start_lt_succ month := by
    have positive := (monthLength_bounds month).1
    rw [monthStart_succ]
    omega
  start_index_le day := (monthOf_spec day).1
  lt_start_succ day := (monthOf_spec day).2

end Calendar
