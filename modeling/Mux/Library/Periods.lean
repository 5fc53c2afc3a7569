import Mathlib.Algebra.Order.Group.Int
import Mathlib.Order.ConditionallyCompleteLattice.Basic
import Mathlib.Data.Int.ConditionallyCompleteOrder
import Mathlib.Order.GaloisConnection.Basic

/-!
# Consecutive periods

A line of integers is cut into periods, each of which begins where the one before it
ends. The beginning of a period and the period of a point form a Galois connection;
what rounding down to a beginning does follows from that. Periods of periods are
periods again.
-/

/-- Consecutive periods, numbered by the integers: where a period begins, and in which
period a point lies. -/
structure Periods where
  start : ℤ → ℤ
  index : ℤ → ℤ
  start_lt_succ : ∀ i, start i < start (i + 1)
  start_index_le : ∀ t, start (index t) ≤ t
  lt_start_succ : ∀ t, t < start (index t + 1)

namespace Periods

variable (p : Periods)

theorem start_strictMono : StrictMono p.start := strictMono_int_of_lt_succ p.start_lt_succ

theorem gc : GaloisConnection p.start p.index := by
  intro i t
  constructor
  · intro begun
    have before := p.start_strictMono.lt_iff_lt.mp (begun.trans_lt (p.lt_start_succ t))
    omega
  · intro le
    exact (p.start_strictMono.monotone le).trans (p.start_index_le t)

@[simp] theorem index_start (i : ℤ) : p.index (p.start i) = i :=
  le_antisymm (p.start_strictMono.le_iff_le.mp (p.start_index_le _)) (p.gc.le_u_l i)

/-- A point lies in the period that has begun and whose successor has not. -/
theorem index_eq_iff {i t : ℤ} : p.index t = i ↔ p.start i ≤ t ∧ t < p.start (i + 1) := by
  constructor
  · rintro rfl
    exact ⟨p.start_index_le t, p.lt_start_succ t⟩
  · rintro ⟨begun, pending⟩
    have lower := p.gc.le_iff_le.mp begun
    have upper := p.gc.lt_iff_lt.mp pending
    omega

/-- Rounding down to the beginning of a period. -/
def floor (t : ℤ) : ℤ := p.start (p.index t)

theorem floor_le (t : ℤ) : p.floor t ≤ t := p.start_index_le t

theorem index_floor (t : ℤ) : p.index (p.floor t) = p.index t := p.index_start _

theorem floor_floor (t : ℤ) : p.floor (p.floor t) = p.floor t := by
  rw [floor, index_floor, floor]

theorem floor_mono : Monotone p.floor := p.gc.monotone_l_comp_u

/-- A period begins at the points that rounding leaves alone. -/
theorem floor_eq_self_iff {t : ℤ} : p.floor t = t ↔ ∃ i, t = p.start i := by
  constructor
  · exact fun same => ⟨p.index t, same.symm⟩
  · rintro ⟨i, rfl⟩
    rw [floor, index_start]

/-- The latest beginning of a period that is not behind a point. -/
theorem floor_isGreatest (t : ℤ) : IsGreatest {s | s ≤ t ∧ p.floor s = s} (p.floor t) := by
  refine ⟨⟨p.floor_le t, p.floor_floor t⟩, ?_⟩
  rintro s ⟨le, begins⟩
  rw [← begins]
  exact p.floor_mono le

/-- The last point of the period of a point. -/
def last (t : ℤ) : ℤ := p.start (p.index t + 1) - 1

theorem le_last (t : ℤ) : t ≤ p.last t := Int.le_sub_one_of_lt (p.lt_start_succ t)

theorem index_last (t : ℤ) : p.index (p.last t) = p.index t := by
  refine p.index_eq_iff.mpr ⟨(p.floor_le t).trans (p.le_last t), ?_⟩
  exact Int.sub_one_lt_of_le le_rfl

theorem last_isGreatest (t : ℤ) : IsGreatest {s | p.index s = p.index t} (p.last t) := by
  refine ⟨p.index_last t, fun s same => ?_⟩
  rw [last, ← show p.index s = p.index t from same]
  exact p.le_last s

/-- Behind the last point of a period another one begins. -/
theorem floor_last_succ (t : ℤ) : p.floor (p.last t + 1) = p.last t + 1 :=
  p.floor_eq_self_iff.mpr ⟨p.index t + 1, by rw [last]; omega⟩

/-- Periods of one length. -/
def uniform (length : ℤ) (positive : 0 < length) : Periods where
  start i := length * i
  index t := t / length
  start_lt_succ i := by
    rw [Int.mul_add, Int.mul_one]
    omega
  start_index_le t := Int.mul_ediv_self_le positive.ne'
  lt_start_succ t := by
    rw [Int.mul_add, Int.mul_one]
    exact Int.lt_mul_ediv_self_add positive

/-- Periods each of which is made of whole periods. -/
def group (parts : Periods) : Periods where
  start i := p.start (parts.start i)
  index t := parts.index (p.index t)
  start_lt_succ i := p.start_strictMono (parts.start_lt_succ i)
  start_index_le _ := p.gc.l_le (parts.start_index_le _)
  lt_start_succ _ := p.gc.lt_iff_lt.mpr (parts.lt_start_succ _)

end Periods
