import Mathlib.Data.List.Induction
import Mux.Library.Text

/-!
# Numerals in a base

Reading a number takes the longest run of digits in front of a text. There may
be none, and the number may be too large for its type. Writing a number gives
the numeral without leading zeros, and such a numeral is what its own value is
written as.
-/

namespace Numerals

/-- The value of a character as a digit in the bases up to 36. -/
def digitValue (c : Char) : Option Nat :=
  if '0' ≤ c ∧ c ≤ '9' then some (c.toNat - '0'.toNat)
  else if 'a' ≤ c ∧ c ≤ 'z' then some (c.toNat - 'a'.toNat + 10)
  else if 'A' ≤ c ∧ c ≤ 'Z' then some (c.toNat - 'A'.toNat + 10)
  else none

/-- A digit of the base. -/
def isDigitOf (base : Nat) (c : Char) : Bool := (digitValue c).any (· < base)

/-- The number with these digits. -/
def numeral (base : Nat) (digits : Str) : Nat :=
  digits.foldl (fun n c => n * base + (digitValue c).getD 0) 0

/-- The numerals of a list of numbers with a character between them. -/
def separated (base : Nat) (sep : Char) : List Nat → Str
  | [] => []
  | [n] => Nat.toDigits base n
  | n :: ns => Nat.toDigits base n ++ sep :: separated base sep ns

/-- How a reading ended. -/
inductive Errc where
  | none
  | invalid_argument
  | result_out_of_range
  deriving DecidableEq, Repr

/-- The error, the number and the text that was not read. -/
structure FromCharsResult where
  ec : Errc
  value : Nat
  ptr : Str
  deriving DecidableEq, Repr

/-- `from_chars` for an unsigned type with a largest value. The variable for the
number keeps its zero when the reading fails. -/
def fromChars (base max : Nat) (s : Str) : FromCharsResult :=
  let digits := s.takeWhile (isDigitOf base)
  let ptr := s.dropWhile (isDigitOf base)
  if digits = [] then ⟨.invalid_argument, 0, s⟩
  else if numeral base digits ≤ max then ⟨.none, numeral base digits, ptr⟩
  else ⟨.result_out_of_range, 0, ptr⟩

variable {base n d : Nat} {c : Char} {s digits : Str}

/-- What is read fits into its type. -/
theorem fromChars_value_le (base max : Nat) (s : Str) : (fromChars base max s).value ≤ max := by
  rw [fromChars]
  split
  · exact Nat.zero_le max
  · split
    · assumption
    · exact Nat.zero_le max

@[simp] theorem numeral_nil (base : Nat) : numeral base [] = 0 := rfl

theorem numeral_push (base : Nat) (s : Str) (c : Char) :
    numeral base (s ++ [c]) = numeral base s * base + (digitValue c).getD 0 := by
  rw [numeral, List.foldl_append]
  rfl

theorem digitValue_digitChar (small : d < 16) : digitValue d.digitChar = some d := by
  have all : ∀ d : Fin 16, digitValue (Nat.digitChar d) = some d.val := by decide
  exact all ⟨d, small⟩

theorem isDigitOf_digitChar (digit : d < base) (small : base ≤ 16) :
    isDigitOf base d.digitChar = true := by
  rw [isDigitOf, digitValue_digitChar (by omega)]
  exact decide_eq_true digit

/-- What is written is read back. -/
theorem numeral_toDigits (positive : 1 < base) (small : base ≤ 16) (n : Nat) :
    numeral base (Nat.toDigits base n) = n := by
  induction n using Nat.base_induction base positive with
  | single m digit =>
      rw [Nat.toDigits_of_lt_base digit]
      change 0 * base + (digitValue m.digitChar).getD 0 = m
      rw [digitValue_digitChar (by omega)]
      simp
  | digit m k digit nonzero ih =>
      rw [← Nat.toDigits_append_toDigits positive nonzero digit, Nat.toDigits_of_lt_base digit,
        numeral_push, ih, digitValue_digitChar (by omega), Nat.mul_comm]
      rfl

theorem exists_of_mem_toDigits (positive : 1 < base) (found : c ∈ Nat.toDigits base n) :
    ∃ d < base, c = d.digitChar := by
  induction n using Nat.base_induction base positive with
  | single m digit =>
      rw [Nat.toDigits_of_lt_base digit, List.mem_singleton] at found
      exact ⟨m, digit, found⟩
  | digit m k digit nonzero ih =>
      rw [← Nat.toDigits_append_toDigits positive nonzero digit, Nat.toDigits_of_lt_base digit,
        List.mem_append, List.mem_singleton] at found
      obtain front | last := found
      · exact ih front
      · exact ⟨k, digit, last⟩

theorem isDigitOf_of_mem_toDigits (positive : 1 < base) (small : base ≤ 16)
    (found : c ∈ Nat.toDigits base n) : isDigitOf base c = true := by
  obtain ⟨d, digit, rfl⟩ := exists_of_mem_toDigits positive found
  exact isDigitOf_digitChar digit small

theorem separated_cons {sep : Char} {ns : List Nat} (nonempty : ns ≠ []) :
    separated base sep (n :: ns) = Nat.toDigits base n ++ sep :: separated base sep ns := by
  cases ns with
  | nil => exact absurd rfl nonempty
  | cons m ms => rfl

theorem separated_ne_nil {sep : Char} {ns : List Nat} (nonempty : ns ≠ []) :
    separated base sep ns ≠ [] := by
  match ns, nonempty with
  | [n], _ => exact Nat.toDigits_ne_nil
  | n :: m :: ms, _ =>
      rw [separated_cons (List.cons_ne_nil m ms)]
      simp

/-- A numeral is read up to the first character that is no digit. -/
theorem fromChars_toDigits {max : Nat} (positive : 1 < base) (small : base ≤ 16) (bound : n ≤ max)
    {rest : Str} (ending : ∀ c cs, rest = c :: cs → isDigitOf base c = false) :
    fromChars base max (Nat.toDigits base n ++ rest) = ⟨.none, n, rest⟩ := by
  have digits : ∀ c ∈ Nat.toDigits base n, isDigitOf base c = true :=
    fun c found => isDigitOf_of_mem_toDigits positive small found
  obtain ⟨taken, left⟩ := Text.takeWhile_append_stop digits ending
  rw [fromChars, taken, left, if_neg Nat.toDigits_ne_nil, numeral_toDigits positive small,
    if_pos bound]

/-- The first digit of a numeral is zero only for the number zero. -/
theorem toDigits_eq_zero_cons (positive : 1 < base) {rest : Str}
    (zero : Nat.toDigits base n = '0' :: rest) : n = 0 ∧ rest = [] := by
  induction n using Nat.base_induction base positive generalizing rest with
  | single m digit =>
      rw [Nat.toDigits_of_lt_base digit] at zero
      obtain ⟨first, rest⟩ := List.cons.inj zero
      exact ⟨Nat.digitChar_eq_zero.mp first, rest.symm⟩
  | digit m k digit nonzero ih =>
      rw [← Nat.toDigits_append_toDigits positive nonzero digit] at zero
      cases front : Nat.toDigits base m with
      | nil => exact absurd front Nat.toDigits_ne_nil
      | cons c cs =>
          rw [front, List.cons_append] at zero
          obtain ⟨rfl, -⟩ := List.cons.inj zero
          exact absurd (ih front).1 (by omega)

/-- A numeral in decimal digits without a leading zero is the one its value is
written as. -/
theorem toDigits_numeral (nonempty : digits ≠ [])
    (decimal : ∀ c ∈ digits, '0' ≤ c ∧ c ≤ '9')
    (leading : ∀ rest, digits = '0' :: rest → rest = []) :
    Nat.toDigits 10 (numeral 10 digits) = digits := by
  have digit : ∀ c : Char, '0' ≤ c ∧ c ≤ '9' →
      ∃ d < 10, digitValue c = some d ∧ d.digitChar = c := by
    rintro c ⟨lower, upper⟩
    have all : ∀ d : Fin 10, (Nat.digitChar d).toNat = 48 + d.val := by decide
    have low : 48 ≤ c.toNat := lower
    have high : c.toNat ≤ 57 := upper
    refine ⟨c.toNat - 48, by omega, if_pos ⟨lower, upper⟩, ?_⟩
    have code := all ⟨c.toNat - 48, by omega⟩
    apply Char.toNat_inj.mp
    simp only at code
    omega
  induction digits using List.reverseRecOn with
  | nil => exact absurd rfl nonempty
  | append_singleton digits c ih =>
      obtain ⟨front, last⟩ := List.forall_mem_append.mp decimal
      obtain ⟨d, bound, value, char⟩ := digit c (last c List.mem_cons_self)
      rw [numeral_push, value, Option.getD_some]
      by_cases empty : digits = []
      · rw [empty, numeral_nil, Nat.zero_mul, Nat.zero_add, Nat.toDigits_of_lt_base bound, char]
        rfl
      · have start : ∀ rest, digits = '0' :: rest → False := by
          rintro rest rfl
          have whole := leading (rest ++ [c]) rfl
          simp at whole
        have numerals := ih empty front fun rest shape => (start rest shape).elim
        have nonzero : 0 < numeral 10 digits := by
          rw [Nat.pos_iff_ne_zero]
          intro zero
          rw [zero] at numerals
          exact start [] numerals.symm
        rw [Nat.mul_comm, ← Nat.toDigits_append_toDigits (by decide) nonzero bound, numerals,
          Nat.toDigits_of_lt_base bound, char]

end Numerals
