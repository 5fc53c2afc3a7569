import Mux.Library.OrderedInsertion
import Mux.Library.Text
import Mathlib.Tactic.Ring

/-!
# Punycode

The ASCII text of an internationalized label: first its ASCII characters, then a
hyphen, then one number for each other character, which says where the character
is inserted. The characters are inserted in the order of their code points. A
number is written in digits to the base 36, the lowest first, and ends at the
first digit below a threshold that follows the numbers before it.

Both directions give up instead of letting a 32-bit number overflow. For a label
of up to 1927 code points that never happens, and a longer label can be written
as a text that cannot be read.
-/

namespace Mux.Ada

open Text OrderedInsertion

namespace Punycode

def base : Nat := 36
def tmin : Nat := 1
def tmax : Nat := 26
def skew : Nat := 38
def damp : Nat := 700
def initial_bias : Nat := 72
def initial_n : Nat := 128

/-- The largest value of a signed 32-bit number. -/
def maxInt : Nat := 0x7fffffff

/-- The value of a digit, or nothing in place of `-1`. -/
def charToDigitValue (value : Char) : Option Nat :=
  if 'a' ≤ value && value ≤ 'z' then some (value.toNat - 'a'.toNat)
  else if '0' ≤ value && value ≤ '9' then some (value.toNat - '0'.toNat + 26)
  else none

def digitToChar (digit : Nat) : Char :=
  if digit < 26 then Char.ofNat (digit + 97) else Char.ofNat (digit + 22)

/-- The loop of `adapt`; `d` bounds the number of its rounds. -/
def adaptLoop : Nat → Nat → Nat → Nat
  | 0, d, k => k + (base - tmin + 1) * d / (d + skew)
  | rounds + 1, d, k =>
      if (base - tmin) * tmax / 2 < d then adaptLoop rounds (d / (base - tmin)) (k + base)
      else k + (base - tmin + 1) * d / (d + skew)

def adapt (d n : Nat) (firsttime : Bool) : Nat :=
  let d := if firsttime then d / damp else d / 2
  let d := d + d / n
  adaptLoop d d 0

/-- `k <= bias ? tmin : k >= bias + tmax ? tmax : k - bias` -/
def threshold (k bias : Nat) : Nat :=
  if k ≤ bias then tmin else if bias + tmax ≤ k then tmax else k - bias

/-! ## Reading -/

/-- One number, added to `i`, and the text behind it. -/
def readNumber (bias : Nat) : Nat → Nat → Nat → Str → Option (Nat × Str)
  | _, _, _, [] => none
  | k, w, i, code_point :: input =>
      match charToDigitValue code_point with
      | none => none
      | some digit =>
          if (maxInt - i) / w < digit then none
          else
            let t := threshold k bias
            if digit < t then some (i + digit * w, input)
            else if maxInt / (base - t) < w then none
            else readNumber bias (k + base) (w * (base - t)) (i + digit * w) input

/-- What `punycode_to_utf32` keeps from one number to the next. The length of `out`
is its counter `written_out`. -/
structure Reader where
  n : Nat
  i : Nat
  bias : Nat
  out : List Nat
  deriving DecidableEq, Repr

/-- One round of the outer loop. -/
def Reader.insertNext (reader : Reader) (input : Str) : Option (Reader × Str) :=
  match readNumber reader.bias base 1 reader.i input with
  | none => none
  | some (i, input) =>
      let places := reader.out.length + 1
      let bias := adapt (i - reader.i) places (reader.i == 0)
      if maxInt - reader.n < i / places then none
      else
        let n := reader.n + i / places
        let i := i % places
        if n < 0x80 then none
        else some ({ n := n, i := i + 1, bias := bias, out := reader.out.insertIdx i n }, input)

/-- The outer loop; every round takes at least one character. -/
def Reader.loop : Nat → Reader → Str → Option (List Nat)
  | 0, reader, input => if input = [] then some reader.out else none
  | fuel + 1, reader, input =>
      if input = [] then some reader.out
      else match reader.insertNext input with
        | none => none
        | some (reader, input) => Reader.loop fuel reader input

def Reader.start (ascii : List Nat) : Reader :=
  { n := initial_n, i := 0, bias := initial_bias, out := ascii }

/-- The code points of a label, or nothing if the function returns `false`. -/
def punycodeToUtf32 (input : Str) : Option (List Nat) :=
  match rfind '-' input with
  | none => Reader.loop input.length (.start []) input
  | some end_of_ascii =>
      let ascii := (input.take end_of_ascii).map Char.toNat
      let input := input.drop (end_of_ascii + 1)
      if ascii.any (0x80 ≤ ·) then none else Reader.loop input.length (.start ascii) input

/-- What `verify_punycode` keeps: a counter in place of the code points. -/
structure Verifier where
  written_out : Nat
  n : Nat
  i : Nat
  bias : Nat
  deriving DecidableEq, Repr

/-- One round of the outer loop. -/
def Verifier.passNext (verifier : Verifier) (input : Str) : Option (Verifier × Str) :=
  match readNumber verifier.bias base 1 verifier.i input with
  | none => none
  | some (i, input) =>
      let places := verifier.written_out + 1
      let bias := adapt (i - verifier.i) places (verifier.i == 0)
      if maxInt - verifier.n < i / places then none
      else
        let n := verifier.n + i / places
        let i := i % places
        if n < 0x80 then none
        else some ({ written_out := places, n := n, i := i + 1, bias := bias }, input)

/-- The outer loop; every round takes at least one character. -/
def Verifier.loop : Nat → Verifier → Str → Bool
  | 0, _, input => input = []
  | fuel + 1, verifier, input =>
      if input = [] then true
      else match verifier.passNext input with
        | none => false
        | some (verifier, input) => Verifier.loop fuel verifier input

def Verifier.start (written_out : Nat) : Verifier :=
  { written_out := written_out, n := initial_n, i := 0, bias := initial_bias }

def verifyPunycode (input : Str) : Bool :=
  match rfind '-' input with
  | none => Verifier.loop input.length (.start 0) input
  | some end_of_ascii =>
      let ascii := input.take end_of_ascii
      let input := input.drop (end_of_ascii + 1)
      if ascii.any (0x80 ≤ ·.toNat) then false
      else Verifier.loop input.length (.start ascii.length) input

/-! ## Writing -/

/-- One number; `rounds` bounds the number of its digits behind the first. -/
def writeNumber (bias : Nat) : Nat → Nat → Nat → Str
  | 0, _, q => [digitToChar q]
  | rounds + 1, k, q =>
      let t := threshold k bias
      if q < t then [digitToChar q]
      else digitToChar (t + (q - t) % (base - t)) ::
        writeNumber bias rounds (k + base) ((q - t) / (base - t))

/-- What `utf32_to_punycode` keeps from one code point to the next. -/
structure Writer where
  d : Nat
  bias : Nat
  h : Nat
  out : Str
  deriving DecidableEq, Repr

/-- The body of the inner loop, for the code points equal to `n`. -/
def Writer.visit (b n : Nat) (writer : Writer) (c : Nat) : Option Writer :=
  if c < n then
    if writer.d = maxInt then none else some { writer with d := writer.d + 1 }
  else if c = n then
    some { d := 0, bias := adapt writer.d (writer.h + 1) (writer.h == b), h := writer.h + 1,
           out := writer.out ++ writeNumber writer.bias writer.d base writer.d }
  else some writer

/-- The smallest code point from `n` on. -/
def leastFrom (n : Nat) (input : List Nat) : Nat :=
  input.foldl (fun m code_point => if n ≤ code_point && code_point < m then code_point else m)
    0x10FFFF

/-- One round of the outer loop, which leaves the next `n`. -/
def Writer.round (input : List Nat) (b n : Nat) (writer : Writer) : Option (Nat × Writer) :=
  let m := leastFrom n input
  if (maxInt - writer.d) / (writer.h + 1) < m - n then none
  else
    let d := writer.d + (m - n) * (writer.h + 1)
    match input.foldlM (Writer.visit b m) { writer with d := d } with
    | none => none
    | some writer => some (m + 1, { writer with d := writer.d + 1 })

/-- The outer loop; every round writes at least one code point. -/
def Writer.loop (input : List Nat) (b : Nat) : Nat → Nat → Writer → Option Str
  | 0, _, writer => if writer.h < input.length then none else some writer.out
  | fuel + 1, n, writer =>
      if writer.h < input.length then
        match writer.round input b n with
        | none => none
        | some (n, writer) => Writer.loop input b fuel n writer
      else some writer.out

/-- A code point that is written, as the function tests it. -/
def accepted (c : Nat) : Bool := !(0x10ffff < c || (0xd880 ≤ c && c < 0xe000))

/-- The text of a label, or nothing if the function returns `false`. -/
def utf32ToPunycode (input : List Nat) : Option Str :=
  let ascii := (input.filter (· < 0x80)).map Char.ofNat
  let out := if ascii = [] then [] else ascii ++ ['-']
  if input.all accepted then
    Writer.loop input ascii.length input.length initial_n
      { d := 0, bias := initial_bias, h := ascii.length, out := out }
  else none

/-! ## Numbers -/

section Numbers

variable {bias k w i q d n : Nat}

theorem charToDigitValue_digitToChar (digit : Nat) (small : digit < base) :
    charToDigitValue (digitToChar digit) = some digit := by
  have all : ∀ digit : Fin 36,
      charToDigitValue (digitToChar digit.val) = some digit.val := by decide
  exact all ⟨digit, small⟩

theorem threshold_bounds (k bias : Nat) : tmin ≤ threshold k bias ∧ threshold k bias ≤ tmax := by
  rw [threshold, tmin, tmax]
  split
  · omega
  · split <;> omega

theorem threshold_high (high : bias + tmax ≤ k) : threshold k bias = tmax := by
  have above : ¬ k ≤ bias := by rw [tmax] at high; omega
  rw [threshold, if_neg above, if_pos high]

theorem adaptLoop_le (divisions rounds : Nat) {d : Nat} (bound : d < 456 * 35 ^ divisions)
    (k : Nat) : adaptLoop rounds d k ≤ k + 36 * divisions + 36 := by
  have last (d k : Nat) : k + (base - tmin + 1) * d / (d + skew) ≤ k + 36 := by
    refine Nat.add_le_add_left (Nat.div_le_of_le_mul ?_) k
    rw [base, tmin, skew, Nat.mul_comm]
    exact Nat.mul_le_mul_right 36 (Nat.le_add_right d 38)
  induction rounds generalizing divisions d k with
  | zero => exact Nat.le_trans (last d k) (by omega)
  | succ rounds ih =>
      rw [adaptLoop]
      split
      · next large =>
          cases divisions with
          | zero => exact absurd large (by rw [base, tmin, tmax]; omega)
          | succ divisions =>
              have smaller : d / (base - tmin) < 456 * 35 ^ divisions := by
                rw [Nat.div_lt_iff_lt_mul (by decide), base, tmin, Nat.mul_assoc, ← Nat.pow_succ]
                exact bound
              have onward := ih divisions smaller (k + base)
              rw [base] at onward ⊢
              omega
      · exact Nat.le_trans (last d k) (by omega)

/-- The thresholds of the seventh digit and of all digits behind it are the largest. -/
theorem adapt_le (bound : d ≤ maxInt) (n : Nat) (firsttime : Bool) :
    adapt d n firsttime ≤ 226 := by
  have half : (if firsttime then d / damp else d / 2) ≤ d / 2 := by
    rw [damp]
    split <;> omega
  have share := Nat.div_le_self (if firsttime then d / damp else d / 2) n
  rw [maxInt] at bound
  refine Nat.le_trans (adaptLoop_le 5 _ ?_ 0) (by decide)
  omega

/-- A number is read as it was written, whatever stands behind it: the weight of a
digit is small enough, or the threshold at the digit is the largest one. -/
theorem readNumber_writeNumber (low : bias ≤ 226) {rounds j : Nat} (at_digit : k = base * (j + 1))
    (positive : 0 < w) (light : w ≤ 35 ^ j ∨ 6 ≤ j) (enough : q ≤ rounds)
    (fits : i + q * w ≤ maxInt) (more : Str) :
    readNumber bias k w i (writeNumber bias rounds k q ++ more) = some (i + q * w, more) := by
  induction rounds generalizing k w i q j with
  | zero =>
      obtain rfl : q = 0 := Nat.le_zero.mp enough
      have digit : charToDigitValue (digitToChar 0) = some 0 := rfl
      have ends : 0 < threshold k bias := (threshold_bounds k bias).1
      simp only [writeNumber, List.cons_append, List.nil_append, readNumber, digit]
      rw [if_neg (Nat.not_lt_zero _), if_pos ends]
  | succ rounds ih =>
      obtain ⟨lower, upper⟩ := threshold_bounds k bias
      have room {digit : Nat} (part : digit ≤ q) : ¬ (maxInt - i) / w < digit := by
        have smaller := Nat.mul_le_mul_right w part
        rw [Nat.not_lt, Nat.le_div_iff_mul_le positive]
        omega
      -- the weight of the next digit stays in range, as far as there is one
      have heavy (more_digits : threshold k bias ≤ q) :
          w * (base - threshold k bias) ≤ maxInt := by
        by_cases early : j < 6
        · have small : w ≤ 35 ^ j := light.resolve_right (by omega)
          calc w * (base - threshold k bias)
              ≤ 35 ^ j * 35 := Nat.mul_le_mul small (by rw [base]; rw [tmin] at lower; omega)
            _ ≤ 35 ^ 5 * 35 := Nat.mul_le_mul_right 35 (Nat.pow_le_pow_right (by decide) (by omega))
            _ ≤ maxInt := by decide
        · have largest : threshold k bias = tmax := by
            apply threshold_high
            rw [at_digit, base, tmax]
            omega
          rw [largest] at more_digits ⊢
          calc w * (base - tmax)
              ≤ w * q := Nat.mul_le_mul_left w (Nat.le_trans (by decide) more_digits)
            _ = q * w := Nat.mul_comm w q
            _ ≤ maxInt := by omega
      rw [writeNumber]
      split
      · next last =>
          have digit := charToDigitValue_digitToChar q
            (Nat.lt_trans (Nat.lt_of_lt_of_le last upper) (by decide))
          simp only [List.cons_append, List.nil_append, readNumber, digit]
          rw [if_neg (room le_rfl), if_pos last]
      · next more_digits =>
          rw [Nat.not_lt] at more_digits
          have wide : 0 < base - threshold k bias := by rw [base]; rw [tmax] at upper; omega
          have split := Nat.mod_add_div (q - threshold k bias) (base - threshold k bias)
          have remainder := Nat.mod_lt (q - threshold k bias) wide
          have fewer : (q - threshold k bias) / (base - threshold k bias) ≤ q - threshold k bias :=
            Nat.div_le_self _ _
          have light' : w * (base - threshold k bias) ≤ 35 ^ (j + 1) ∨ 6 ≤ j + 1 := by
            refine light.imp (fun small => ?_) (by omega)
            rw [Nat.pow_succ]
            exact Nat.mul_le_mul small (by rw [base]; rw [tmin] at lower; omega)
          have heavy := heavy more_digits
          have room := @room
          generalize (q - threshold k bias) % (base - threshold k bias) = r at split remainder ⊢
          generalize (q - threshold k bias) / (base - threshold k bias) = q' at split fewer ⊢
          have value :
              (threshold k bias + r) * w + q' * (w * (base - threshold k bias)) = q * w := by
            have whole : q = threshold k bias + r + (base - threshold k bias) * q' := by omega
            conv_rhs => rw [whole]
            ring
          have digit := charToDigitValue_digitToChar (threshold k bias + r) (by omega)
          simp only [List.cons_append, readNumber, digit]
          rw [if_neg (room (by omega)), if_neg (by omega),
            if_neg (Nat.not_lt.mpr ((Nat.le_div_iff_mul_le wide).mpr heavy)),
            ih (j := j + 1) (by rw [at_digit, ← Nat.mul_succ]) (Nat.mul_pos positive wide) light'
              (by rw [tmin] at lower; omega) (by omega)]
          congr 2
          omega


theorem mem_writeNumber {c : Char} {rounds : Nat} (digits : q < base ∨ q ≤ rounds)
    (found : c ∈ writeNumber bias rounds k q) : ∃ digit < base, c = digitToChar digit := by
  induction rounds generalizing k q with
  | zero =>
      rw [writeNumber, List.mem_singleton] at found
      exact ⟨q, by rw [base] at digits ⊢; omega, found⟩
  | succ rounds ih =>
      obtain ⟨lower, upper⟩ := threshold_bounds k bias
      rw [writeNumber] at found
      rw [tmin, tmax] at *
      split at found
      · next last =>
          rw [List.mem_singleton] at found
          exact ⟨q, by rw [base]; omega, found⟩
      · next more_digits =>
          have wide : 0 < base - threshold k bias := by rw [base]; omega
          have remainder := Nat.mod_lt (q - threshold k bias) wide
          obtain rfl | behind := List.mem_cons.mp found
          · exact ⟨_, by omega, rfl⟩
          · have fewer := Nat.div_le_self (q - threshold k bias) (base - threshold k bias)
            exact ih (by omega) behind

end Numbers

/-! ## The round trip -/

theorem hyphen_not_mem_writeNumber {bias d : Nat} : '-' ∉ writeNumber bias d base d := by
  intro found
  obtain ⟨digit, small, same⟩ := mem_writeNumber (.inr le_rfl) found
  have all : ∀ digit : Fin 36, '-' ≠ digitToChar digit.val := by decide
  exact all ⟨digit, small⟩ same

section Reading

theorem length_readNumber {bias k w i i' : Nat} {input rest : Str}
    (read : readNumber bias k w i input = some (i', rest)) : rest.length < input.length := by
  induction input generalizing k w i with
  | nil => cases read
  | cons c input ih =>
      rw [readNumber] at read
      split at read
      · cases read
      · split at read
        · cases read
        · dsimp only at read
          split at read
          · obtain ⟨-, rfl⟩ := Prod.mk.inj (Option.some.inj read)
            exact Nat.lt_succ_self _
          · split at read
            · cases read
            · exact Nat.lt_succ_of_lt (ih read)

namespace Reader

variable {reader next : Reader} {input rest : Str}

theorem length_insertNext (step : reader.insertNext input = some (next, rest)) :
    rest.length < input.length := by
  rw [insertNext] at step
  split at step
  · cases step
  · next i behind read =>
      have shorter := length_readNumber read
      dsimp only at step
      split at step
      · cases step
      · split at step
        · cases step
        · obtain ⟨-, rfl⟩ := Prod.mk.inj (Option.some.inj step)
          exact shorter

/-- A round for each character is enough. -/
theorem loop_of_le {fuel : Nat} (enough : input.length ≤ fuel) :
    loop fuel reader input = loop input.length reader input := by
  induction fuel using Nat.strong_induction_on generalizing reader input with
  | _ fuel ih =>
      by_cases empty : input = []
      · subst empty
        cases fuel <;> rfl
      · have some_text := List.length_pos_iff.mpr empty
        obtain ⟨fuel, rfl⟩ := Nat.exists_eq_add_of_lt (Nat.lt_of_lt_of_le some_text enough)
        obtain ⟨length, same⟩ := Nat.exists_eq_add_of_lt some_text
        rw [Nat.zero_add] at same ⊢
        rw [same, loop, loop, if_neg empty, if_neg empty]
        cases step : reader.insertNext input with
        | none => rfl
        | some state =>
            have shorter : state.2.length < input.length := length_insertNext step
            have enough' : state.2.length ≤ fuel := by omega
            have exact_length : state.2.length ≤ length := by omega
            exact (ih fuel (by omega) enough').trans (ih length (by omega) exact_length).symm

/-- What is read from a state on. -/
def read (reader : Reader) (input : Str) : Option (List Nat) := loop input.length reader input

@[simp] theorem read_nil : reader.read [] = some reader.out := rfl

theorem read_insertNext (step : reader.insertNext input = some (next, rest)) :
    reader.read input = next.read rest := by
  have shorter := length_insertNext step
  obtain ⟨length, same⟩ := Nat.exists_eq_add_of_lt (Nat.zero_lt_of_lt shorter)
  rw [Nat.zero_add] at same
  have some_text : input ≠ [] := List.length_pos_iff.mp (by omega)
  rw [read, same, loop, if_neg some_text, step]
  exact loop_of_le (by omega)

/-- The number that leads to an element and its position inserts the element there. -/
theorem insertNext_writeNumber {m position d : Nat} (low : reader.bias ≤ 226)
    (above : 0x80 ≤ reader.n) (fits : position ≤ reader.out.length)
    (count : reader.n * (reader.out.length + 1) + reader.i + d =
      m * (reader.out.length + 1) + position)
    (small : reader.i + d ≤ maxInt) (bound : m ≤ maxInt) (more : Str) :
    reader.insertNext (writeNumber reader.bias d base d ++ more) =
      some ({ n := m, i := position + 1,
              bias := adapt d (reader.out.length + 1) (reader.i == 0),
              out := reader.out.insertIdx position m }, more) := by
  obtain ⟨next, place⟩ := position_spec fits count
  have grows : reader.n ≤ m := next ▸ Nat.le_add_right _ _
  have number : readNumber reader.bias base 1 reader.i (writeNumber reader.bias d base d ++ more) =
      some (reader.i + d * 1, more) :=
    readNumber_writeNumber low (j := 0) rfl Nat.one_pos (.inl le_rfl) le_rfl (by omega) more
  rw [insertNext, number]
  dsimp only
  rw [Nat.mul_one, next, place, if_neg (by omega), if_neg (by omega), Nat.add_sub_cancel_left]

/-- What the verifier keeps of a reader. -/
def verifier (reader : Reader) : Verifier :=
  { written_out := reader.out.length, n := reader.n, i := reader.i, bias := reader.bias }

/-- The verifier takes the numbers that the reader takes. -/
theorem passNext_verifier : reader.verifier.passNext input =
    (reader.insertNext input).map fun state => (state.1.verifier, state.2) := by
  have place (i : Nat) : i % (reader.out.length + 1) ≤ reader.out.length :=
    Nat.le_of_lt_succ (Nat.mod_lt i (Nat.succ_pos _))
  rw [Verifier.passNext, insertNext, verifier]
  dsimp only
  split
  · rfl
  · split
    · rfl
    · split
      · rfl
      · simp [verifier, List.length_insertIdx_of_le_length (place _)]

theorem loop_verifier (fuel : Nat) (reader : Reader) (input : Str) :
    Verifier.loop fuel reader.verifier input = (loop fuel reader input).isSome := by
  induction fuel generalizing reader input with
  | zero =>
      rw [Verifier.loop, loop]
      split <;> simp [*]
  | succ fuel ih =>
      rw [Verifier.loop, loop, passNext_verifier]
      split
      · rfl
      · cases reader.insertNext input with
        | none => rfl
        | some state => exact ih _ _

end Reader

/-- The verifier accepts the texts that can be read. -/
theorem verifyPunycode_eq (input : Str) :
    verifyPunycode input = (punycodeToUtf32 input).isSome := by
  rw [verifyPunycode, punycodeToUtf32]
  split
  · exact Reader.loop_verifier _ (.start []) _
  · next end_of_ascii _ =>
      have same : ((input.take end_of_ascii).map Char.toNat).any (0x80 ≤ ·) =
          (input.take end_of_ascii).any (0x80 ≤ ·.toNat) := List.any_map
      have length : ((input.take end_of_ascii).map Char.toNat).length =
          (input.take end_of_ascii).length := List.length_map Char.toNat
      dsimp only
      rw [same, ← length]
      split
      · rfl
      · exact Reader.loop_verifier _ (.start _) _

end Reading

section RoundTrip

variable {input front rest : List Nat} {lead : Str} {start : Reader} {b m n c : Nat}

/-- A label that both directions can deal with. -/
def Short (input : List Nat) : Prop := input.length ≤ 1927 ∧ ∀ c ∈ input, accepted c = true

/-- The reader that has read what the writer wrote for the code points below `m`
and for those equal to `m` in the front. What the writer counted since then leads
from the last insertion to the next one. -/
structure Tracks (lead : Str) (start : Reader) (b m : Nat) (front rest : List Nat)
    (writer : Writer) (reader : Reader) : Prop where
  out : reader.out = placed m front rest
  h : writer.h = reader.out.length
  count : reader.n * (reader.out.length + 1) + reader.i + writer.d =
    m * (reader.out.length + 1) + (front.filter fun c => decide (c ≤ m)).length
  above : 0x80 ≤ reader.n
  bias : reader.bias = writer.bias
  low : writer.bias ≤ 226
  first : reader.i = 0 ↔ writer.h = b
  ascii : b ≤ writer.h
  text : ∃ text, writer.out = lead ++ text ∧ '-' ∉ text ∧
    ∀ more, start.read (text ++ more) = reader.read more

namespace Tracks

variable {writer : Writer} {reader : Reader}

/-- The count stays in range while an element equal to `m` is missing, and it is
small when there was one. -/
theorem in_range (tracks : Tracks lead start b m front rest writer reader)
    (short : (front ++ rest).length ≤ 1927) (bound : m ≤ 0x10FFFF)
    (pending : reader.n = m ∨ m ∈ rest) : reader.i + writer.d < maxInt := by
  have fits := length_filter_le_placed m front rest
  have length : (placed m front rest).length ≤ (front ++ rest).length := by
    have one := List.length_filter_le (fun c => decide (c ≤ m)) front
    have two := List.length_filter_le (fun c => decide (c < m)) rest
    rw [placed, List.length_append, List.length_append]
    omega
  have count := tracks.count
  have above := tracks.above
  rw [tracks.out] at count
  rw [maxInt]
  obtain same | missing := pending
  · rw [same] at count
    omega
  · have fewer := length_placed_lt front missing
    have few : (placed m front rest).length + 1 ≤ 1927 := by omega
    have inside := Nat.lt_succ_of_le fits
    generalize (placed m front rest).length + 1 = places at count few inside
    have upper : m * places ≤ 0x10FFFF * places := Nat.mul_le_mul_right places bound
    have lower : 0x80 * places ≤ reader.n * places := Nat.mul_le_mul_right places above
    omega

/-- A code point is counted, written or left for later. -/
theorem visit (tracks : Tracks lead start b m front (c :: rest) writer reader)
    (short : (front ++ c :: rest).length ≤ 1927) (bound : m ≤ 0x10FFFF)
    (pending : reader.n = m ∨ m ∈ c :: rest) :
    ∃ writer' reader', writer.visit b m c = some writer' ∧
      Tracks lead start b m (front ++ [c]) rest writer' reader' ∧
      (reader'.n = m ∨ m ∈ rest) := by
  have range := tracks.in_range short bound pending
  obtain smaller | rfl | larger := Nat.lt_trichotomy c m
  · have later : reader.n = m ∨ m ∈ rest :=
      pending.imp_right fun found => (List.mem_cons.mp found).resolve_left smaller.ne'
    refine ⟨{ writer with d := writer.d + 1 }, reader, ?_, ?_, later⟩
    · rw [Writer.visit, if_pos smaller, if_neg (by omega)]
    · exact { tracks with
        out := by rw [placed_smaller smaller]; exact tracks.out
        count := by
          have count := tracks.count
          simp only [List.filter_append, List.length_append, List.filter_cons, smaller.le,
            decide_true, if_true, List.filter_nil, List.length_singleton]
          omega }
  · have fits := length_filter_le_placed c front (c :: rest)
    have count := tracks.count
    rw [← tracks.out] at fits
    have written := Reader.insertNext_writeNumber (tracks.bias ▸ tracks.low) tracks.above fits
      count range.le (Nat.le_trans bound (by decide))
    have counted : (reader.i == 0) = (writer.h == b) := by
      rw [Bool.eq_iff_iff, beq_iff_eq, beq_iff_eq]
      exact tracks.first
    have length : (reader.out.insertIdx (front.filter fun d => decide (d ≤ c)).length c).length =
        reader.out.length + 1 := List.length_insertIdx_of_le_length fits c
    rw [tracks.bias, counted, ← tracks.h] at written
    have passed : 0x80 ≤ c :=
      Nat.le_trans tracks.above ((position_spec fits count).1 ▸ Nat.le_add_right _ _)
    have visited : writer.visit b c c = some
        { d := 0, bias := adapt writer.d (writer.h + 1) (writer.h == b), h := writer.h + 1,
          out := writer.out ++ writeNumber writer.bias writer.d base writer.d } := by
      rw [Writer.visit, if_neg (lt_irrefl c), if_pos rfl]
    refine ⟨_,
      { n := c, i := (front.filter fun d => decide (d ≤ c)).length + 1,
        bias := adapt writer.d (writer.h + 1) (writer.h == b),
        out := reader.out.insertIdx (front.filter fun d => decide (d ≤ c)).length c },
      visited, ?_, .inl rfl⟩
    exact {
      out := by rw [placed_equal, ← tracks.out]
      h := by rw [length, tracks.h]
      count := by simp
      above := passed
      bias := rfl
      low := adapt_le (by omega) _ _
      first := by
        have ascii := tracks.ascii
        refine ⟨fun none => absurd none (Nat.succ_ne_zero _), fun same => ?_⟩
        dsimp only at same
        omega
      ascii := Nat.le_succ_of_le tracks.ascii
      text := by
        obtain ⟨text, out, no_hyphen, before⟩ := tracks.text
        refine ⟨text ++ writeNumber writer.bias writer.d base writer.d, ?_, ?_, fun more => ?_⟩
        · rw [out, List.append_assoc]
        · rw [List.mem_append, not_or]
          exact ⟨no_hyphen, hyphen_not_mem_writeNumber⟩
        · rw [List.append_assoc, before]
          exact Reader.read_insertNext (written more) }
  · have later : reader.n = m ∨ m ∈ rest :=
      pending.imp_right fun found => (List.mem_cons.mp found).resolve_left larger.ne
    refine ⟨writer, reader, ?_, ?_, later⟩
    · rw [Writer.visit, if_neg larger.not_gt, if_neg larger.ne']
    · exact { tracks with
        out := by rw [placed_larger larger]; exact tracks.out
        count := by
          have count := tracks.count
          simpa [List.filter_append, larger.not_ge] using count }

/-- A pass over the whole rest. -/
theorem visits (tracks : Tracks lead start b m front rest writer reader)
    (short : (front ++ rest).length ≤ 1927) (bound : m ≤ 0x10FFFF)
    (pending : reader.n = m ∨ m ∈ rest) :
    ∃ writer' reader', rest.foldlM (Writer.visit b m) writer = some writer' ∧
      Tracks lead start b m (front ++ rest) [] writer' reader' := by
  induction rest generalizing front writer reader with
  | nil => exact ⟨writer, reader, rfl, by rwa [List.append_nil]⟩
  | cons c rest ih =>
      obtain ⟨writer', reader', visited, tracks', later⟩ := tracks.visit short bound pending
      have same : front ++ c :: rest = front ++ [c] ++ rest := by simp
      rw [same] at short ⊢
      obtain ⟨last, reader'', passed, finished⟩ := ih tracks' short later
      refine ⟨last, reader'', ?_, finished⟩
      rw [List.foldlM_cons, visited]
      exact passed

end Tracks

theorem le_of_accepted (valid : accepted c = true) : c ≤ 0x10FFFF := by
  rw [accepted, Bool.not_eq_true', Bool.or_eq_false_iff, decide_eq_false_iff_not] at valid
  exact Nat.le_of_not_lt valid.1

/-- The smallest code point that is not written yet. -/
theorem leastFrom_spec (bound : ∀ c ∈ input, c ≤ 0x10FFFF) (some_left : ∃ c ∈ input, n ≤ c) :
    leastFrom n input ∈ input ∧ n ≤ leastFrom n input ∧
      ∀ c ∈ input, n ≤ c → leastFrom n input ≤ c := by
  have scan (input : List Nat) (m : Nat) :
      let least := input.foldl
        (fun m code_point => if n ≤ code_point && code_point < m then code_point else m) m
      (least = m ∨ least ∈ input ∧ n ≤ least) ∧ least ≤ m ∧ ∀ c ∈ input, n ≤ c → least ≤ c := by
    induction input generalizing m with
    | nil => simp
    | cons c input ih =>
        obtain ⟨origin, small, least⟩ := ih (if n ≤ c && c < m then c else m)
        rw [List.foldl_cons]
        dsimp only at origin small least ⊢
        generalize input.foldl _ _ = r at origin small least ⊢
        grind
  obtain ⟨origin, -, least⟩ := scan input 0x10FFFF
  rw [← leastFrom] at origin least
  obtain same | ⟨found, reached⟩ := origin
  · obtain ⟨c, found, left⟩ := some_left
    have below := least c found left
    have top : leastFrom n input = c := Nat.le_antisymm below (same ▸ bound c found)
    exact ⟨top ▸ found, top ▸ left, least⟩
  · exact ⟨found, reached, least⟩

/-- A round, after the smallest code point and the pass over the label are known. -/
theorem Writer.round_of {d d' bias h : Nat} {out : Str} {writer : Writer}
    (least : leastFrom n input = m) (room : ¬ (maxInt - d) / (h + 1) < m - n)
    (count : d + (m - n) * (h + 1) = d')
    (passed : input.foldlM (Writer.visit b m) ⟨d', bias, h, out⟩ = some writer) :
    Writer.round input b n ⟨d, bias, h, out⟩ =
      some (m + 1, { writer with d := writer.d + 1 }) := by
  subst count
  rw [Writer.round, least, if_neg room]
  dsimp only
  rw [passed]

namespace Tracks

variable {writer : Writer} {reader : Reader}

/-- A round of the writer, which writes all copies of one code point. -/
theorem round (tracks : Tracks lead start b n [] input writer reader) (short : Short input)
    (left : writer.h < input.length) :
    ∃ m writer' reader', writer.round input b n = some (m, writer') ∧
      Tracks lead start b m [] input writer' reader' ∧ writer.h < writer'.h := by
  obtain ⟨size, valid⟩ := short
  have bound : ∀ c ∈ input, c ≤ 0x10FFFF := fun c found => le_of_accepted (valid c found)
  have some_left : ∃ c ∈ input, n ≤ c := by
    rw [tracks.h, tracks.out, placed, List.filter_nil, List.nil_append,
      List.length_filter_lt_length_iff_exists] at left
    simpa using left
  obtain ⟨found, after, least⟩ := leastFrom_spec bound some_left
  generalize chosen : leastFrom n input = m at found after least
  have onward : Tracks lead start b m [] input
      { writer with d := writer.d + (m - n) * (writer.h + 1) } reader := { tracks with
    out := by rw [tracks.out, placed_next least after]
    count := by
      have count := tracks.count
      have steps := Nat.sub_mul m n (reader.out.length + 1)
      have more := Nat.mul_le_mul_right (reader.out.length + 1) after
      rw [List.filter_nil, List.length_nil] at count ⊢
      change _ + (writer.d + (m - n) * (writer.h + 1)) = _
      rw [tracks.h]
      omega }
  have range := onward.in_range size (bound m found) (.inr found)
  have room : ¬ (maxInt - writer.d) / (writer.h + 1) < m - n := by
    change reader.i + (writer.d + (m - n) * (writer.h + 1)) < maxInt at range
    have places : 0 < writer.h + 1 := Nat.zero_lt_succ _
    rw [Nat.not_lt, Nat.le_div_iff_mul_le places]
    omega
  obtain ⟨writer', reader', passed, finished⟩ := onward.visits size (bound m found) (.inr found)
  rw [List.nil_append] at finished
  refine ⟨m + 1, { writer' with d := writer'.d + 1 }, reader',
    Writer.round_of chosen room rfl passed, ?_, ?_⟩
  · exact { finished with
      out := by rw [finished.out, placed_succ]
      count := by
        have count := finished.count
        have all : (input.filter fun c => decide (c ≤ m)).length = reader'.out.length := by
          rw [finished.out, placed, List.filter_nil, List.append_nil]
        have next := Nat.succ_mul m (reader'.out.length + 1)
        rw [all] at count
        rw [List.filter_nil, List.length_nil, next]
        change _ + (writer'.d + 1) = _
        omega }
  · have grows := length_placed_grows found
    rw [← finished.out, placed_next least after, ← tracks.out, ← tracks.h, ← finished.h] at grows
    exact grows

/-- All rounds: the whole label is written, and read. -/
theorem loop {fuel : Nat} (tracks : Tracks lead start b n [] input writer reader)
    (short : Short input) (enough : input.length ≤ writer.h + fuel) :
    ∃ text, Writer.loop input b fuel n writer = some (lead ++ text) ∧ '-' ∉ text ∧
      start.read text = some input := by
  have complete {n : Nat} {writer : Writer} {reader : Reader}
      (tracks : Tracks lead start b n [] input writer reader) (done : ¬ writer.h < input.length) :
      ∃ text, writer.out = lead ++ text ∧ '-' ∉ text ∧ start.read text = some input := by
    obtain ⟨text, written, no_hyphen, reads⟩ := tracks.text
    refine ⟨text, written, no_hyphen, ?_⟩
    have all : reader.out = input := by
      rw [tracks.h, Nat.not_lt] at done
      rw [tracks.out, placed, List.filter_nil, List.nil_append] at done ⊢
      exact List.filter_sublist.eq_of_length_le done
    have here := reads []
    rwa [List.append_nil, Reader.read_nil, all] at here
  induction fuel generalizing n writer reader with
  | zero =>
      obtain ⟨text, written, reads⟩ := complete tracks (by omega)
      exact ⟨text, by rw [Writer.loop, if_neg (by omega), written], reads⟩
  | succ fuel ih =>
      by_cases left : writer.h < input.length
      · obtain ⟨m, writer', reader', passed, tracks', more⟩ := tracks.round short left
        obtain ⟨text, finished, reads⟩ := ih tracks' (by omega)
        exact ⟨text, by rw [Writer.loop, if_pos left, passed]; exact finished, reads⟩
      · obtain ⟨text, written, reads⟩ := complete tracks left
        exact ⟨text, by rw [Writer.loop, if_neg left, written], reads⟩

end Tracks

theorem toNat_ofNat_ascii {c : Nat} (ascii : c < 0x80) : (Char.ofNat c).toNat = c := by
  have all : ∀ c : Fin 128, (Char.ofNat c.val).toNat = c.val := by decide
  exact all ⟨c, ascii⟩

/-- A label of up to 1927 code points is written, and its text is read as the label. -/
theorem punycodeToUtf32_utf32ToPunycode (short : Short input) :
    ∃ out, utf32ToPunycode input = some out ∧ punycodeToUtf32 out = some input := by
  obtain ⟨size, valid⟩ := short
  generalize letters : input.filter (fun c => decide (c < 0x80)) = codes
  have back : (codes.map Char.ofNat).map Char.toNat = codes := by
    rw [List.map_map]
    conv_rhs => rw [← List.map_id codes]
    refine List.map_congr_left fun c found => toNat_ofNat_ascii ?_
    rw [← letters] at found
    simpa using List.of_mem_filter found
  have only_ascii : codes.any (0x80 ≤ ·) = false := by
    rw [← letters, List.any_eq_false]
    intro c found
    have small := List.of_mem_filter found
    simpa using small
  generalize lead_eq : (if codes.map Char.ofNat = [] then [] else codes.map Char.ofNat ++ ['-']) =
    lead
  have tracks : Tracks lead (.start codes) (codes.map Char.ofNat).length initial_n [] input
      { d := 0, bias := initial_bias, h := (codes.map Char.ofNat).length, out := lead }
      (.start codes) :=
    { out := by rw [placed, List.filter_nil, List.nil_append]; exact letters.symm
      h := List.length_map _
      count := rfl
      above := le_rfl
      bias := rfl
      low := (by decide : initial_bias ≤ 226)
      first := ⟨fun _ => rfl, fun _ => rfl⟩
      ascii := le_rfl
      text := ⟨[], (List.append_nil _).symm, List.not_mem_nil, fun _ => rfl⟩ }
  obtain ⟨text, written, no_hyphen, reads⟩ := tracks.loop ⟨size, valid⟩ (Nat.le_add_left _ _)
  refine ⟨lead ++ text, ?_, ?_⟩
  · rw [utf32ToPunycode, if_pos (List.all_eq_true.mpr valid), letters, lead_eq]
    exact written
  · subst lead_eq
    split
    · next none =>
        rw [List.map_eq_nil_iff] at none
        rw [List.nil_append, punycodeToUtf32, rfind_eq_none no_hyphen]
        rwa [none] at reads
    · have behind : codes.map Char.ofNat ++ ['-'] ++ text =
          codes.map Char.ofNat ++ '-' :: text := by
        simp
      have rest : (codes.map Char.ofNat ++ '-' :: text).drop ((codes.map Char.ofNat).length + 1) =
          text := by
        rw [← List.drop_drop, List.drop_left, List.drop_one, List.tail_cons]
      rw [behind, punycodeToUtf32, rfind_append_cons no_hyphen]
      dsimp only
      rw [List.take_left, back, only_ascii, rest]
      exact reads

/-- What a run of the writer adds: digits, at least one for each code point. -/
def Extends (before after : Writer) : Prop :=
  ∃ text, after.out = before.out ++ text ∧ (∀ c ∈ text, ∃ digit < base, c = digitToChar digit) ∧
    after.h ≤ before.h + text.length

namespace Extends

variable {first second third : Writer}

theorem refl (writer : Writer) : Extends writer writer :=
  ⟨[], (List.append_nil _).symm, fun _ none => absurd none List.not_mem_nil, le_rfl⟩

theorem trans (one : Extends first second) (two : Extends second third) :
    Extends first third := by
  obtain ⟨text, out, digits, count⟩ := one
  obtain ⟨text', out', digits', count'⟩ := two
  refine ⟨text ++ text', by rw [out', out, List.append_assoc],
    List.forall_mem_append.mpr ⟨digits, digits'⟩, ?_⟩
  rw [List.length_append]
  omega

theorem visit (step : first.visit b n c = some second) : Extends first second := by
  rw [Writer.visit] at step
  split at step
  · split at step
    · cases step
    · obtain rfl := Option.some.inj step
      exact refl first
  · split at step
    · obtain rfl := Option.some.inj step
      have some_text : writeNumber first.bias first.d base first.d ≠ [] := by
        cases first.d with
        | zero => exact List.cons_ne_nil _ _
        | succ d =>
            rw [writeNumber]
            split <;> exact List.cons_ne_nil _ _
      have length := List.length_pos_iff.mpr some_text
      refine ⟨_, rfl, fun c found => mem_writeNumber (.inr le_rfl) found, ?_⟩
      dsimp only
      omega
    · obtain rfl := Option.some.inj step
      exact refl first

theorem visits (run : input.foldlM (Writer.visit b n) first = some second) :
    Extends first second := by
  induction input generalizing first with
  | nil => exact Option.some.inj run ▸ refl first
  | cons c input ih =>
      rw [List.foldlM_cons] at run
      obtain ⟨next, step, rest⟩ := Option.bind_eq_some_iff.mp run
      exact (visit step).trans (ih rest)

theorem loop {fuel : Nat} {out : Str} (run : Writer.loop input b fuel n first = some out) :
    ∃ last, Extends first last ∧ last.out = out ∧ input.length ≤ last.h := by
  induction fuel generalizing n first with
  | zero =>
      rw [Writer.loop] at run
      split at run
      · cases run
      · exact ⟨first, refl first, Option.some.inj run, by omega⟩
  | succ fuel ih =>
      rw [Writer.loop] at run
      split at run
      · split at run
        · cases run
        · next m next step =>
            obtain ⟨last, extends_last, rest⟩ := ih run
            refine ⟨last, trans ?_ extends_last, rest⟩
            rw [Writer.round] at step
            dsimp only at step
            split at step
            · cases step
            · split at step
              · cases step
              · next passed visited =>
                  obtain ⟨-, rfl⟩ := Prod.mk.inj (Option.some.inj step)
                  have run := visits visited
                  exact run
      · exact ⟨first, refl first, Option.some.inj run, by omega⟩

end Extends

/-- What is written has a character for each code point at least, and only the ASCII
characters of the label, hyphens and digits. -/
theorem written_utf32ToPunycode {out : Str} (written : utf32ToPunycode input = some out) :
    (∀ c ∈ input, accepted c = true) ∧ input.length ≤ out.length ∧
      ∀ c ∈ out, (∃ code ∈ input, code < 0x80 ∧ c = Char.ofNat code) ∨ c = '-' ∨
        ∃ digit < base, c = digitToChar digit := by
  rw [utf32ToPunycode] at written
  split at written
  · next valid =>
      obtain ⟨last, ⟨text, shape, digits, count⟩, rfl, all⟩ := Extends.loop written
      have letters : ∀ c ∈ (input.filter (· < 0x80)).map Char.ofNat,
          ∃ code ∈ input, code < 0x80 ∧ c = Char.ofNat code := by
        intro c found
        obtain ⟨code, inside, rfl⟩ := List.mem_map.mp found
        exact ⟨code, List.mem_of_mem_filter inside, by simpa using List.of_mem_filter inside, rfl⟩
      generalize (input.filter (· < 0x80)).map Char.ofNat = ascii at shape count letters
      dsimp only at shape count
      rw [shape]
      refine ⟨List.all_eq_true.mp valid, ?_, fun c found => ?_⟩
      · rw [List.length_append]
        split
        · next none =>
            rw [none, List.length_nil] at count
            omega
        · rw [List.length_append]
          omega
      · obtain found | found := List.mem_append.mp found
        · split at found
          · cases found
          · obtain found | found := List.mem_append.mp found
            · exact .inl (letters c found)
            · exact .inr (.inl (List.mem_singleton.mp found))
        · exact .inr (.inr (digits c found))
  · cases written

end RoundTrip

section TooLong

variable {b n c : Nat}

/-- A run of one smaller code point is counted. -/
theorem visits_replicate (smaller : c < n) (k : Nat) (writer : Writer)
    (room : writer.d + k ≤ maxInt) :
    (List.replicate k c).foldlM (Writer.visit b n) writer =
      some { writer with d := writer.d + k } := by
  induction k generalizing writer with
  | zero => rfl
  | succ k ih =>
      have step : writer.visit b n c = some { writer with d := writer.d + 1 } := by
        rw [Writer.visit, if_pos smaller, if_neg (by omega)]
      rw [List.replicate_succ, List.foldlM_cons, step]
      refine (ih { writer with d := writer.d + 1 } (by dsimp only; omega)).trans ?_
      rw [Nat.add_assoc, Nat.add_comm 1 k]

theorem leastFrom_replicate (smaller : c < n) (k m : Nat) :
    (List.replicate k c).foldl (fun m code_point =>
      if n ≤ code_point && code_point < m then code_point else m) m = m := by
  induction k with
  | zero => rfl
  | succ k ih =>
      rw [List.replicate_succ, List.foldl_cons, if_neg (by simp; omega), ih]

/-- A label of 1928 code points that is written as a text that overflows the reader:
the last insertion starts from a position of the first one. -/
def tooLong : List Nat := 0x10FFDA :: (List.replicate 1800 97 ++ 0xE9 :: List.replicate 126 97)

theorem length_tooLong : tooLong.length = 1928 := by
  rw [tooLong, List.length_cons, List.length_append, List.length_cons, List.length_replicate,
    List.length_replicate]

theorem accepted_tooLong : ∀ c ∈ tooLong, accepted c = true := by
  intro c found
  rw [tooLong, List.mem_cons, List.mem_append, List.mem_cons] at found
  obtain rfl | found | rfl | found := found
  · decide
  · rw [List.eq_of_mem_replicate found]
    decide
  · decide
  · rw [List.eq_of_mem_replicate found]
    decide

theorem leastFrom_tooLong {n : Nat} (ascii : 97 < n) : leastFrom n tooLong =
    if n ≤ 0xE9 then 0xE9 else if n ≤ 0x10FFDA then 0x10FFDA else 0x10FFFF := by
  rw [leastFrom, tooLong, List.foldl_cons, List.foldl_append, List.foldl_cons,
    leastFrom_replicate ascii, leastFrom_replicate ascii]
  grind

/-- The passes over the label, for the second code point and for the first one. -/
theorem visits_tooLong {d d' bias h : Nat} {out : Str} (count : d + 1800 = d')
    (small : d' ≤ maxInt) :
    tooLong.foldlM (Writer.visit b 0xE9) ⟨d, bias, h, out⟩ =
      some ⟨126, adapt d' (h + 1) (h == b), h + 1, out ++ writeNumber bias d' base d'⟩ := by
  subst count
  have later (writer : Writer) : writer.visit b 0xE9 0x10FFDA = some writer := rfl
  have here (writer : Writer) : writer.visit b 0xE9 0xE9 =
      some { d := 0, bias := adapt writer.d (writer.h + 1) (writer.h == b), h := writer.h + 1,
             out := writer.out ++ writeNumber writer.bias writer.d base writer.d } := rfl
  rw [tooLong, List.foldlM_cons, later, Option.bind_eq_bind, Option.bind_some, List.foldlM_append,
    visits_replicate (by decide) 1800 _ small, Option.bind_eq_bind, Option.bind_some,
    List.foldlM_cons, here, Option.bind_eq_bind, Option.bind_some]
  exact visits_replicate (by decide) 126 _ (by decide : 0 + 126 ≤ maxInt)

theorem visits_tooLong_last {d bias h : Nat} {out : Str} :
    tooLong.foldlM (Writer.visit b 0x10FFDA) ⟨d, bias, h, out⟩ =
      some ⟨1927, adapt d (h + 1) (h == b), h + 1, out ++ writeNumber bias d base d⟩ := by
  have here : Writer.visit b 0x10FFDA ⟨d, bias, h, out⟩ 0x10FFDA =
      some ⟨0, adapt d (h + 1) (h == b), h + 1, out ++ writeNumber bias d base d⟩ := rfl
  have earlier (writer : Writer) (small : writer.d < maxInt) :
      writer.visit b 0x10FFDA 0xE9 = some { writer with d := writer.d + 1 } := by
    rw [Writer.visit, if_pos (by decide), if_neg small.ne]
  rw [tooLong, List.foldlM_cons, here, Option.bind_eq_bind, Option.bind_some, List.foldlM_append,
    visits_replicate (by decide) 1800 _ (by decide : 0 + 1800 ≤ maxInt), Option.bind_eq_bind,
    Option.bind_some, List.foldlM_cons, earlier _ (by decide : 0 + 1800 < maxInt),
    Option.bind_eq_bind, Option.bind_some]
  exact visits_replicate (by decide) 126 _ (by decide : 0 + 1800 + 1 + 126 ≤ maxInt)

/-- The numbers in the text of the label. -/
def numbers : Str :=
  writeNumber 72 204135 base 204135 ++ writeNumber (adapt 204135 1927 true) maxInt base maxInt

theorem written_tooLong : utf32ToPunycode tooLong =
    some (List.replicate 1926 'a' ++ '-' :: numbers) := by
  have letters : (tooLong.filter (· < 0x80)).map Char.ofNat = List.replicate 1926 'a' := by
    have run (k : Nat) : (List.replicate k 97).filter (· < 0x80) = List.replicate k 97 :=
      List.filter_eq_self.mpr fun c found => by rw [List.eq_of_mem_replicate found]; decide
    rw [tooLong, List.filter_cons_of_neg (by decide), List.filter_append,
      List.filter_cons_of_neg (by decide), run, run, List.replicate_append_replicate,
      List.map_replicate]
  have some_letters : List.replicate 1926 'a' ≠ [] := by
    rw [Ne, List.replicate_eq_nil_iff]
    decide
  have first (out : Str) : Writer.round tooLong 1926 initial_n ⟨0, initial_bias, 1926, out⟩ =
      some (0xE9 + 1, ⟨126 + 1, adapt 204135 1927 true, 1927,
        out ++ writeNumber initial_bias 204135 base 204135⟩) := by
    have least : leastFrom initial_n tooLong = 0xE9 := leastFrom_tooLong (by decide)
    have count : 0 + (0xE9 - initial_n) * (1926 + 1) = 202335 := rfl
    exact Writer.round_of least (by decide) count (visits_tooLong rfl (by decide))
  have second (out : Str) (bias : Nat) :
      Writer.round tooLong 1926 (0xE9 + 1) ⟨126 + 1, bias, 1927, out⟩ =
        some (0x10FFDA + 1, ⟨1927 + 1, adapt maxInt 1928 false, 1928,
          out ++ writeNumber bias maxInt base maxInt⟩) := by
    have least : leastFrom (0xE9 + 1) tooLong = 0x10FFDA := leastFrom_tooLong (by decide)
    have count : 126 + 1 + (0x10FFDA - (0xE9 + 1)) * (1927 + 1) = maxInt := rfl
    exact Writer.round_of least (by decide) count visits_tooLong_last
  have rounds : tooLong.length = 1925 + 1 + 1 + 1 := length_tooLong
  have unfinished (h : Nat) (few : h < 1928) : h < tooLong.length := by
    rw [length_tooLong]
    exact few
  have finished : ¬1928 < tooLong.length := by
    rw [length_tooLong]
    decide
  rw [utf32ToPunycode, if_pos (List.all_eq_true.mpr accepted_tooLong), letters,
    if_neg some_letters, List.length_replicate, rounds, Writer.loop,
    if_pos (unfinished _ (by decide)), first]
  dsimp only
  rw [Writer.loop, if_pos (unfinished _ (by decide)), second]
  dsimp only
  rw [Writer.loop, if_neg finished, numbers]
  simp only [List.append_assoc, List.cons_append, List.nil_append]
  rfl

/-- The second number is too large for the position that it starts from. -/
theorem tooLong_not_read :
    ∃ out, utf32ToPunycode tooLong = some out ∧ punycodeToUtf32 out = none := by
  have digits : numbers = "pw0o69774830e".toList := by decide +kernel
  have no_hyphen : '-' ∉ numbers := by
    rw [digits]
    decide
  have width : numbers.length = 13 := by
    rw [digits]
    rfl
  have refused : Reader.loop 13 (.start (List.replicate 1926 97)) numbers = none := by
    have stops : Verifier.loop 13 (.start 1926) numbers = false := by
      rw [digits]
      decide +kernel
    have same := Reader.loop_verifier 13 (.start (List.replicate 1926 97)) numbers
    rw [Reader.verifier, Reader.start, List.length_replicate] at same
    rw [← Option.isNone_iff_eq_none, ← Option.isSome_eq_false_iff]
    exact same.symm.trans stops
  have letters : (List.replicate 1926 'a').length = 1926 := List.length_replicate
  have front : (List.replicate 1926 'a' ++ '-' :: numbers).take 1926 = List.replicate 1926 'a' :=
    List.take_left' letters
  have behind : (List.replicate 1926 'a' ++ '-' :: numbers).drop (1926 + 1) = numbers := by
    rw [← List.drop_drop, List.drop_left' letters, List.drop_one, List.tail_cons]
  have codes : (List.replicate 1926 'a').map Char.toNat = List.replicate 1926 97 :=
    List.map_replicate
  have ascii : (List.replicate 1926 97).any (0x80 ≤ ·) = false := by
    rw [List.any_eq_false]
    intro c found
    rw [List.eq_of_mem_replicate found]
    decide
  refine ⟨_, written_tooLong, ?_⟩
  rw [punycodeToUtf32, rfind_append_cons no_hyphen, letters]
  dsimp only
  rw [front, behind, codes, ascii, if_neg Bool.false_ne_true, width]
  exact refused

/-- Every label of up to so many code points can be written and read back. -/
def ReadsBack (limit : Nat) : Prop :=
  ∀ input : List Nat, input.length ≤ limit → (∀ c ∈ input, accepted c = true) →
    ∃ out, utf32ToPunycode input = some out ∧ punycodeToUtf32 out = some input

/-- The 32-bit numbers are large enough for labels of up to 1927 code points, and
for no longer ones. -/
theorem readsBack_iff {limit : Nat} : ReadsBack limit ↔ limit ≤ 1927 := by
  constructor
  · intro back
    by_contra long
    have size := length_tooLong
    obtain ⟨out, written, unread⟩ := tooLong_not_read
    obtain ⟨again, rewritten, read⟩ := back tooLong (by omega) accepted_tooLong
    rw [written] at rewritten
    rw [← Option.some.inj rewritten, unread] at read
    cases read
  · exact fun small input short valid =>
      punycodeToUtf32_utf32ToPunycode ⟨Nat.le_trans short small, valid⟩

end TooLong

end Punycode

end Mux.Ada
