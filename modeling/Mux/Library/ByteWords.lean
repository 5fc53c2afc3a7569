import Mathlib.Algebra.Group.Nat.Defs
import Mathlib.Data.List.Basic
import Mathlib.Data.Nat.Bitwise
import Mathlib.Tactic.Ring

/-!
# Bytes packed into one word

A little-endian word holds its first byte in its lowest eight bits. Bit
operations act on the packed bytes separately. An addition carries from one
byte into the next, so the bytes of a sum are described by a chain of carries,
and those of a difference by a chain of borrows.
-/

namespace ByteWords

/-- The word with these bytes, the first one lowest. -/
def combine : List Nat → Nat
  | [] => 0
  | b :: bs => b + 256 * combine bs

/-- The lowest bytes of a word. -/
def split : Nat → Nat → List Nat
  | 0, _ => []
  | n + 1, word => word % 256 :: split n (word / 256)

/-- All numbers are bytes. -/
abbrev Bytes (bs : List Nat) : Prop := ∀ b ∈ bs, b < 256

variable {b c d v n : Nat} {bs cs ds : List Nat}

@[simp] theorem combine_nil : combine [] = 0 := rfl

@[simp] theorem combine_cons : combine (b :: bs) = b + 256 * combine bs := rfl

@[simp] theorem length_split (n word : Nat) : (split n word).length = n := by
  induction n generalizing word with
  | zero => rfl
  | succ n ih => rw [split, List.length_cons, ih]

/-- Bytes on top of the wanted ones make no difference. -/
theorem split_combine_append (bytes : Bytes bs) (cs : List Nat) :
    split bs.length (combine (bs ++ cs)) = bs := by
  induction bs with
  | nil => rfl
  | cons b bs ih =>
      obtain ⟨first, rest⟩ := List.forall_mem_cons.mp bytes
      have low : (b + 256 * combine (bs ++ cs)) % 256 = b := by omega
      have high : (b + 256 * combine (bs ++ cs)) / 256 = combine (bs ++ cs) := by omega
      rw [List.length_cons, List.cons_append, combine_cons, split, low, high, ih rest]

theorem combine_lt (bytes : Bytes bs) : combine bs < 256 ^ bs.length := by
  induction bs with
  | nil => exact Nat.one_pos
  | cons b bs ih =>
      obtain ⟨first, rest⟩ := List.forall_mem_cons.mp bytes
      have bound := ih rest
      rw [combine_cons, List.length_cons, Nat.pow_succ]
      omega

/-- Zero bytes on top leave the word as it is. -/
theorem combine_append_zeros (bs : List Nat) (n : Nat) :
    combine (bs ++ List.replicate n 0) = combine bs := by
  induction bs with
  | nil =>
      induction n with
      | zero => rfl
      | succ n ih =>
          rw [List.nil_append] at ih ⊢
          rw [List.replicate_succ, combine_cons, ih]
          rfl
  | cons b bs ih => rw [List.cons_append, combine_cons, combine_cons, ih]

theorem combine_eq_zero : combine bs = 0 ↔ ∀ b ∈ bs, b = 0 := by
  induction bs with
  | nil => simp
  | cons b bs ih =>
      rw [combine_cons, List.forall_mem_cons, ← ih]
      omega

/-! ## Bit operations -/

/-- An operation on bits acts on the lowest byte and on the rest. -/
theorem bitwise_packed {op : Bool → Bool → Bool} (quiet : op false false = false) {x y : Nat}
    (low : b < 256) (low' : c < 256) :
    Nat.bitwise op (b + 256 * x) (c + 256 * y) =
      Nat.bitwise op b c + 256 * Nat.bitwise op x y := by
  have small : Nat.bitwise op b c < 2 ^ 8 := Nat.bitwise_lt_two_pow low low'
  have place : ∀ {w u : Nat} (_ : u < 2 ^ 8) (i : Nat), (u + 256 * w).testBit i =
      if i < 8 then u.testBit i else w.testBit (i - 8) := by
    intro w u bound i
    rw [Nat.add_comm]
    exact Nat.testBit_two_pow_mul_add w bound i
  apply Nat.eq_of_testBit_eq
  intro i
  rw [Nat.testBit_bitwise quiet, place low, place low', place small, Nat.testBit_bitwise quiet,
    Nat.testBit_bitwise quiet]
  split <;> rfl

/-- Packed bytes are combined byte by byte. -/
theorem bitwise_combine {op : Bool → Bool → Bool} (quiet : op false false = false)
    (bytes : Bytes bs) (bytes' : Bytes cs) (same : bs.length = cs.length) :
    Nat.bitwise op (combine bs) (combine cs) =
      combine (List.zipWith (Nat.bitwise op) bs cs) := by
  induction bs generalizing cs with
  | nil =>
      obtain rfl := List.length_eq_zero_iff.mp same.symm
      rw [combine_nil, Nat.bitwise_zero]
      rfl
  | cons b bs ih =>
      obtain ⟨c, cs, rfl⟩ := List.exists_cons_of_length_eq_add_one same.symm
      obtain ⟨first, rest⟩ := List.forall_mem_cons.mp bytes
      obtain ⟨first', rest'⟩ := List.forall_mem_cons.mp bytes'
      rw [combine_cons, combine_cons, bitwise_packed quiet first first',
        ih rest rest' (by simpa using same)]
      rfl

theorem xor_combine (bytes : Bytes bs) (bytes' : Bytes cs) (same : bs.length = cs.length) :
    combine bs ^^^ combine cs = combine (List.zipWith (· ^^^ ·) bs cs) :=
  bitwise_combine rfl bytes bytes' same

theorem and_combine (bytes : Bytes bs) (bytes' : Bytes cs) (same : bs.length = cs.length) :
    combine bs &&& combine cs = combine (List.zipWith (· &&& ·) bs cs) :=
  bitwise_combine rfl bytes bytes' same

theorem bytes_zipWith {f : Nat → Nat → Nat} (byte : ∀ b c, b < 256 → c < 256 → f b c < 256)
    (bytes : Bytes bs) (bytes' : Bytes cs) : Bytes (List.zipWith f bs cs) := by
  induction bs generalizing cs with
  | nil => exact fun _ none => absurd none List.not_mem_nil
  | cons b bs ih =>
      obtain ⟨first, rest⟩ := List.forall_mem_cons.mp bytes
      cases cs with
      | nil => exact fun _ none => absurd none List.not_mem_nil
      | cons c cs =>
          obtain ⟨first', rest'⟩ := List.forall_mem_cons.mp bytes'
          exact List.forall_mem_cons.mpr ⟨byte b c first first', ih rest rest'⟩

theorem bytes_xor (bytes : Bytes bs) (bytes' : Bytes cs) :
    Bytes (List.zipWith (· ^^^ ·) bs cs) :=
  bytes_zipWith (fun _ _ low low' => Nat.xor_lt_two_pow (n := 8) low low') bytes bytes'

theorem bytes_and (bytes : Bytes bs) (bytes' : Bytes cs) :
    Bytes (List.zipWith (· &&& ·) bs cs) :=
  bytes_zipWith (fun _ _ low _ => Nat.lt_of_le_of_lt Nat.and_le_left low) bytes bytes'

/-- The same byte in every place of the other operand. -/
theorem zipWith_replicate (f : Nat → Nat → Nat) (bs : List Nat) (v : Nat) :
    List.zipWith f bs (List.replicate bs.length v) = bs.map (f · v) := by
  induction bs with
  | nil => rfl
  | cons b bs ih => exact congrArg (f b v :: ·) ih

theorem xor_replicate (bytes : Bytes bs) (byte : v < 256) :
    combine bs ^^^ combine (List.replicate bs.length v) = combine (bs.map (· ^^^ v)) := by
  rw [xor_combine bytes _ List.length_replicate.symm, zipWith_replicate]
  exact fun b found => List.eq_of_mem_replicate found ▸ byte

theorem and_replicate (bytes : Bytes bs) (byte : v < 256) :
    combine bs &&& combine (List.replicate bs.length v) = combine (bs.map (· &&& v)) := by
  rw [and_combine bytes _ List.length_replicate.symm, zipWith_replicate]
  exact fun b found => List.eq_of_mem_replicate found ▸ byte

/-- No bit moves into the byte below when the lowest two bits are clear. -/
theorem shiftRight_two_combine (clear : ∀ b ∈ bs, 4 ∣ b) :
    combine bs >>> 2 = combine (bs.map (· / 4)) := by
  rw [Nat.shiftRight_eq_div_pow]
  have divides : ∀ {bs : List Nat}, (∀ b ∈ bs, 4 ∣ b) →
      combine bs = 4 * combine (bs.map (· / 4)) := by
    intro bs clear
    induction bs with
    | nil => rfl
    | cons b bs ih =>
        obtain ⟨first, rest⟩ := List.forall_mem_cons.mp clear
        rw [combine_cons, ih rest, List.map_cons, combine_cons]
        omega
  rw [divides clear]
  omega

/-! ## Sums and differences -/

/-- The bytes of the sum with a byte repeated in every place, with a carry into
the lowest one. -/
def sums (v : Nat) : Nat → List Nat → List Nat
  | _, [] => []
  | c, b :: bs => (b + v + c) % 256 :: sums v ((b + v + c) / 256) bs

/-- The carry out of the highest byte. -/
def carry (v : Nat) : Nat → List Nat → Nat
  | c, [] => c
  | c, b :: bs => carry v ((b + v + c) / 256) bs

@[simp] theorem length_sums (v c : Nat) (bs : List Nat) : (sums v c bs).length = bs.length := by
  induction bs generalizing c with
  | nil => rfl
  | cons b bs ih => rw [sums, List.length_cons, List.length_cons, ih]

theorem bytes_sums (v c : Nat) (bs : List Nat) : Bytes (sums v c bs) := by
  induction bs generalizing c with
  | nil => exact fun _ none => absurd none List.not_mem_nil
  | cons b bs ih => exact List.forall_mem_cons.mpr ⟨Nat.mod_lt _ (by decide), ih _⟩

theorem combine_add_replicate (v c : Nat) (bs : List Nat) :
    combine bs + combine (List.replicate bs.length v) + c =
      combine (sums v c bs) + 256 ^ bs.length * carry v c bs := by
  induction bs generalizing c with
  | nil => simp [sums, carry]
  | cons b bs ih =>
      have rest := ih ((b + v + c) / 256)
      have first := Nat.div_add_mod (b + v + c) 256
      rw [List.length_cons, List.replicate_succ, combine_cons, combine_cons, sums, combine_cons,
        carry, Nat.pow_succ]
      have scale : 256 ^ bs.length * 256 * carry v ((b + v + c) / 256) bs =
          256 * (256 ^ bs.length * carry v ((b + v + c) / 256) bs) := by ring
      omega

/-- In a word of that width the last carry is lost. -/
theorem add_replicate_mod (v c : Nat) (bs : List Nat) :
    (combine bs + combine (List.replicate bs.length v) + c) % 256 ^ bs.length =
      combine (sums v c bs) := by
  have bound := combine_lt (bytes_sums v c bs)
  rw [length_sums] at bound
  rw [combine_add_replicate, Nat.add_mul_mod_self_left, Nat.mod_eq_of_lt bound]

/-- The bytes of the difference with one in every place, with a borrow from the
lowest one. -/
def pred : Nat → List Nat → List Nat
  | _, [] => []
  | d, b :: bs => (b + 255 - d) % 256 :: pred (if b < 1 + d then 1 else 0) bs

@[simp] theorem length_pred (d : Nat) (bs : List Nat) : (pred d bs).length = bs.length := by
  induction bs generalizing d with
  | nil => rfl
  | cons b bs ih => rw [pred, List.length_cons, List.length_cons, ih]

theorem bytes_pred (d : Nat) (bs : List Nat) : Bytes (pred d bs) := by
  induction bs generalizing d with
  | nil => exact fun _ none => absurd none List.not_mem_nil
  | cons b bs ih => exact List.forall_mem_cons.mpr ⟨Nat.mod_lt _ (by decide), ih _⟩

theorem combine_pred (bytes : Bytes bs) (borrow : d ≤ 1) : ∃ out ≤ 1,
    combine bs + 256 ^ bs.length * out =
      combine (pred d bs) + combine (List.replicate bs.length 1) + d := by
  induction bs generalizing d with
  | nil => exact ⟨d, borrow, by simp [pred]⟩
  | cons b bs ih =>
      obtain ⟨first, rest⟩ := List.forall_mem_cons.mp bytes
      rw [List.length_cons, List.replicate_succ, combine_cons, combine_cons, pred, combine_cons]
      split
      · next small =>
          obtain ⟨out, bound, chain⟩ := ih rest (le_refl 1)
          refine ⟨out, bound, ?_⟩
          rw [Nat.pow_succ, Nat.mul_comm _ 256, Nat.mul_assoc]
          omega
      · next large =>
          obtain ⟨out, bound, chain⟩ := ih rest (Nat.zero_le 1)
          refine ⟨out, bound, ?_⟩
          rw [Nat.pow_succ, Nat.mul_comm _ 256, Nat.mul_assoc]
          omega

/-- A subtraction that wraps around in a word of that width. -/
theorem sub_replicate_mod (bytes : Bytes bs) :
    (combine bs + 256 ^ bs.length - combine (List.replicate bs.length 1)) % 256 ^ bs.length =
      combine (pred 0 bs) := by
  obtain ⟨out, bound, chain⟩ := combine_pred bytes (Nat.zero_le 1)
  have small := combine_lt (bytes_pred 0 bs)
  rw [length_pred] at small
  obtain rfl | rfl : out = 0 ∨ out = 1 := by omega
  · have wrapped : combine bs + 256 ^ bs.length - combine (List.replicate bs.length 1) =
        combine (pred 0 bs) + 256 ^ bs.length := by omega
    rw [wrapped, Nat.add_mod_right, Nat.mod_eq_of_lt small]
  · have direct : combine bs + 256 ^ bs.length - combine (List.replicate bs.length 1) =
        combine (pred 0 bs) := by omega
    rw [direct, Nat.mod_eq_of_lt small]

theorem complement_combine (bytes : Bytes bs) :
    256 ^ bs.length - 1 - combine bs = combine (bs.map (255 - ·)) := by
  have whole : combine bs + combine (bs.map (255 - ·)) + 1 = 256 ^ bs.length := by
    induction bs with
    | nil => rfl
    | cons b bs ih =>
        obtain ⟨first, rest⟩ := List.forall_mem_cons.mp bytes
        have scaled := ih rest
        rw [List.map_cons, combine_cons, combine_cons, List.length_cons, Nat.pow_succ]
        omega
  omega

/-! ## The search for a zero byte -/

/-- The highest bits that `(v - ones) & ~v & highest` leaves. -/
def zeroFlags (d : Nat) (bs : List Nat) : List Nat :=
  (List.zipWith (· &&& ·) (pred d bs) (bs.map (255 - ·))).map (· &&& 0x80)

theorem zeroFlags_cons : zeroFlags d (b :: bs) =
    ((b + 255 - d) % 256 &&& (255 - b) &&& 0x80) ::
      zeroFlags (if b < 1 + d then 1 else 0) bs := rfl

/-- A borrow can only raise flags above a zero byte, which has raised its own. -/
theorem exists_zeroFlags (bytes : Bytes bs) : (∃ f ∈ zeroFlags 0 bs, f ≠ 0) ↔ 0 ∈ bs := by
  induction bs with
  | nil => exact iff_of_false (by rintro ⟨_, ⟨⟩, -⟩) List.not_mem_nil
  | cons b bs ih =>
      obtain ⟨first, rest⟩ := List.forall_mem_cons.mp bytes
      rw [zeroFlags_cons]
      by_cases zero : b = 0
      · subst zero
        exact iff_of_true ⟨_, List.mem_cons_self, by decide⟩ List.mem_cons_self
      · have all : ∀ b : Fin 256, b.val ≠ 0 →
            (b.val + 255 - 0) % 256 &&& (255 - b) &&& 0x80 = 0 := by
          decide +kernel
        have borrow : ¬ b < 1 + 0 := by omega
        rw [all ⟨b, first⟩ zero, if_neg borrow, List.mem_cons, ← ih rest]
        simp [Ne.symm zero]

end ByteWords
