import Mux.Ada.Unicode
import Mux.Library.SelfDelimiting
import Mathlib.Data.Nat.Bitwise

/-!
# UTF-8

Code points are written in one to four bytes. Both directions take a block at a
time where they can, sixteen ASCII bytes of the text or two ASCII code points.
Overlong units, surrogates and numbers above the last code point are refused, so
that a text is accepted exactly if it is the text of some code points.
-/

namespace Mux.Ada

open ByteWords

namespace Utf8

/-! ## Reading -/

/-- A unit at the front of the bytes, as the branches on its leading byte read it. -/
def readUnit : List UInt8 → Option (UInt32 × List UInt8)
  | [] => none
  | leading_byte :: data =>
      if leading_byte < 0b10000000 then some (leading_byte.toUInt32, data)
      else if leading_byte &&& 0b11100000 == 0b11000000 then
        match data with
        | b :: data =>
            if b &&& 0b11000000 != 0b10000000 then none
            else
              let code_point := (leading_byte &&& 0b00011111).toUInt32 <<< 6 |||
                (b &&& 0b00111111).toUInt32
              if code_point < 0x80 || 0x7ff < code_point then none else some (code_point, data)
        | _ => none
      else if leading_byte &&& 0b11110000 == 0b11100000 then
        match data with
        | b :: c :: data =>
            if b &&& 0b11000000 != 0b10000000 then none
            else if c &&& 0b11000000 != 0b10000000 then none
            else
              let code_point := (leading_byte &&& 0b00001111).toUInt32 <<< 12 |||
                (b &&& 0b00111111).toUInt32 <<< 6 ||| (c &&& 0b00111111).toUInt32
              if code_point < 0x800 || 0xffff < code_point ||
                (0xd7ff < code_point && code_point < 0xe000) then none else some (code_point, data)
        | _ => none
      else if leading_byte &&& 0b11111000 == 0b11110000 then
        match data with
        | b :: c :: d :: data =>
            if b &&& 0b11000000 != 0b10000000 then none
            else if c &&& 0b11000000 != 0b10000000 then none
            else if d &&& 0b11000000 != 0b10000000 then none
            else
              let code_point := (leading_byte &&& 0b00000111).toUInt32 <<< 18 |||
                (b &&& 0b00111111).toUInt32 <<< 12 ||| (c &&& 0b00111111).toUInt32 <<< 6 |||
                (d &&& 0b00111111).toUInt32
              if code_point ≤ 0xffff || 0x10ffff < code_point then none
              else some (code_point, data)
        | _ => none
      else none

/-- Eight bytes in memory, as a word. -/
def load (data : List UInt8) : Nat := combine ((data.take 8).map UInt8.toNat)

/-- The next sixteen bytes are ASCII. -/
def asciiBlock (data : List UInt8) : Bool :=
  16 ≤ data.length && (load data ||| load (data.drop 8)) &&& 0x8080808080808080 == 0

/-- The loop; every turn takes at least one byte. -/
def utf8ToUtf32Loop : Nat → List UInt8 → Option (List UInt32)
  | 0, data => if data = [] then some [] else none
  | fuel + 1, data =>
      if data = [] then some []
      else if asciiBlock data then
        (utf8ToUtf32Loop fuel (data.drop 16)).map ((data.take 16).map UInt8.toUInt32 ++ ·)
      else match readUnit data with
        | none => none
        | some (code_point, data) => (utf8ToUtf32Loop fuel data).map (code_point :: ·)

/-- The code points of a text, or nothing in place of the length zero. -/
def utf8ToUtf32 (data : List UInt8) : Option (List UInt32) := utf8ToUtf32Loop data.length data

/-- How many code points the bytes come to: each is counted at its first byte. -/
def utf32LengthFromUtf8 (data : List UInt8) : Nat :=
  data.countP fun c => decide ((-65 : Int8) < c.toInt8)

/-! ## Writing -/

/-- The unit of a code point, as the branches on its highest bits write it. -/
def writeUnit (word : UInt32) : Option (List UInt8) :=
  if word &&& 0xFFFFFF80 == 0 then some [word.toUInt8]
  else if word &&& 0xFFFFF800 == 0 then
    some [(word >>> 6 ||| 0b11000000).toUInt8, (word &&& 0b111111 ||| 0b10000000).toUInt8]
  else if word &&& 0xFFFF0000 == 0 then
    if 0xD800 ≤ word && word ≤ 0xDFFF then none
    else some [(word >>> 12 ||| 0b11100000).toUInt8,
      (word >>> 6 &&& 0b111111 ||| 0b10000000).toUInt8, (word &&& 0b111111 ||| 0b10000000).toUInt8]
  else if 0x10FFFF < word then none
  else some [(word >>> 18 ||| 0b11110000).toUInt8,
    (word >>> 12 &&& 0b111111 ||| 0b10000000).toUInt8,
    (word >>> 6 &&& 0b111111 ||| 0b10000000).toUInt8, (word &&& 0b111111 ||| 0b10000000).toUInt8]

/-- Two code points in memory, as a word with only ASCII bits in it. -/
def asciiPair (a b : UInt32) : Bool :=
  (a.toNat + b.toNat * 2 ^ 32) &&& 0xFFFFFF80FFFFFF80 == 0

/-- The bytes of a text, or nothing in place of the length zero. -/
def utf32ToUtf8 : List UInt32 → Option (List UInt8)
  | [] => some []
  | [a] => writeUnit a
  | a :: b :: buf =>
      if asciiPair a b then (utf32ToUtf8 buf).map ([a.toUInt8, b.toUInt8] ++ ·)
      else match writeUnit a, utf32ToUtf8 (b :: buf) with
        | some text, some rest => some (text ++ rest)
        | _, _ => none

/-- How many bytes the code points come to. -/
def utf8LengthFromUtf32 (buf : List UInt32) : Nat :=
  (buf.map fun p => 1 + (if 0x7F < p then 1 else 0) + (if 0x7FF < p then 1 else 0) +
    (if 0xFFFF < p then 1 else 0)).sum

/-! ## Units in numbers -/

section Bits

variable {b : UInt8}

theorem forall_byte {p : UInt8 → Prop} (all : ∀ n : Fin 256, p (UInt8.ofNat n)) (b : UInt8) :
    p b := by
  have here := all ⟨b.toNat, b.toNat_lt⟩
  rwa [UInt8.ofNat_toNat] at here

/-- The masks of the branches, in numbers. -/
theorem masks : ∀ b : UInt8,
    ((b &&& 0b11100000 == 0b11000000) = decide (192 ≤ b.toNat ∧ b.toNat < 224) ∧
      (b &&& 0b11110000 == 0b11100000) = decide (224 ≤ b.toNat ∧ b.toNat < 240) ∧
      (b &&& 0b11111000 == 0b11110000) = decide (240 ≤ b.toNat ∧ b.toNat < 248) ∧
      (b &&& 0b11000000 != 0b10000000) = decide (b.toNat < 128 ∨ 192 ≤ b.toNat)) ∧
    ((b &&& 0b00011111).toNat = b.toNat % 32 ∧ (b &&& 0b00001111).toNat = b.toNat % 16 ∧
      (b &&& 0b00000111).toNat = b.toNat % 8 ∧ (b &&& 0b00111111).toNat = b.toNat % 64) ∧
    decide ((-65 : Int8) < b.toInt8) = decide (b.toNat < 128 ∨ 192 ≤ b.toNat) :=
  forall_byte (by decide +kernel)

theorem leads_two (b : UInt8) : (b &&& 0b11100000 == 0b11000000) =
    decide (192 ≤ b.toNat ∧ b.toNat < 224) := (masks b).1.1

theorem leads_three (b : UInt8) : (b &&& 0b11110000 == 0b11100000) =
    decide (224 ≤ b.toNat ∧ b.toNat < 240) := (masks b).1.2.1

theorem leads_four (b : UInt8) : (b &&& 0b11111000 == 0b11110000) =
    decide (240 ≤ b.toNat ∧ b.toNat < 248) := (masks b).1.2.2.1

theorem not_continues (b : UInt8) : (b &&& 0b11000000 != 0b10000000) =
    decide (b.toNat < 128 ∨ 192 ≤ b.toNat) := (masks b).1.2.2.2

theorem low_bits (b : UInt8) : (b &&& 0b00011111).toNat = b.toNat % 32 ∧
    (b &&& 0b00001111).toNat = b.toNat % 16 ∧ (b &&& 0b00000111).toNat = b.toNat % 8 ∧
    (b &&& 0b00111111).toNat = b.toNat % 64 := (masks b).2.1

theorem or_toNat {x y : UInt32} (k : Nat) (high : 2 ^ k ∣ x.toNat) (low : y.toNat < 2 ^ k) :
    (x ||| y).toNat = x.toNat + y.toNat := by
  obtain ⟨q, shape⟩ := high
  rw [UInt32.toNat_or, shape, ← Nat.two_pow_add_eq_or_of_lt low]

theorem shift_toNat {x : UInt8} (bound : x.toNat < 64) (k : UInt32) (small : k.toNat ≤ 18) :
    (x.toUInt32 <<< k).toNat = x.toNat * 2 ^ k.toNat := by
  have range : x.toNat * 2 ^ k.toNat < 2 ^ 32 := by
    calc x.toNat * 2 ^ k.toNat
        < 64 * 2 ^ k.toNat := Nat.mul_lt_mul_of_pos_right bound (Nat.two_pow_pos _)
      _ ≤ 64 * 2 ^ 18 := Nat.mul_le_mul_left 64 (Nat.pow_le_pow_right (by decide) small)
      _ ≤ 2 ^ 32 := by decide
  have place : k.toNat % 32 = k.toNat := Nat.mod_eq_of_lt (by omega)
  rw [UInt32.toNat_shiftLeft, UInt8.toNat_toUInt32, place, Nat.shiftLeft_eq, Nat.mod_eq_of_lt range]

/-- The number in a unit of two, three or four bytes. -/
theorem two_toNat (lead b : UInt8) :
    ((lead &&& 0b00011111).toUInt32 <<< 6 ||| (b &&& 0b00111111).toUInt32).toNat =
      lead.toNat % 32 * 64 + b.toNat % 64 := by
  obtain ⟨five, -, -, -⟩ := low_bits lead
  obtain ⟨-, -, -, six⟩ := low_bits b
  have high := shift_toNat (x := lead &&& 0b00011111) (by omega) 6 (by decide)
  change _ = _ * 64 at high
  rw [or_toNat 6 (by omega) (by rw [UInt8.toNat_toUInt32]; omega), high, UInt8.toNat_toUInt32]
  omega

theorem three_toNat (lead b c : UInt8) :
    ((lead &&& 0b00001111).toUInt32 <<< 12 ||| (b &&& 0b00111111).toUInt32 <<< 6 |||
      (c &&& 0b00111111).toUInt32).toNat =
      lead.toNat % 16 * 4096 + b.toNat % 64 * 64 + c.toNat % 64 := by
  obtain ⟨-, four, -, -⟩ := low_bits lead
  obtain ⟨-, -, -, six⟩ := low_bits b
  obtain ⟨-, -, -, last⟩ := low_bits c
  have high := shift_toNat (x := lead &&& 0b00001111) (by omega) 12 (by decide)
  have middle := shift_toNat (x := b &&& 0b00111111) (by omega) 6 (by decide)
  change _ = _ * 4096 at high
  change _ = _ * 64 at middle
  have front := or_toNat (x := (lead &&& 0b00001111).toUInt32 <<< 12)
    (y := (b &&& 0b00111111).toUInt32 <<< 6) 12 (by omega) (by omega)
  rw [or_toNat 6 (by omega) (by rw [UInt8.toNat_toUInt32]; omega), UInt8.toNat_toUInt32]
  omega

theorem four_toNat (lead b c d : UInt8) :
    ((lead &&& 0b00000111).toUInt32 <<< 18 ||| (b &&& 0b00111111).toUInt32 <<< 12 |||
      (c &&& 0b00111111).toUInt32 <<< 6 ||| (d &&& 0b00111111).toUInt32).toNat =
      lead.toNat % 8 * 262144 + b.toNat % 64 * 4096 + c.toNat % 64 * 64 + d.toNat % 64 := by
  obtain ⟨-, -, three, -⟩ := low_bits lead
  obtain ⟨-, -, -, six⟩ := low_bits b
  obtain ⟨-, -, -, six'⟩ := low_bits c
  obtain ⟨-, -, -, last⟩ := low_bits d
  have high := shift_toNat (x := lead &&& 0b00000111) (by omega) 18 (by decide)
  have middle := shift_toNat (x := b &&& 0b00111111) (by omega) 12 (by decide)
  have middle' := shift_toNat (x := c &&& 0b00111111) (by omega) 6 (by decide)
  change _ = _ * 262144 at high
  change _ = _ * 4096 at middle
  change _ = _ * 64 at middle'
  have front := or_toNat (x := (lead &&& 0b00000111).toUInt32 <<< 18)
    (y := (b &&& 0b00111111).toUInt32 <<< 12) 18 (by omega) (by omega)
  have front' := or_toNat (x := (lead &&& 0b00000111).toUInt32 <<< 18 |||
    (b &&& 0b00111111).toUInt32 <<< 12) (y := (c &&& 0b00111111).toUInt32 <<< 6) 12
    (by omega) (by omega)
  rw [or_toNat 6 (by omega) (by rw [UInt8.toNat_toUInt32]; omega), UInt8.toNat_toUInt32]
  omega

end Bits

section Words

variable {word : UInt32}

/-- The highest bits of a number below `2 ^ n`. -/
theorem and_high (w : Nat) {k n : Nat} (bound : w < 2 ^ n) (places : k ≤ n) :
    w &&& (2 ^ n - 2 ^ k) = w / 2 ^ k * 2 ^ k := by
  have mask : 2 ^ n - 2 ^ k = (2 ^ (n - k) - 1) * 2 ^ k := by
    rw [Nat.sub_mul, ← Nat.pow_add, Nat.sub_add_cancel places, Nat.one_mul]
  rw [mask]
  refine Nat.eq_of_testBit_eq fun i => ?_
  rw [Nat.testBit_and, Nat.testBit_mul_two_pow, Nat.testBit_mul_two_pow, Nat.testBit_div_two_pow,
    Nat.testBit_two_pow_sub_one]
  by_cases low : k ≤ i
  · have place : i - k + k = i := by omega
    rw [place]
    by_cases high : i < n
    · have inside : i - k < n - k := by omega
      simp [low, inside]
    · have none : w.testBit i = false :=
        Nat.testBit_lt_two_pow
          (Nat.lt_of_lt_of_le bound (Nat.pow_le_pow_right (by decide) (by omega)))
      simp [none]
  · simp [low]

theorem mask_eq_zero (word mask : UInt32) {k : Nat} (places : k ≤ 32)
    (shape : mask.toNat = 2 ^ 32 - 2 ^ k) : (word &&& mask == 0) = decide (word.toNat < 2 ^ k) := by
  rw [Bool.eq_iff_iff, beq_iff_eq, decide_eq_true_iff, ← UInt32.toNat_inj, UInt32.toNat_and, shape,
    and_high _ word.toNat_lt places, UInt32.toNat_zero, Nat.mul_eq_zero, Nat.div_eq_zero_iff]
  have positive := Nat.two_pow_pos k
  omega

/-- A byte of a unit: its tag, and the bits below. -/
theorem tagged {x tag : UInt32} (k : Nat) (low : x.toNat < 2 ^ k) (high : 2 ^ k ∣ tag.toNat)
    (byte : tag.toNat + x.toNat < 256) :
    (x ||| tag).toUInt8.toNat = tag.toNat + x.toNat := by
  rw [UInt32.toNat_toUInt8, UInt32.or_comm, or_toNat k high low, Nat.mod_eq_of_lt byte]

theorem low_six (word : UInt32) : (word &&& 0b111111).toNat = word.toNat % 64 := by
  rw [UInt32.toNat_and]
  exact Nat.and_two_pow_sub_one_eq_mod word.toNat 6

theorem shiftRight_toNat (word k : UInt32) (small : k.toNat < 32) :
    (word >>> k).toNat = word.toNat / 2 ^ k.toNat := by
  rw [UInt32.toNat_shiftRight, Nat.mod_eq_of_lt small, Nat.shiftRight_eq_div_pow]

theorem continuation_toNat (word : UInt32) :
    (word &&& 0b111111 ||| 0b10000000).toUInt8.toNat = 128 + word.toNat % 64 := by
  have six := low_six word
  rw [tagged 6 (by omega) (by decide) (by rw [six]; change 128 + _ < 256; omega), six]
  rfl

/-- The bytes of a unit as numbers. -/
def unitOf (w : Nat) : Option (List Nat) :=
  if w < 0x80 then some [w]
  else if w < 0x800 then some [192 + w / 64, 128 + w % 64]
  else if w < 0x10000 then
    if 0xD800 ≤ w ∧ w ≤ 0xDFFF then none
    else some [224 + w / 4096, 128 + w / 64 % 64, 128 + w % 64]
  else if 0x10FFFF < w then none
  else some [240 + w / 262144, 128 + w / 4096 % 64, 128 + w / 64 % 64, 128 + w % 64]

theorem map_writeUnit (word : UInt32) :
    (writeUnit word).map (·.map UInt8.toNat) = unitOf word.toNat := by
  have six := shiftRight_toNat word 6 (by decide)
  have twelve := shiftRight_toNat word 12 (by decide)
  have eighteen := shiftRight_toNat word 18 (by decide)
  change _ = _ / 64 at six
  change _ = _ / 4096 at twelve
  change _ = _ / 262144 at eighteen
  have one : (word &&& 0xFFFFFF80 == 0) = decide (word.toNat < 0x80) :=
    mask_eq_zero word 0xFFFFFF80 (k := 7) (by decide) (by decide)
  have two : (word &&& 0xFFFFF800 == 0) = decide (word.toNat < 0x800) :=
    mask_eq_zero word 0xFFFFF800 (k := 11) (by decide) (by decide)
  have three : (word &&& 0xFFFF0000 == 0) = decide (word.toNat < 0x10000) :=
    mask_eq_zero word 0xFFFF0000 (k := 16) (by decide) (by decide)
  have surrogate : (0xD800 ≤ word && word ≤ 0xDFFF) =
      decide (0xD800 ≤ word.toNat ∧ word.toNat ≤ 0xDFFF) := by
    rw [Bool.decide_and]
    rfl
  have outside : (0x10FFFF < word) = (0x10FFFF < word.toNat) := rfl
  simp only [writeUnit, unitOf, one, two, three, surrogate, outside, decide_eq_true_eq]
  split
  · have byte : word.toUInt8.toNat = word.toNat := by
      rw [UInt32.toNat_toUInt8]
      omega
    simp only [Option.map_some, List.map_cons, List.map_nil, byte]
  · split
    · have lead : (word >>> 6 ||| 0b11000000).toUInt8.toNat = 192 + word.toNat / 64 := by
        rw [tagged 5 (by omega) (by decide) (by rw [six]; change 192 + _ < 256; omega), six]
        rfl
      simp only [Option.map_some, List.map_cons, List.map_nil, lead, continuation_toNat]
    · split
      · split
        · rfl
        · have lead : (word >>> 12 ||| 0b11100000).toUInt8.toNat = 224 + word.toNat / 4096 := by
            rw [tagged 4 (by omega) (by decide) (by rw [twelve]; change 224 + _ < 256; omega),
              twelve]
            rfl
          simp only [Option.map_some, List.map_cons, List.map_nil, lead, continuation_toNat, six]
      · split
        · rfl
        · have lead : (word >>> 18 ||| 0b11110000).toUInt8.toNat = 240 + word.toNat / 262144 := by
            rw [tagged 3 (by omega) (by decide) (by rw [eighteen]; change 240 + _ < 256; omega),
              eighteen]
            rfl
          simp only [Option.map_some, List.map_cons, List.map_nil, lead, continuation_toNat, six,
            twelve]

end Words

section Units

variable {word : UInt32} {lead b c d : UInt8} {data s rest text : List UInt8}

/-- A byte behind the first one of a unit. -/
def Continues (b : UInt8) : Prop := 128 ≤ b.toNat ∧ b.toNat < 192

theorem continues_iff : (b &&& 0b11000000 != 0b10000000) = true ↔ ¬Continues b := by
  rw [not_continues, decide_eq_true_eq, Continues]
  omega

theorem readUnit_one (tag : lead.toNat < 128) :
    readUnit (lead :: data) = some (word, rest) ↔ word.toNat = lead.toNat ∧ data = rest := by
  have low : lead < 0b10000000 := tag
  rw [readUnit.eq_def]
  simp only [if_pos low, Option.some.injEq, Prod.mk.injEq]
  rw [← UInt32.toNat_inj, UInt8.toNat_toUInt32, eq_comm]

theorem readUnit_two (tag : 192 ≤ lead.toNat ∧ lead.toNat < 224) :
    readUnit (lead :: data) = some (word, rest) ↔ ∃ b, data = b :: rest ∧ Continues b ∧
      word.toNat = lead.toNat % 32 * 64 + b.toNat % 64 ∧ 0x80 ≤ word.toNat := by
  have high : ¬lead < 0b10000000 := fun low => absurd (show lead.toNat < 128 from low) (by omega)
  rw [readUnit.eq_def]
  simp only [if_neg high, leads_two, decide_eq_true tag, if_true]
  split
  · next b data =>
      have value := two_toNat lead b
      generalize (lead &&& 0b00011111).toUInt32 <<< 6 ||| (b &&& 0b00111111).toUInt32 = code
        at value
      have range : (code < 0x80 || 0x7ff < code) = true ↔ ¬0x80 ≤ code.toNat := by
        rw [Bool.or_eq_true, decide_eq_true_eq, decide_eq_true_eq]
        change code.toNat < 0x80 ∨ 0x7ff < code.toNat ↔ _
        omega
      simp only [continues_iff, range, Option.ite_none_left_eq_some, not_not, Option.some.injEq,
        Prod.mk.injEq]
      constructor
      · rintro ⟨continues, low, rfl, rfl⟩
        exact ⟨b, rfl, continues, value, low⟩
      · rintro ⟨b, shape, continues, number, low⟩
        obtain ⟨rfl, rfl⟩ := List.cons.inj shape
        obtain rfl := UInt32.toNat_inj.mp (value.trans number.symm)
        exact ⟨continues, low, rfl, rfl⟩
  · next short => exact ⟨nofun, fun ⟨b, shape, _⟩ => absurd shape (short b rest)⟩

theorem readUnit_three (tag : 224 ≤ lead.toNat ∧ lead.toNat < 240) :
    readUnit (lead :: data) = some (word, rest) ↔
      ∃ b c, data = b :: c :: rest ∧ Continues b ∧ Continues c ∧
        word.toNat = lead.toNat % 16 * 4096 + b.toNat % 64 * 64 + c.toNat % 64 ∧
        0x800 ≤ word.toNat ∧ ¬(0xd7ff < word.toNat ∧ word.toNat < 0xe000) := by
  have high : ¬lead < 0b10000000 := fun low => absurd (show lead.toNat < 128 from low) (by omega)
  have other : ¬(192 ≤ lead.toNat ∧ lead.toNat < 224) := by omega
  rw [readUnit.eq_def]
  simp only [if_neg high, leads_two, leads_three, decide_eq_true tag, decide_eq_false other,
    if_true, Bool.false_eq_true, if_false]
  split
  · next b c data =>
      have value := three_toNat lead b c
      generalize (lead &&& 0b00001111).toUInt32 <<< 12 ||| (b &&& 0b00111111).toUInt32 <<< 6 |||
        (c &&& 0b00111111).toUInt32 = code at value
      have range : (code < 0x800 || 0xffff < code || (0xd7ff < code && code < 0xe000)) = true ↔
          ¬(0x800 ≤ code.toNat ∧ ¬(0xd7ff < code.toNat ∧ code.toNat < 0xe000)) := by
        simp only [Bool.or_eq_true, Bool.and_eq_true, decide_eq_true_eq]
        change (code.toNat < 0x800 ∨ 0xffff < code.toNat) ∨
          0xd7ff < code.toNat ∧ code.toNat < 0xe000 ↔ _
        omega
      simp only [continues_iff, range, Option.ite_none_left_eq_some, not_not, Option.some.injEq,
        Prod.mk.injEq]
      constructor
      · rintro ⟨first, second, ⟨low, whole⟩, rfl, rfl⟩
        exact ⟨b, c, rfl, first, second, value, low, whole⟩
      · rintro ⟨b', c', shape, first, second, number, low⟩
        simp only [List.cons.injEq] at shape
        obtain ⟨rfl, rfl, rfl⟩ := shape
        obtain rfl := UInt32.toNat_inj.mp (value.trans number.symm)
        exact ⟨first, second, low, rfl, rfl⟩
  · next short => exact ⟨nofun, fun ⟨b, c, shape, _⟩ => absurd shape (short b c rest)⟩

theorem readUnit_four (tag : 240 ≤ lead.toNat ∧ lead.toNat < 248) :
    readUnit (lead :: data) = some (word, rest) ↔
      ∃ b c d, data = b :: c :: d :: rest ∧ Continues b ∧ Continues c ∧ Continues d ∧
        word.toNat = lead.toNat % 8 * 262144 + b.toNat % 64 * 4096 + c.toNat % 64 * 64 +
          d.toNat % 64 ∧ 0xffff < word.toNat ∧ word.toNat ≤ 0x10ffff := by
  have high : ¬lead < 0b10000000 := fun low => absurd (show lead.toNat < 128 from low) (by omega)
  have other : ¬(192 ≤ lead.toNat ∧ lead.toNat < 224) := by omega
  have other' : ¬(224 ≤ lead.toNat ∧ lead.toNat < 240) := by omega
  rw [readUnit.eq_def]
  simp only [if_neg high, leads_two, leads_three, leads_four, decide_eq_true tag,
    decide_eq_false other, decide_eq_false other', if_true, Bool.false_eq_true, if_false]
  split
  · next b c d data =>
      have value := four_toNat lead b c d
      generalize (lead &&& 0b00000111).toUInt32 <<< 18 ||| (b &&& 0b00111111).toUInt32 <<< 12 |||
        (c &&& 0b00111111).toUInt32 <<< 6 ||| (d &&& 0b00111111).toUInt32 = code at value
      have range : (code ≤ 0xffff || 0x10ffff < code) = true ↔
          ¬(0xffff < code.toNat ∧ code.toNat ≤ 0x10ffff) := by
        simp only [Bool.or_eq_true, decide_eq_true_eq]
        change code.toNat ≤ 0xffff ∨ 0x10ffff < code.toNat ↔ _
        omega
      simp only [continues_iff, range, Option.ite_none_left_eq_some, not_not, Option.some.injEq,
        Prod.mk.injEq]
      constructor
      · rintro ⟨first, second, third, bounds, rfl, rfl⟩
        exact ⟨b, c, d, rfl, first, second, third, value, bounds⟩
      · rintro ⟨b', c', d', shape, first, second, third, number, bounds⟩
        simp only [List.cons.injEq] at shape
        obtain ⟨rfl, rfl, rfl, rfl⟩ := shape
        obtain rfl := UInt32.toNat_inj.mp (value.trans number.symm)
        exact ⟨first, second, third, bounds, rfl, rfl⟩
  · next short => exact ⟨nofun, fun ⟨b, c, d, shape, _⟩ => absurd shape (short b c d rest)⟩

theorem readUnit_other (tag : 128 ≤ lead.toNat ∧ lead.toNat < 192 ∨ 248 ≤ lead.toNat) :
    readUnit (lead :: data) = none := by
  have high : ¬lead < 0b10000000 := fun low => absurd (show lead.toNat < 128 from low) (by omega)
  have two : ¬(192 ≤ lead.toNat ∧ lead.toNat < 224) := by omega
  have three : ¬(224 ≤ lead.toNat ∧ lead.toNat < 240) := by omega
  have four : ¬(240 ≤ lead.toNat ∧ lead.toNat < 248) := by omega
  rw [readUnit.eq_def]
  simp only [if_neg high, leads_two, leads_three, leads_four, decide_eq_false two,
    decide_eq_false three, decide_eq_false four, Bool.false_eq_true, if_false]

theorem writeUnit_iff :
    writeUnit word = some text ↔ unitOf word.toNat = some (text.map UInt8.toNat) := by
  rw [← map_writeUnit]
  constructor
  · intro written
    rw [written]
    rfl
  · intro written
    obtain ⟨text', written, same⟩ := Option.map_eq_some_iff.mp written
    rwa [List.map_injective_iff.mpr (fun _ _ => UInt8.toNat_inj.mp) same] at written

/-- A unit is read as the code point that it is written for. -/
theorem readUnit_iff (s : List UInt8) (word : UInt32) (rest : List UInt8) :
    readUnit s = some (word, rest) ↔ ∃ text, writeUnit word = some text ∧ s = text ++ rest := by
  have bound := word.toNat_lt
  simp only [writeUnit_iff, unitOf]
  constructor
  · intro step
    cases s with
    | nil => cases step
    | cons lead data =>
        have byte := lead.toNat_lt
        by_cases one : lead.toNat < 128
        · obtain ⟨number, rfl⟩ := (readUnit_one one).mp step
          refine ⟨[lead], ?_, rfl⟩
          rw [number, if_pos one]
          rfl
        · by_cases two : 192 ≤ lead.toNat ∧ lead.toNat < 224
          · obtain ⟨b, rfl, ⟨low, high⟩, number, range⟩ := (readUnit_two two).mp step
            refine ⟨[lead, b], ?_, rfl⟩
            rw [if_neg (by omega), if_pos (by omega)]
            simp only [List.map_cons, List.map_nil, Option.some.injEq, List.cons.injEq, and_true]
            omega
          · by_cases three : 224 ≤ lead.toNat ∧ lead.toNat < 240
            · obtain ⟨b, c, rfl, ⟨low, high⟩, ⟨low', high'⟩, number, range⟩ :=
                (readUnit_three three).mp step
              refine ⟨[lead, b, c], ?_, rfl⟩
              rw [if_neg (by omega), if_neg (by omega), if_pos (by omega), if_neg (by omega)]
              simp only [List.map_cons, List.map_nil, Option.some.injEq, List.cons.injEq, and_true]
              omega
            · by_cases four : 240 ≤ lead.toNat ∧ lead.toNat < 248
              · obtain ⟨b, c, d, rfl, ⟨low, high⟩, ⟨low', high'⟩, ⟨low'', high''⟩, number, range⟩ :=
                  (readUnit_four four).mp step
                refine ⟨[lead, b, c, d], ?_, rfl⟩
                rw [if_neg (by omega), if_neg (by omega), if_neg (by omega), if_neg (by omega)]
                simp only [List.map_cons, List.map_nil, Option.some.injEq, List.cons.injEq,
                  and_true]
                omega
              · rw [readUnit_other (by omega)] at step
                cases step
  · rintro ⟨text, unit, rfl⟩
    split at unit
    · obtain ⟨lead, rfl, first⟩ := List.map_eq_singleton_iff.mp (Option.some.inj unit).symm
      exact (readUnit_one (by omega)).mpr ⟨first.symm, rfl⟩
    · split at unit
      · obtain ⟨lead, tail, rfl, first, others⟩ :=
          List.map_eq_cons_iff.mp (Option.some.inj unit).symm
        obtain ⟨b, rfl, second⟩ := List.map_eq_singleton_iff.mp others
        refine (readUnit_two (by omega)).mpr ⟨b, rfl, ?_, ?_, ?_⟩
        · rw [Continues]
          omega
        · omega
        · omega
      · split at unit
        · split at unit
          · cases unit
          · obtain ⟨lead, tail, rfl, first, others⟩ :=
              List.map_eq_cons_iff.mp (Option.some.inj unit).symm
            obtain ⟨b, tail, rfl, second, others⟩ := List.map_eq_cons_iff.mp others
            obtain ⟨c, rfl, third⟩ := List.map_eq_singleton_iff.mp others
            refine (readUnit_three (by omega)).mpr ⟨b, c, rfl, ?_, ?_, ?_, ?_⟩
            · rw [Continues]
              omega
            · rw [Continues]
              omega
            · omega
            · omega
        · split at unit
          · cases unit
          · obtain ⟨lead, tail, rfl, first, others⟩ :=
              List.map_eq_cons_iff.mp (Option.some.inj unit).symm
            obtain ⟨b, tail, rfl, second, others⟩ := List.map_eq_cons_iff.mp others
            obtain ⟨c, tail, rfl, third, others⟩ := List.map_eq_cons_iff.mp others
            obtain ⟨d, rfl, fourth⟩ := List.map_eq_singleton_iff.mp others
            refine (readUnit_four (by omega)).mpr ⟨b, c, d, rfl, ?_, ?_, ?_, ?_, ?_⟩
            · rw [Continues]
              omega
            · rw [Continues]
              omega
            · rw [Continues]
              omega
            · omega
            · omega

/-- The units, as a code that reads itself. -/
def units : SelfDelimiting UInt32 UInt8 where
  unit := writeUnit
  readUnit := readUnit
  nonempty := by
    rintro word text written rfl
    rw [writeUnit_iff, unitOf] at written
    split at written
    · cases written
    · split at written
      · cases written
      · split at written
        · split at written <;> cases written
        · split at written <;> cases written
  readUnit_iff := readUnit_iff

/-! ## Blocks -/

/-- A block of ASCII bytes comes to one code point for each byte. -/
theorem write_ascii {front : List UInt8} (codes : List UInt32) (rest : List UInt8)
    (ascii : ∀ b ∈ front, b.toNat < 128) : units.write codes = some (front ++ rest) ↔
      ∃ others, codes = front.map UInt8.toUInt32 ++ others ∧ units.write others = some rest := by
  induction front generalizing codes with
  | nil => simp
  | cons b front ih =>
      obtain ⟨first, later⟩ := List.forall_mem_cons.mp ascii
      have step : units.readUnit (b :: (front ++ rest)) = some (b.toUInt32, front ++ rest) :=
        (readUnit_one first).mpr ⟨UInt8.toNat_toUInt32 b, rfl⟩
      rw [List.cons_append, units.write_of_readUnit step]
      constructor
      · rintro ⟨others, rfl, written⟩
        obtain ⟨last, rfl, behind⟩ := (ih _ later).mp written
        exact ⟨last, rfl, behind⟩
      · rintro ⟨last, rfl, written⟩
        exact ⟨front.map UInt8.toUInt32 ++ last, rfl, (ih _ later).mpr ⟨last, rfl, written⟩⟩

theorem asciiBlock_iff : asciiBlock data = true ↔
    16 ≤ data.length ∧ ∀ b ∈ data.take 16, b.toNat < 128 := by
  have piece (data : List UInt8) : load data &&& 0x8080808080808080 = 0 ↔
      ∀ b ∈ data.take 8, b.toNat < 128 := by
    have bytes : Bytes ((data.take 8).map UInt8.toNat) := by
      intro b found
      obtain ⟨byte, -, rfl⟩ := List.mem_map.mp found
      exact byte.toNat_lt
    have short : ((data.take 8).map UInt8.toNat).length ≤ 8 := by
      rw [List.length_map, List.length_take]
      omega
    have highest : 0x8080808080808080 = Unicode.broadcast 0x80 := by decide
    rw [load, highest, Unicode.combine_and_highest bytes short, List.forall_mem_map]
  have halves : data.take (8 + 8) = data.take 8 ++ (data.drop 8).take 8 := List.take_add
  change data.take 16 = _ at halves
  rw [asciiBlock, Bool.and_eq_true, decide_eq_true_eq, beq_iff_eq, Nat.and_or_distrib_right,
    Nat.or_eq_zero_iff, piece, piece, halves, List.forall_mem_append]

theorem utf8ToUtf32Loop_iff {fuel : Nat} {codes : List UInt32} (enough : data.length ≤ fuel) :
    utf8ToUtf32Loop fuel data = some codes ↔ units.write codes = some data := by
  induction fuel generalizing data codes with
  | zero =>
      obtain rfl := List.length_eq_zero_iff.mp (Nat.le_zero.mp enough)
      rw [utf8ToUtf32Loop, if_pos rfl, units.write_eq_nil, Option.some.injEq, eq_comm]
  | succ fuel ih =>
      rw [utf8ToUtf32Loop]
      split
      · next empty => rw [empty, units.write_eq_nil, Option.some.injEq, eq_comm]
      · next some_text =>
          split
          · next block =>
              obtain ⟨long, ascii⟩ := asciiBlock_iff.mp block
              have shorter : (data.drop 16).length ≤ fuel := by
                rw [List.length_drop]
                omega
              have parts := write_ascii codes (data.drop 16) ascii
              rw [List.take_append_drop] at parts
              rw [parts, Option.map_eq_some_iff]
              exact ⟨fun ⟨others, read, same⟩ => ⟨others, same.symm, (ih shorter).mp read⟩,
                fun ⟨others, same, written⟩ => ⟨others, (ih shorter).mpr written, same.symm⟩⟩
          · cases step : readUnit data with
            | none =>
                exact ⟨nofun, fun written =>
                  absurd written (units.write_of_not_readUnit step some_text)⟩
            | some state =>
                have shorter := units.length_readUnit step
                rw [units.write_of_readUnit step]
                dsimp only
                rw [Option.map_eq_some_iff]
                exact ⟨fun ⟨others, read, same⟩ => ⟨others, same.symm, (ih (by omega)).mp read⟩,
                  fun ⟨others, same, written⟩ => ⟨others, (ih (by omega)).mpr written, same.symm⟩⟩

theorem asciiPair_iff {x y : UInt32} :
    asciiPair x y = true ↔ x.toNat < 0x80 ∧ y.toNat < 0x80 := by
  have mask (w : UInt32) : w.toNat &&& 0xFFFFFF80 = 0 ↔ w.toNat < 0x80 := by
    have zero := mask_eq_zero w 0xFFFFFF80 (k := 7) (by decide) (by decide)
    rw [Bool.eq_iff_iff, beq_iff_eq, decide_eq_true_iff, ← UInt32.toNat_inj, UInt32.toNat_and]
      at zero
    exact zero
  have low := x.toNat_lt
  have front : (x.toNat + y.toNat * 2 ^ 32) % 2 ^ 32 = x.toNat := by omega
  have back : (x.toNat + y.toNat * 2 ^ 32) / 2 ^ 32 = y.toNat := by omega
  have parts (n : Nat) : n = 0 ↔ n % 2 ^ 32 = 0 ∧ n / 2 ^ 32 = 0 := by omega
  rw [asciiPair, beq_iff_eq, parts, Nat.and_mod_two_pow, Nat.and_div_two_pow, front, back]
  exact and_congr (mask x) (mask y)

theorem writeUnit_ascii (ascii : word.toNat < 0x80) : writeUnit word = some [word.toUInt8] := by
  have one : (word &&& 0xFFFFFF80 == 0) = true := by
    rw [mask_eq_zero word 0xFFFFFF80 (k := 7) (by decide) (by decide), decide_eq_true_iff]
    exact ascii
  rw [writeUnit, if_pos one]

/-- Two ASCII code points at a time come to the same as one after the other. -/
theorem utf32ToUtf8_eq (codes : List UInt32) : utf32ToUtf8 codes = units.write codes := by
  fun_induction utf32ToUtf8 codes with
  | case1 => rfl
  | case2 a =>
      have unit : units.unit a = writeUnit a := rfl
      rw [SelfDelimiting.write, SelfDelimiting.write, unit]
      cases writeUnit a with
      | none => rfl
      | some text => exact congrArg some (List.append_nil text).symm
  | case3 a b buf pair ih =>
      obtain ⟨first, second⟩ := asciiPair_iff.mp pair
      have unit : units.unit a = some [a.toUInt8] := writeUnit_ascii first
      have unit' : units.unit b = some [b.toUInt8] := writeUnit_ascii second
      rw [SelfDelimiting.write, SelfDelimiting.write, unit, unit', ih]
      cases units.write buf <;> rfl
  | case4 a b buf single text rest others unit ih =>
      have unit : units.unit a = some text := unit
      rw [SelfDelimiting.write, unit, ← ih, others]
  | case5 a b buf single stuck ih =>
      rw [SelfDelimiting.write, ← ih]
      split
      · next text rest unit others => exact (stuck text rest unit others).elim
      · rfl

/-- A text is accepted exactly if it is the text of some code points. -/
theorem utf8ToUtf32_iff {codes : List UInt32} :
    utf8ToUtf32 data = some codes ↔ utf32ToUtf8 codes = some data := by
  rw [utf8ToUtf32, utf8ToUtf32Loop_iff le_rfl, utf32ToUtf8_eq]

/-- Each unit has one byte that is no continuation. -/
theorem lengths_unit (unit : writeUnit word = some text) :
    utf32LengthFromUtf8 text = 1 ∧ utf8LengthFromUtf32 [word] = text.length := by
  have signed (b : UInt8) : decide ((-65 : Int8) < b.toInt8) =
      decide (b.toNat < 128 ∨ 192 ≤ b.toNat) := (masks b).2.2
  have count : utf32LengthFromUtf8 text =
      (text.map UInt8.toNat).countP fun n => decide (n < 128 ∨ 192 ≤ n) := by
    rw [utf32LengthFromUtf8, List.countP_map]
    exact List.countP_congr fun b _ => by rw [signed]; rfl
  have length : text.length = (text.map UInt8.toNat).length := (List.length_map _).symm
  have below (n : UInt32) : (n < word) = (n.toNat < word.toNat) := rfl
  have bits : utf8LengthFromUtf32 [word] = 1 + (if 0x7F < word.toNat then 1 else 0) +
      (if 0x7FF < word.toNat then 1 else 0) + (if 0xFFFF < word.toNat then 1 else 0) := by
    simp only [utf8LengthFromUtf32, List.map_cons, List.map_nil, List.sum_cons, List.sum_nil, below]
    rfl
  have lead {n : Nat} (first : n < 128 ∨ 192 ≤ n) (ns : List Nat) :
      (n :: ns).countP (fun n => decide (n < 128 ∨ 192 ≤ n)) =
        ns.countP (fun n => decide (n < 128 ∨ 192 ≤ n)) + 1 :=
    List.countP_cons_of_pos (decide_eq_true first)
  have behind (n : Nat) (ns : List Nat) :
      ((128 + n % 64) :: ns).countP (fun n => decide (n < 128 ∨ 192 ≤ n)) =
        ns.countP (fun n => decide (n < 128 ∨ 192 ≤ n)) :=
    List.countP_cons_of_neg (by rw [decide_eq_true_eq]; omega)
  rw [writeUnit_iff, unitOf] at unit
  rw [count, length, bits]
  split at unit
  · rw [← Option.some.inj unit, lead (by omega), if_neg (by omega), if_neg (by omega),
      if_neg (by omega)]
    exact ⟨rfl, rfl⟩
  · split at unit
    · rw [← Option.some.inj unit, lead (by omega), behind, if_pos (by omega), if_neg (by omega),
        if_neg (by omega)]
      exact ⟨rfl, rfl⟩
    · split at unit
      · split at unit
        · cases unit
        · rw [← Option.some.inj unit, lead (by omega), behind, behind, if_pos (by omega),
            if_pos (by omega), if_neg (by omega)]
          exact ⟨rfl, rfl⟩
      · split at unit
        · cases unit
        · rw [← Option.some.inj unit, lead (by omega), behind, behind, behind, if_pos (by omega),
            if_pos (by omega), if_pos (by omega)]
          exact ⟨rfl, rfl⟩

/-- The lengths that the buffers are made with are those of what is written into them. -/
theorem lengths_utf32ToUtf8 {codes : List UInt32} (written : utf32ToUtf8 codes = some data) :
    utf32LengthFromUtf8 data = codes.length ∧ utf8LengthFromUtf32 codes = data.length := by
  rw [utf32ToUtf8_eq] at written
  induction codes generalizing data with
  | nil =>
      obtain rfl := Option.some.inj written
      exact ⟨rfl, rfl⟩
  | cons word codes ih =>
      obtain ⟨text, rest, unit, others, rfl⟩ := units.write_cons.mp written
      obtain ⟨one, bytes⟩ := lengths_unit unit
      obtain ⟨count, length⟩ := ih others
      constructor
      · rw [utf32LengthFromUtf8, List.countP_append]
        rw [utf32LengthFromUtf8] at one count
        rw [one, count, List.length_cons, Nat.add_comm]
      · rw [utf8LengthFromUtf32, List.map_cons, List.sum_cons]
        rw [utf8LengthFromUtf32, List.map_singleton, List.sum_singleton] at bytes
        rw [utf8LengthFromUtf32] at length
        rw [bytes, length, List.length_append]

/-- A buffer that is made for what is read or written has its exact length. -/
theorem lengths_exact
    (converted : utf8ToUtf32 data = some codes ∨ utf32ToUtf8 codes = some data) :
    utf32LengthFromUtf8 data = codes.length ∧ utf8LengthFromUtf32 codes = data.length := by
  refine lengths_utf32ToUtf8 ?_
  obtain read | written := converted
  · rw [utf32ToUtf8_eq]
    rw [utf8ToUtf32, utf8ToUtf32Loop_iff le_rfl] at read
    exact read
  · exact written

/-- The euro sign behind a blank. -/
theorem lengths_euro : utf32LengthFromUtf8 [0x20, 0xE2, 0x82, 0xAC] = 2 ∧
    utf8LengthFromUtf32 [0x20, 0x20AC] = 4 :=
  @lengths_exact [0x20, 0xE2, 0x82, 0xAC] [0x20, 0x20AC] (.inl (by decide))

end Units

end Utf8

end Mux.Ada
