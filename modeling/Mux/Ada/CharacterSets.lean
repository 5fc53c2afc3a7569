import Mux.Library.PercentCoding

/-!
# Percent-encode sets

Each set is a bitmap of 32 rows with one bit for each byte. The encoder first
looks for a byte of the set and copies everything in front of it. All sets that
the URL parser uses keep percent signs, digits and letters, so encoding a part
of a URL twice is the same as encoding it once, and the encoded part still
decodes to what the part itself decodes to.
-/

namespace Mux.Ada

open Text PercentCoding

namespace CharacterSets

/-- A row whose eight bytes all belong to the set. -/
def full : Nat := 0x01 ||| 0x02 ||| 0x04 ||| 0x08 ||| 0x10 ||| 0x20 ||| 0x40 ||| 0x80

/-- The rows of the bytes that are no ASCII characters. -/
def nonAscii : List Nat := List.replicate 16 full

def C0_CONTROL_PERCENT_ENCODE : List Nat :=
  [full, full, full, full, 0x00, 0x00, 0x00, 0x00, 0x00, 0x00, 0x00, 0x00, 0x00, 0x00, 0x00,
    0x80] ++ nonAscii

def SPECIAL_QUERY_PERCENT_ENCODE : List Nat :=
  [full, full, full, full, 0x01 ||| 0x04 ||| 0x08 ||| 0x80, 0x00, 0x00, 0x10 ||| 0x40, 0x00, 0x00,
    0x00, 0x00, 0x00, 0x00, 0x00, 0x80] ++ nonAscii

def QUERY_PERCENT_ENCODE : List Nat :=
  [full, full, full, full, 0x01 ||| 0x04 ||| 0x08, 0x00, 0x00, 0x10 ||| 0x40, 0x00, 0x00, 0x00,
    0x00, 0x00, 0x00, 0x00, 0x80] ++ nonAscii

def FRAGMENT_PERCENT_ENCODE : List Nat :=
  [full, full, full, full, 0x01 ||| 0x04, 0x00, 0x00, 0x10 ||| 0x40, 0x00, 0x00, 0x00, 0x00, 0x01,
    0x00, 0x00, 0x80] ++ nonAscii

def USERINFO_PERCENT_ENCODE : List Nat :=
  [full, full, full, full, 0x01 ||| 0x04 ||| 0x08, 0x80, 0x00,
    0x04 ||| 0x08 ||| 0x10 ||| 0x20 ||| 0x40 ||| 0x80, 0x01, 0x00, 0x00,
    0x08 ||| 0x10 ||| 0x20 ||| 0x40, 0x01, 0x00, 0x00, 0x08 ||| 0x10 ||| 0x20 ||| 0x80] ++ nonAscii

def PATH_PERCENT_ENCODE : List Nat :=
  [full, full, full, full, 0x01 ||| 0x04 ||| 0x08, 0x00, 0x00, 0x10 ||| 0x40 ||| 0x80, 0x00, 0x00,
    0x00, 0x00, 0x01, 0x00, 0x00, 0x08 ||| 0x20 ||| 0x80] ++ nonAscii

/-- The bit of a byte. There is no byte behind the last row. -/
def bitAt (a : List Nat) (c : Char) : Bool :=
  (a.getD (c.toNat >>> 3) full).testBit (c.toNat &&& 7)

end CharacterSets

open CharacterSets

/-! ## Encoding -/

/-- The text of a byte in the table of escapes. -/
def hex (c : Char) : Str := escape c

/-- The first byte of the set and what follows it. -/
def findEncoded (input : Str) (character_set : List Nat) : Str :=
  input.dropWhile (!bitAt character_set ·)

/-- What stands in front of the first byte of the set. -/
def untilEncoded (input : Str) (character_set : List Nat) : Str :=
  input.takeWhile (!bitAt character_set ·)

/-- The loop from the first byte of the set to the end. -/
def encodeFrom (character_set : List Nat) : Str → Str
  | [] => []
  | c :: rest =>
      if bitAt character_set c then hex c ++ encodeFrom character_set rest
      else c :: encodeFrom character_set rest

def percentEncode (input : Str) (character_set : List Nat) : Str :=
  let pointer := findEncoded input character_set
  if pointer = [] then input
  else untilEncoded input character_set ++ encodeFrom character_set pointer

/-- The overload that writes into a buffer and says whether it had to. -/
def percentEncodeInto (input : Str) (character_set : List Nat) : Option Str :=
  let pointer := findEncoded input character_set
  if pointer = [] then none
  else some (untilEncoded input character_set ++ encodeFrom character_set pointer)

theorem encodeFrom_eq (character_set : List Nat) (input : Str) :
    encodeFrom character_set input = encode (bitAt character_set) input := by
  induction input with
  | nil => rfl
  | cons c input ih =>
      rw [encodeFrom, encode_cons, ih]
      split <;> rfl

/-- The search for the first byte only saves work. -/
theorem percentEncode_eq (input : Str) (character_set : List Nat) :
    percentEncode input character_set = encode (bitAt character_set) input := by
  have kept : ∀ c ∈ untilEncoded input character_set, bitAt character_set c = false := by
    intro c member
    simpa using List.mem_takeWhile_imp member
  have whole : untilEncoded input character_set ++ findEncoded input character_set = input :=
    List.takeWhile_append_dropWhile
  rw [percentEncode]
  split
  · next none =>
      rw [none, List.append_nil] at whole
      rw [whole] at kept
      exact (encode_of_kept kept).symm
  · conv_rhs => rw [← whole]
    rw [encodeFrom_eq, encode_append, encode_of_kept kept]

/-- The buffer is left alone exactly when the text is its own encoding. -/
theorem percentEncodeInto_getD (input : Str) (character_set : List Nat) :
    (percentEncodeInto input character_set).getD input = percentEncode input character_set := by
  simp only [percentEncodeInto, percentEncode]
  split <;> rfl

/-! ## Decoding -/

def isAsciiHexDigit (c : Char) : Bool :=
  (c ≥ '0' && c ≤ '9') || (c ≥ 'A' && c ≤ 'F') || (c ≥ 'a' && c ≤ 'f')

def hexToBinaryTable : List Nat :=
  [0, 1, 2, 3, 4, 5, 6, 7, 8, 9, 0, 0, 0, 0, 0, 0, 0, 10, 11,
    12, 13, 14, 15, 0, 0, 0, 0, 0, 0, 0, 0, 0, 0, 0, 0, 0, 0, 0,
    0, 0, 0, 0, 0, 0, 0, 0, 0, 0, 0, 10, 11, 12, 13, 14, 15]

def convertHexToBinary (c : Char) : Nat := hexToBinaryTable.getD (c.toNat - '0'.toNat) 0

/-- The loop from the first percent sign to the end. -/
def decodeFrom : Str → Str
  | [] => []
  | ch :: a :: b :: rest =>
      if ch ≠ '%' ∨ !isAsciiHexDigit a ∨ !isAsciiHexDigit b then ch :: decodeFrom (a :: b :: rest)
      else Char.ofNat (convertHexToBinary a * 16 + convertHexToBinary b) :: decodeFrom rest
  | ch :: pointer => ch :: decodeFrom pointer

def percentDecode (input : Str) (first_percent : Option Nat) : Str :=
  match first_percent with
  | none => input
  | some first_percent => input.take first_percent ++ decodeFrom (input.drop first_percent)

theorem isAsciiHexDigit_eq (c : Char) : isAsciiHexDigit c = isHexDigit c := rfl

theorem convertHexToBinary_eq {c : Char} (digit : isHexDigit c) :
    convertHexToBinary c = hexValue c := by
  have all : ∀ n : Fin 256, isHexDigit (Char.ofNat n) = true →
      convertHexToBinary (Char.ofNat n) = hexValue (Char.ofNat n) := by decide +kernel
  exact forall_byte (p := fun c => isHexDigit c = true → convertHexToBinary c = hexValue c) all
    (Nat.lt_trans (toNat_lt_of_isHexDigit digit) (by decide)) digit

theorem decodeFrom_eq (input : Str) : decodeFrom input = decode input := by
  induction input using decodeFrom.induct with
  | case1 => rfl
  | case2 ch a b rest keep ih =>
      rw [decodeFrom, if_pos keep, ih]
      by_cases sign : ch = '%'
      · subst sign
        refine (decode_percent_of_not_digits ?_).symm
        rintro ⟨_, _, _, shape, first, second⟩
        simp only [List.cons.injEq] at shape
        obtain ⟨rfl, rfl, rfl⟩ := shape
        simp [isAsciiHexDigit_eq, first, second] at keep
      · exact (decode_cons_of_ne sign _).symm
  | case3 ch a b rest escape ih =>
      simp only [isAsciiHexDigit_eq, not_or, not_not, Bool.not_eq_true', Bool.not_eq_false]
        at escape
      obtain ⟨rfl, first, second⟩ := escape
      simp [decodeFrom, decode, isAsciiHexDigit_eq, first, second, convertHexToBinary_eq, ih]
  | case4 ch pointer short ih =>
      rw [decodeFrom]
      · rw [ih]
        by_cases sign : ch = '%'
        · subst sign
          refine (decode_percent_of_not_digits ?_).symm
          rintro ⟨a, b, rest, rfl, -, -⟩
          exact short a b rest rfl
        · exact (decode_cons_of_ne sign _).symm
      · exact short

/-- The search for the first percent sign only saves work. -/
theorem percentDecode_eq (input : Str) : percentDecode input (input.idxOf? '%') = decode input := by
  have skip : ∀ {before : Str}, '%' ∉ before → ∀ rest,
      decode (before ++ rest) = before ++ decode rest := by
    intro before clean rest
    induction before with
    | nil => rfl
    | cons c before ih =>
        obtain ⟨other, clean⟩ := not_or.mp (mt List.mem_cons.mpr clean)
        rw [List.cons_append, decode_cons_of_ne (Ne.symm other), ih clean, List.cons_append]
  by_cases found : '%' ∈ input
  · obtain ⟨before, after, rfl, clean⟩ := List.eq_append_cons_of_mem found
    rw [idxOf?_append_cons clean, percentDecode, List.take_left, List.drop_left, decodeFrom_eq,
      skip clean]
  · rw [List.idxOf?_eq_none_iff.mpr found, percentDecode]
    simpa using (skip found []).symm

/-! ## What the sets hold -/

/-- The sets of the URL parser. -/
def urlSets : List (List Nat) :=
  [C0_CONTROL_PERCENT_ENCODE, SPECIAL_QUERY_PERCENT_ENCODE, QUERY_PERCENT_ENCODE,
    FRAGMENT_PERCENT_ENCODE, USERINFO_PERCENT_ENCODE, PATH_PERCENT_ENCODE]

section Sets

variable {character_set : List Nat} (member : character_set ∈ urlSets) {c : Char}

include member

/-- What a set keeps is a visible character or the space. -/
theorem printable_of_kept (kept : bitAt character_set c = false) :
    0x20 ≤ c.toNat ∧ c.toNat < 0x7f := by
  have rows : ∀ a ∈ urlSets, a.length = 32 := by decide
  have bytes : ∀ a ∈ urlSets, ∀ n : Fin 256, bitAt a (Char.ofNat n) = false →
      0x20 ≤ (Char.ofNat n).toNat ∧ (Char.ofNat n).toNat < 0x7f := by decide +kernel
  by_cases byte : c.toNat < 256
  · exact forall_byte (p := fun c => bitAt character_set c = false →
      0x20 ≤ c.toNat ∧ c.toNat < 0x7f) (bytes character_set member) byte kept
  · have behind : character_set.length ≤ c.toNat >>> 3 := by
      rw [rows character_set member, Nat.shiftRight_eq_div_pow]
      omega
    have bits : ∀ i : Fin 8, full.testBit i = true := by decide
    have place : c.toNat &&& 7 < 8 := Nat.lt_of_le_of_lt Nat.and_le_right (by decide)
    have bit : bitAt character_set c = true := by
      rw [bitAt, List.getD_eq_getElem?_getD, List.getElem?_eq_none behind]
      exact bits ⟨_, place⟩
    rw [bit] at kept
    cases kept

theorem keepsEscapes_bitAt : KeepsEscapes (bitAt character_set) where
  percent := by
    have sign : ∀ a ∈ urlSets, bitAt a '%' = false := by decide +kernel
    exact sign character_set member
  digit := by
    intro c digit
    have bytes : ∀ a ∈ urlSets, ∀ n : Fin 256, isHexDigit (Char.ofNat n) = true →
        bitAt a (Char.ofNat n) = false := by decide +kernel
    exact forall_byte (p := fun c => isHexDigit c = true → bitAt character_set c = false)
      (bytes character_set member) (Nat.lt_trans (toNat_lt_of_isHexDigit digit) (by decide)) digit

end Sets

/-- A text that one of the parser's encoders leaves alone. -/
def Encoded (character_set : List Nat) (s : Str) : Prop := ∀ c ∈ s, bitAt character_set c = false

section Encoded

variable {character_set : List Nat} {s t : Str} {c : Char}

theorem encoded_percentEncode (member : character_set ∈ urlSets) (input : Str) :
    Encoded character_set (percentEncode input character_set) := by
  rw [percentEncode_eq]
  exact fun c found => escaped_of_mem_encode (keepsEscapes_bitAt member) found

/-- An encoded text is its own encoding. -/
theorem percentEncode_of_encoded (encoded : Encoded character_set s) :
    percentEncode s character_set = s := by
  rw [percentEncode_eq]
  exact encode_of_kept encoded

theorem Encoded.append (front : Encoded character_set s) (back : Encoded character_set t) :
    Encoded character_set (s ++ t) := by
  intro c found
  obtain inside | inside := List.mem_append.mp found
  · exact front c inside
  · exact back c inside

theorem Encoded.not_mem (encoded : Encoded character_set s) (held : bitAt character_set c = true) :
    c ∉ s := by
  intro found
  rw [encoded c found] at held
  cases held

/-- Where the set has the space, an encoded text can be printed anywhere in a line. -/
theorem Encoded.visible (encoded : Encoded character_set s) (member : character_set ∈ urlSets)
    (space : bitAt character_set ' ' = true) : ∀ c ∈ s, ' ' < c ∧ c.toNat < 0x7f := by
  intro c found
  obtain ⟨low, high⟩ := printable_of_kept member (encoded c found)
  refine ⟨?_, high⟩
  by_contra small
  obtain rfl : c = ' ' := Char.le_antisymm (Char.not_lt.mp small) low
  exact encoded.not_mem space found

/-- For every set of the parser: the encoder escapes exactly what the set holds,
does nothing the second time, and leaves what the text decodes to as it was. -/
theorem percentEncode_preserves (member : character_set ∈ urlSets) {input : Str}
    (bytes : ∀ c ∈ input, c.toNat < 256) :
    Encoded character_set (percentEncode input character_set) ∧
      percentEncode (percentEncode input character_set) character_set =
        percentEncode input character_set ∧
      (percentEncode input character_set = input ↔ Encoded character_set input) ∧
      percentDecode (percentEncode input character_set)
          ((percentEncode input character_set).idxOf? '%') =
        percentDecode input (input.idxOf? '%') := by
  have encoded := encoded_percentEncode member input
  refine ⟨encoded, percentEncode_of_encoded encoded, ⟨?_, percentEncode_of_encoded⟩, ?_⟩
  · intro same
    rw [← same]
    exact encoded
  · rw [percentDecode_eq, percentDecode_eq, percentEncode_eq]
    exact decode_encode_of_keepsEscapes (keepsEscapes_bitAt member) bytes

theorem percentEncode_preserves_blank :
    percentDecode (percentEncode "a b%20".toList QUERY_PERCENT_ENCODE)
        ((percentEncode "a b%20".toList QUERY_PERCENT_ENCODE).idxOf? '%') =
      percentDecode "a b%20".toList ("a b%20".toList.idxOf? '%') := by
  have member : QUERY_PERCENT_ENCODE ∈ urlSets := by decide
  have bytes : ("a b%20".toList.all fun c => c.toNat < 256) = true := by decide
  exact (percentEncode_preserves member fun c found =>
    of_decide_eq_true (List.all_eq_true.mp bytes c found)).2.2.2

end Encoded

end Mux.Ada
