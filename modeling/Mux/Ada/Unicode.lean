import Mux.Library.ByteWords
import Mux.Library.PercentCoding

/-!
# Bytes of a URL

The classes of bytes that the parser distinguishes, and its two loops over eight
bytes at a time. A word is loaded from memory in little-endian order, and the
last word is filled up with zero bytes. An addition can carry out of a byte that
is no ASCII character, so lower-casing is exact for ASCII texts only.
-/

namespace Mux.Ada

open ByteWords PercentCoding

namespace Unicode

/-! ## Eight bytes at a time -/

def broadcast (v : Nat) : Nat := 0x101010101010101 * v % 2 ^ 64

/-- The pieces that the loops load: eight bytes each, then what is left. -/
def words : Str → List Str
  | a :: b :: c :: d :: e :: f :: g :: h :: rest => [a, b, c, d, e, f, g, h] :: words rest
  | [] => []
  | rest => [rest]

/-- The bytes of a piece in memory. -/
def bytes (s : Str) : List Nat := s.map fun c => c.toNat % 256

/-- `memcpy` into a word that was zero. -/
def load (s : Str) : Nat := combine (bytes s)

/-- `memcpy` of the lowest bytes of a word. -/
def store (length word : Nat) : Str := (split length word).map Char.ofNat

def lowerWord (word : Nat) : Nat :=
  word ^^^ ((((word + broadcast (128 - 'A'.toNat)) % 2 ^ 64 ^^^
    (word + broadcast (128 - 'Z'.toNat - 1)) % 2 ^ 64) &&& broadcast 0x80) >>> 2)

/-- The text with its letters in lower case, and whether all of it was ASCII. -/
def toLowerAscii (input : Str) : Str × Bool :=
  ((words input).flatMap fun piece => store piece.length (lowerWord (load piece)),
    (words input).foldl (fun non_ascii piece =>
      non_ascii ||| (load piece &&& broadcast 0x80)) 0 == 0)

def hasZeroByte (v : Nat) : Nat :=
  (v + 2 ^ 64 - 0x0101010101010101) % 2 ^ 64 &&& (2 ^ 64 - 1 - v) &&& 0x8080808080808080

def hasTabsOrNewline (user_input : Str) : Bool :=
  (words user_input).foldl (fun running piece =>
    running ||| (hasZeroByte (load piece ^^^ broadcast '\r'.toNat) |||
      hasZeroByte (load piece ^^^ broadcast '\n'.toNat) |||
      hasZeroByte (load piece ^^^ broadcast '\t'.toNat))) 0 != 0

section Pieces

variable {s piece rest : Str}

theorem words_append (full : piece.length = 8) (rest : Str) :
    words (piece ++ rest) = piece :: words rest := by
  match piece, full with
  | [_, _, _, _, _, _, _, _], _ => rfl

theorem words_of_short (short : s.length < 8) : words s = if s = [] then [] else [s] := by
  match s, short with
  | [], _ => rfl
  | [_], _ => rfl
  | [_, _], _ => rfl
  | [_, _, _], _ => rfl
  | [_, _, _, _], _ => rfl
  | [_, _, _, _, _], _ => rfl
  | [_, _, _, _, _, _], _ => rfl
  | [_, _, _, _, _, _, _], _ => rfl

/-- The pieces are as long as a word, apart from the last one. -/
theorem words_cases (s : Str) : s.length < 8 ∨
    ∃ piece rest, s = piece ++ rest ∧ piece.length = 8 := by
  by_cases short : s.length < 8
  · exact .inl short
  · refine .inr ⟨s.take 8, s.drop 8, (List.take_append_drop 8 s).symm, ?_⟩
    rw [List.length_take]
    omega

/-- Induction from one piece to the next. -/
@[elab_as_elim]
theorem words_induction {motive : Str → Prop} (s : Str)
    (last : ∀ s : Str, s.length < 8 → motive s)
    (more : ∀ piece rest : Str, piece.length = 8 → motive rest → motive (piece ++ rest)) :
    motive s := by
  induction length : s.length using Nat.strong_induction_on generalizing s with
  | _ n ih =>
      obtain short | ⟨piece, rest, rfl, full⟩ := words_cases s
      · exact last s short
      · rw [List.length_append, full] at length
        exact more piece rest full (ih rest.length (by omega) rest rfl)

theorem words_flatten (s : Str) : (words s).flatten = s := by
  induction s using words_induction with
  | last s short =>
      rw [words_of_short short]
      split
      · next empty => rw [empty]; rfl
      · simp
  | more piece rest full ih => rw [words_append full, List.flatten_cons, ih]

theorem length_of_mem_words (found : piece ∈ words s) : piece.length ≤ 8 := by
  induction s using words_induction with
  | last s short =>
      rw [words_of_short short] at found
      split at found
      · cases found
      · obtain rfl := List.mem_singleton.mp found
        omega
  | more first rest full ih =>
      rw [words_append full, List.mem_cons] at found
      obtain rfl | found := found
      · omega
      · exact ih found

theorem mem_of_mem_words {c : Char} (found : piece ∈ words s) (member : c ∈ piece) : c ∈ s := by
  rw [← words_flatten s]
  exact List.mem_flatten_of_mem found member

/-- The pieces of a text whose pieces were rewritten without changing their lengths. -/
theorem words_flatMap {f : Str → Str} (same : ∀ piece, (f piece).length = piece.length) (s : Str) :
    words ((words s).flatMap f) = (words s).map f := by
  induction s using words_induction with
  | last s short =>
      have length := same s
      rw [words_of_short short]
      split
      · rfl
      · next nonempty =>
          have kept : f s ≠ [] := by
            intro empty
            rw [empty] at length
            exact nonempty (List.length_eq_zero_iff.mp length.symm)
          rw [List.flatMap_singleton, words_of_short (length ▸ short), if_neg kept]
          rfl
  | more piece rest full ih =>
      rw [words_append full, List.flatMap_cons, words_append ((same piece).trans full), ih,
        List.map_cons]

/-- What the bits of all pieces add up to is zero only if every piece adds nothing. -/
theorem foldl_or_eq_zero (flags : Str → Nat) (pieces : List Str) (n : Nat) :
    pieces.foldl (fun acc piece => acc ||| flags piece) n = 0 ↔
      n = 0 ∧ ∀ piece ∈ pieces, flags piece = 0 := by
  induction pieces generalizing n with
  | nil => simp
  | cons piece pieces ih =>
      rw [List.foldl_cons, ih, Nat.or_eq_zero_iff, List.forall_mem_cons, and_assoc]

end Pieces

/-! ## Lower case -/

/-- One byte in lower case, with the carries that come in from the byte below. -/
def lowerByte (c d b : Nat) : Nat :=
  b ^^^ ((((b + (128 - 65) + c) % 256 ^^^ (b + (128 - 91) + d) % 256) &&& 0x80) / 4)

/-- The bytes of a word in lower case, from the lowest one on. -/
def lowered : Nat → Nat → List Nat → List Nat
  | _, _, [] => []
  | c, d, b :: bs =>
      lowerByte c d b :: lowered ((b + (128 - 65) + c) / 256) ((b + (128 - 91) + d) / 256) bs

section Lower

variable {b c d : Nat} {bs cs : List Nat} {piece : Str}

theorem lowered_cons (c d b : Nat) (bs : List Nat) : lowered c d (b :: bs) =
    lowerByte c d b :: lowered ((b + (128 - 65) + c) / 256) ((b + (128 - 91) + d) / 256) bs := rfl

@[simp] theorem length_lowered (c d : Nat) (bs : List Nat) :
    (lowered c d bs).length = bs.length := by
  induction bs generalizing c d with
  | nil => rfl
  | cons b bs ih => rw [lowered, List.length_cons, List.length_cons, ih]

theorem lowered_append (c d : Nat) (bs cs : List Nat) : ∃ c' d',
    lowered c d (bs ++ cs) = lowered c d bs ++ lowered c' d' cs := by
  induction bs generalizing c d with
  | nil => exact ⟨c, d, rfl⟩
  | cons b bs ih =>
      obtain ⟨c', d', rest⟩ := ih ((b + (128 - 65) + c) / 256) ((b + (128 - 91) + d) / 256)
      exact ⟨c', d', by rw [List.cons_append, lowered, rest, lowered, List.cons_append]⟩

theorem lowerByte_lt (byte : b < 256) : lowerByte c d b < 256 := by
  refine Nat.xor_lt_two_pow (n := 8) byte ?_
  have cut := Nat.and_le_right (n := (b + (128 - 65) + c) % 256 ^^^ (b + (128 - 91) + d) % 256)
    (m := 0x80)
  omega

theorem bytes_lowered (inside : Bytes bs) : Bytes (lowered c d bs) := by
  induction bs generalizing c d with
  | nil => exact fun _ none => absurd none List.not_mem_nil
  | cons b bs ih =>
      obtain ⟨first, rest⟩ := List.forall_mem_cons.mp inside
      exact List.forall_mem_cons.mpr ⟨lowerByte_lt first, ih rest⟩

/-- The word operations, one byte after the other. -/
theorem zipWith_lowered (c d : Nat) (bs : List Nat) :
    List.zipWith (· ^^^ ·) bs (((List.zipWith (· ^^^ ·) (sums (128 - 65) c bs)
      (sums (128 - 91) d bs)).map (· &&& 0x80)).map (· / 4)) = lowered c d bs := by
  induction bs generalizing c d with
  | nil => rfl
  | cons b bs ih => exact congrArg (lowerByte c d b :: ·) (ih _ _)

/-- A byte in every place of a word. -/
theorem broadcast_eq {v : Nat} (byte : v < 256) : broadcast v = combine (List.replicate 8 v) := by
  have all : ∀ v : Fin 256, broadcast v = combine (List.replicate 8 v.val) := by decide +kernel
  exact all ⟨v, byte⟩

/-- A full word is lowered byte by byte. -/
theorem lowerWord_combine (inside : Bytes bs) (full : bs.length = 8) :
    lowerWord (combine bs) = combine (lowered 0 0 bs) := by
  have modulus : 2 ^ 64 = 256 ^ bs.length := by rw [full]; rfl
  have sum : ∀ v < 256, (combine bs + broadcast v) % 2 ^ 64 = combine (sums v 0 bs) := by
    intro v byte
    rw [broadcast_eq byte, modulus, ← full]
    exact add_replicate_mod v 0 bs
  have bits := bytes_xor (bytes_sums 63 0 bs) (bytes_sums 37 0 bs)
  have width : (List.zipWith (· ^^^ ·) (sums 63 0 bs) (sums 37 0 bs)).length = 8 := by simp [full]
  have flags : ∀ b ∈ (List.zipWith (· ^^^ ·) (sums 63 0 bs) (sums 37 0 bs)).map (· &&& 0x80),
      4 ∣ b ∧ b < 256 := by
    intro b found
    obtain ⟨f, -, rfl⟩ := List.mem_map.mp found
    rw [show 0x80 = 2 ^ 7 from rfl, Nat.and_two_pow]
    cases f.testBit 7 <;> decide
  have quarter : Bytes (((List.zipWith (· ^^^ ·) (sums 63 0 bs) (sums 37 0 bs)).map
      (· &&& 0x80)).map (· / 4)) := by
    intro b found
    obtain ⟨f, member, rfl⟩ := List.mem_map.mp found
    exact Nat.lt_of_le_of_lt (Nat.div_le_self f 4) (flags f member).2
  calc lowerWord (combine bs)
      = combine bs ^^^ ((((combine bs + broadcast 63) % 2 ^ 64 ^^^
          (combine bs + broadcast 37) % 2 ^ 64) &&& broadcast 0x80) >>> 2) := rfl
    _ = combine bs ^^^ combine (((List.zipWith (· ^^^ ·) (sums 63 0 bs) (sums 37 0 bs)).map
          (· &&& 0x80)).map (· / 4)) := by
        rw [sum 63 (by decide), sum 37 (by decide), broadcast_eq (by decide),
          xor_combine (bytes_sums _ _ _) (bytes_sums _ _ _) (by simp), ← width,
          and_replicate bits (by decide), shiftRight_two_combine fun b found => (flags b found).1]
    _ = combine (lowered 0 0 bs) := by
        rw [xor_combine inside quarter (by simp [full]), ← zipWith_lowered]

/-- A piece of at most eight bytes, filled up to a word. -/
def pad (bs : List Nat) : List Nat := bs ++ List.replicate (8 - bs.length) 0

theorem length_pad (short : bs.length ≤ 8) : (pad bs).length = 8 := by
  rw [pad, List.length_append, List.length_replicate]
  omega

theorem combine_pad (bs : List Nat) : combine (pad bs) = combine bs := combine_append_zeros bs _

theorem bytes_pad (inside : Bytes bs) : Bytes (pad bs) := by
  intro b found
  obtain member | member := List.mem_append.mp found
  · exact inside b member
  · rw [List.eq_of_mem_replicate member]
    decide

theorem forall_mem_pad {p : Nat → Prop} (zero : p 0) : (∀ b ∈ pad bs, p b) ↔ ∀ b ∈ bs, p b := by
  constructor
  · exact fun all b found => all b (List.mem_append_left _ found)
  · intro all b found
    obtain member | member := List.mem_append.mp found
    · exact all b member
    · rwa [List.eq_of_mem_replicate member]

/-- A piece of at most eight bytes is lowered byte by byte. -/
theorem split_lowerWord (inside : Bytes bs) (short : bs.length ≤ 8) :
    split bs.length (lowerWord (combine bs)) = lowered 0 0 bs := by
  obtain ⟨c, d, shape⟩ := lowered_append 0 0 bs (List.replicate (8 - bs.length) 0)
  have cut := split_combine_append (bytes_lowered (c := 0) (d := 0) inside)
    (lowered c d (List.replicate (8 - bs.length) 0))
  rw [← combine_pad, lowerWord_combine (bytes_pad inside) (length_pad short), pad, shape]
  rwa [length_lowered] at cut

/-- A piece of the text in lower case. -/
def lowerPiece (piece : Str) : Str := store piece.length (lowerWord (load piece))

@[simp] theorem length_lowerPiece (piece : Str) : (lowerPiece piece).length = piece.length := by
  rw [lowerPiece, store, List.length_map, length_split]

theorem bytes_bytes (s : Str) : Bytes (bytes s) := by
  intro b found
  obtain ⟨c, -, rfl⟩ := List.mem_map.mp found
  exact Nat.mod_lt _ (by decide)

theorem lowerPiece_eq (short : piece.length ≤ 8) :
    lowerPiece piece = (lowered 0 0 (bytes piece)).map Char.ofNat := by
  have width : (bytes piece).length = piece.length := List.length_map _
  rw [lowerPiece, store, load, ← split_lowerWord (bytes_bytes piece) (width ▸ short), width]

/-- Without carries, and so in an ASCII text, every letter is lowered for itself. -/
theorem lowered_ascii (ascii : ∀ b ∈ bs, b < 128) : lowered 0 0 bs = bs.map (lowerByte 0 0) := by
  induction bs with
  | nil => rfl
  | cons b bs ih =>
      obtain ⟨first, rest⟩ := List.forall_mem_cons.mp ascii
      have letter : (b + (128 - 65) + 0) / 256 = 0 := Nat.div_eq_of_lt (by omega)
      have behind : (b + (128 - 91) + 0) / 256 = 0 := Nat.div_eq_of_lt (by omega)
      rw [lowered, letter, behind, ih rest, List.map_cons]

theorem ofNat_lowerByte {c : Char} (ascii : c.toNat < 128) :
    Char.ofNat (lowerByte 0 0 (c.toNat % 256)) = c.toLower := by
  have all : ∀ n : Fin 256, (Char.ofNat n).toNat < 128 →
      Char.ofNat (lowerByte 0 0 ((Char.ofNat n).toNat % 256)) = (Char.ofNat n).toLower := by
    decide +kernel
  exact forall_byte (p := fun c => c.toNat < 128 →
    Char.ofNat (lowerByte 0 0 (c.toNat % 256)) = c.toLower) all (by omega) ascii

theorem toLowerAscii_fst (s : Str) : (toLowerAscii s).1 = (words s).flatMap lowerPiece := rfl

theorem length_toLowerAscii (s : Str) : (toLowerAscii s).1.length = s.length := by
  rw [toLowerAscii_fst, List.length_flatMap]
  conv_rhs => rw [← words_flatten s, List.length_flatten]
  simp only [length_lowerPiece]

/-- For an ASCII text the eight bytes at a time come to the same as one after
the other. -/
theorem toLowerAscii_of_ascii {s : Str} (ascii : ∀ c ∈ s, c.toNat < 128) :
    (toLowerAscii s).1 = s.map Char.toLower := by
  have pieces : ∀ piece ∈ words s, lowerPiece piece = piece.map Char.toLower := by
    intro piece found
    have inside : ∀ c ∈ piece, c.toNat < 128 := fun c member =>
      ascii c (mem_of_mem_words found member)
    have low : ∀ b ∈ bytes piece, b < 128 := by
      intro b member
      obtain ⟨c, source, rfl⟩ := List.mem_map.mp member
      exact Nat.lt_of_le_of_lt (Nat.mod_le _ _) (inside c source)
    rw [lowerPiece_eq (length_of_mem_words found), lowered_ascii low, bytes, List.map_map,
      List.map_map]
    exact List.map_congr_left fun c member => ofNat_lowerByte (inside c member)
  calc (toLowerAscii s).1 = (words s).flatMap (·.map Char.toLower) :=
        List.flatMap_congr pieces
    _ = ((words s).flatten).map Char.toLower := by
        rw [List.flatMap, List.map_flatten]
    _ = s.map Char.toLower := by rw [words_flatten]

theorem combine_and_highest (inside : Bytes bs) (short : bs.length ≤ 8) :
    combine bs &&& broadcast 0x80 = 0 ↔ ∀ b ∈ bs, b < 128 := by
  have all : ∀ b : Fin 256, b.val &&& 0x80 = 0 ↔ b.val < 128 := by decide +kernel
  have byte : ∀ b ∈ pad bs, b &&& 0x80 = 0 ↔ b < 128 := fun b found =>
    all ⟨b, bytes_pad inside b found⟩
  rw [← combine_pad, broadcast_eq (by decide), ← length_pad short,
    and_replicate (bytes_pad inside) (by decide), combine_eq_zero, List.forall_mem_map,
    ← forall_mem_pad (p := (· < 128)) (by decide)]
  exact forall₂_congr byte

/-- The second result tells whether the text is ASCII. -/
theorem toLowerAscii_snd {s : Str} (inside : ∀ c ∈ s, c.toNat < 256) :
    (toLowerAscii s).2 = true ↔ ∀ c ∈ s, c.toNat < 128 := by
  have piece_ascii : ∀ piece ∈ words s,
      load piece &&& broadcast 0x80 = 0 ↔ ∀ c ∈ piece, c.toNat < 128 := by
    intro piece found
    have width : (bytes piece).length ≤ 8 :=
      (List.length_map _).le.trans (length_of_mem_words found)
    rw [load, combine_and_highest (bytes_bytes piece) width, bytes, List.forall_mem_map]
    refine forall₂_congr fun c member => ?_
    rw [Nat.mod_eq_of_lt (inside c (mem_of_mem_words found member))]
  rw [toLowerAscii, beq_iff_eq, foldl_or_eq_zero]
  constructor
  · rintro ⟨-, ascii⟩ c member
    rw [← words_flatten s] at member
    obtain ⟨piece, found, place⟩ := List.mem_flatten.mp member
    exact (piece_ascii piece found).mp (ascii piece found) c place
  · intro ascii
    refine ⟨rfl, fun piece found => (piece_ascii piece found).mpr fun c place => ?_⟩
    exact ascii c (mem_of_mem_words found place)

/-! ## Lowering twice -/

/-- The bytes that may stand in a host: visible ASCII, and the last byte of all. -/
def Plain (b : Nat) : Prop := b < 128 ∨ b = 255

instance : DecidablePred Plain := fun b => inferInstanceAs (Decidable (b < 128 ∨ b = 255))

/-- Behind a byte of that kind both carries are the same. -/
theorem carry_plain (plain : Plain b) (bound : c < 2) :
    (b + (128 - 91) + c) / 256 = (b + (128 - 65) + c) / 256 ∧ (b + (128 - 65) + c) / 256 < 2 := by
  obtain low | rfl := plain <;> omega

theorem plain_of_lowerByte (byte : b < 256) (bound : c < 2) (plain : Plain (lowerByte c c b)) :
    Plain b := by
  have all : ∀ b : Fin 256, ∀ c : Fin 2, Plain (lowerByte c c b) → Plain b := by decide +kernel
  exact all ⟨b, byte⟩ ⟨c, bound⟩ plain

/-- A byte that was lowered is not lowered again, and carries as it did before. -/
theorem lowerByte_lowerByte (byte : b < 256) (bound : c < 2) (plain : Plain b) :
    Plain (lowerByte c c b) ∧ lowerByte c c (lowerByte c c b) = lowerByte c c b ∧
      (lowerByte c c b + (128 - 65) + c) / 256 = (b + (128 - 65) + c) / 256 := by
  have all : ∀ b : Fin 256, ∀ c : Fin 2, Plain b → Plain (lowerByte c c b) ∧
      lowerByte c c (lowerByte c c b) = lowerByte c c b ∧
      (lowerByte c c b + (128 - 65) + c) / 256 = (b.val + (128 - 65) + c) / 256 := by
    decide +kernel
  exact all ⟨b, byte⟩ ⟨c, bound⟩ plain

theorem lowered_lowered (inside : Bytes bs) (bound : c < 2)
    (plain : ∀ b ∈ lowered c c bs, Plain b) :
    lowered c c (lowered c c bs) = lowered c c bs := by
  induction bs generalizing c with
  | nil => rfl
  | cons b bs ih =>
      obtain ⟨first, rest⟩ := List.forall_mem_cons.mp inside
      rw [lowered_cons, List.forall_mem_cons] at plain
      have source := plain_of_lowerByte first bound plain.1
      obtain ⟨same, small⟩ := carry_plain source bound
      obtain ⟨-, again, onward⟩ := lowerByte_lowerByte first bound source
      obtain ⟨same', -⟩ := carry_plain plain.1 bound
      rw [same] at plain
      rw [lowered_cons, same, lowered_cons, same', onward, again, ih rest small plain.2]

theorem bytes_map_ofNat (inside : Bytes bs) : bytes (bs.map Char.ofNat) = bs := by
  have all : ∀ b : Fin 256, (Char.ofNat b).toNat % 256 = b := by decide +kernel
  rw [bytes, List.map_map]
  conv_rhs => rw [← List.map_id bs]
  exact List.map_congr_left fun b found => all ⟨b, inside b found⟩

/-- Where the second result says so, the first one is the text in lower case. -/
theorem toLowerAscii_spec {s : Str} (inside : ∀ c ∈ s, c.toNat < 256) :
    ((toLowerAscii s).2 = true ↔ ∀ c ∈ s, c.toNat < 128) ∧
      ((toLowerAscii s).2 = true → (toLowerAscii s).1 = s.map Char.toLower) ∧
      (toLowerAscii s).1.length = s.length :=
  ⟨toLowerAscii_snd inside, fun ascii => toLowerAscii_of_ascii ((toLowerAscii_snd inside).mp ascii),
    length_toLowerAscii s⟩

theorem toLowerAscii_spec_nine : (toLowerAscii "ABCDEFGH[".toList).1 = "abcdefgh[".toList := by
  have bytes : ("ABCDEFGH[".toList.all fun c => c.toNat < 256) = true := by decide
  exact (toLowerAscii_spec fun c found =>
    of_decide_eq_true (List.all_eq_true.mp bytes c found)).2.1 (by decide +kernel)

/-- A text in lower case stays as it is, also behind bytes that carry. -/
theorem toLowerAscii_toLowerAscii {s : Str}
    (plain : ∀ c ∈ (toLowerAscii s).1, c.toNat < 128 ∨ c.toNat = 255) :
    (toLowerAscii (toLowerAscii s).1).1 = (toLowerAscii s).1 := by
  rw [toLowerAscii_fst] at plain
  have pieces : ∀ piece ∈ words s, lowerPiece (lowerPiece piece) = lowerPiece piece := by
    intro piece found
    have short := length_of_mem_words found
    have low := lowerPiece_eq short
    have inside := bytes_lowered (c := 0) (d := 0) (bytes_bytes piece)
    have stays : ∀ b ∈ lowered 0 0 (bytes piece), Plain b := by
      intro b member
      have code : (Char.ofNat b).toNat = b := by
        have all : ∀ b : Fin 256, (Char.ofNat b).toNat = b := by decide +kernel
        exact all ⟨b, inside b member⟩
      have shown := plain (Char.ofNat b) (List.mem_flatMap.mpr ⟨piece, found, by
        rw [low]
        exact List.mem_map_of_mem member⟩)
      rwa [code] at shown
    rw [lowerPiece_eq ((length_lowerPiece piece).le.trans short), low, bytes_map_ofNat inside,
      lowered_lowered (bytes_bytes piece) (by decide) stays]
  calc (toLowerAscii (toLowerAscii s).1).1
      = ((words s).map lowerPiece).flatMap lowerPiece := by
        rw [toLowerAscii_fst, toLowerAscii_fst, words_flatMap length_lowerPiece]
    _ = (words s).flatMap fun piece => lowerPiece (lowerPiece piece) := List.flatMap_map ..
    _ = (words s).flatMap lowerPiece := List.flatMap_congr pieces

end Lower

/-! ## Tabs and newlines -/

section Zeros

variable {bs : List Nat}

theorem hasZeroByte_combine (inside : Bytes bs) (full : bs.length = 8) :
    hasZeroByte (combine bs) = 0 ↔ 0 ∉ bs := by
  have modulus : 2 ^ 64 = 256 ^ bs.length := by rw [full]; rfl
  have ones : 0x0101010101010101 = combine (List.replicate bs.length 1) := by rw [full]; rfl
  have highest : 0x8080808080808080 =
      combine (List.replicate
        (List.zipWith (· &&& ·) (pred 0 bs) (bs.map (255 - ·))).length 0x80) := by
    simp [full]
  have complement : Bytes (bs.map (255 - ·)) := by
    intro b found
    obtain ⟨c, -, rfl⟩ := List.mem_map.mp found
    omega
  have flags := exists_zeroFlags inside
  rw [hasZeroByte, modulus, ones, sub_replicate_mod inside, complement_combine inside,
    and_combine (bytes_pred 0 bs) complement (by simp), highest,
    and_replicate (bytes_and (bytes_pred 0 bs) complement) (by decide), combine_eq_zero, ← flags]
  simp [zeroFlags]

/-- A word that differs from the wanted byte in every place, filled up with zeros. -/
theorem hasZeroByte_xor (inside : Bytes bs) (short : bs.length ≤ 8) {v : Nat} (byte : v < 256)
    (positive : v ≠ 0) : hasZeroByte (combine bs ^^^ broadcast v) = 0 ↔ v ∉ bs := by
  have masked : Bytes ((pad bs).map (· ^^^ v)) := by
    intro b found
    obtain ⟨c, member, rfl⟩ := List.mem_map.mp found
    exact Nat.xor_lt_two_pow (n := 8) (bytes_pad inside c member) byte
  rw [← combine_pad, broadcast_eq byte, ← length_pad short,
    xor_replicate (bytes_pad inside) byte,
    hasZeroByte_combine masked ((List.length_map _).trans (length_pad short)), not_iff_not]
  have place : ∀ b, b ^^^ v = 0 ↔ b = v := fun b => Nat.xor_eq_zero_iff
  constructor
  · intro found
    obtain ⟨b, member, zero⟩ := List.mem_map.mp found
    rw [place] at zero
    subst zero
    obtain member | member := List.mem_append.mp member
    · exact member
    · exact absurd (List.eq_of_mem_replicate member) positive
  · intro found
    exact List.mem_map.mpr ⟨v, List.mem_append_left _ found, (place v).mpr rfl⟩

end Zeros

/-- The search over words finds what a search over bytes does. -/
theorem hasTabsOrNewline_eq {s : Str} (inside : ∀ c ∈ s, c.toNat < 256) :
    hasTabsOrNewline s = s.any fun c => c = '\r' || c = '\n' || c = '\t' := by
  have piece_clean : ∀ piece ∈ words s, ∀ c : Char, c.toNat < 256 → c.toNat ≠ 0 →
      (hasZeroByte (load piece ^^^ broadcast c.toNat) = 0 ↔ c ∉ piece) := by
    intro piece found c byte positive
    have width : (bytes piece).length ≤ 8 :=
      (List.length_map _).le.trans (length_of_mem_words found)
    rw [load, hasZeroByte_xor (bytes_bytes piece) width byte positive, not_iff_not, bytes,
      List.mem_map]
    constructor
    · rintro ⟨d, member, same⟩
      rw [Nat.mod_eq_of_lt (inside d (mem_of_mem_words found member))] at same
      rwa [← Char.toNat_inj.mp same]
    · exact fun member => ⟨c, member, Nat.mod_eq_of_lt byte⟩
  have clean : hasTabsOrNewline s = false ↔ ∀ c ∈ s, c ≠ '\r' ∧ c ≠ '\n' ∧ c ≠ '\t' := by
    rw [hasTabsOrNewline, bne_eq_false_iff_eq, foldl_or_eq_zero]
    simp only [Nat.or_eq_zero_iff, true_and]
    constructor
    · intro quiet c member
      rw [← words_flatten s] at member
      obtain ⟨piece, found, place⟩ := List.mem_flatten.mp member
      obtain ⟨⟨feed, line⟩, tab⟩ := quiet piece found
      rw [piece_clean piece found _ (by decide) (by decide)] at feed line tab
      refine ⟨?_, ?_, ?_⟩ <;> rintro rfl
      · exact feed place
      · exact line place
      · exact tab place
    · intro none piece found
      rw [piece_clean piece found _ (by decide) (by decide),
        piece_clean piece found _ (by decide) (by decide),
        piece_clean piece found _ (by decide) (by decide)]
      have absent := fun c (member : c ∈ piece) => none c (mem_of_mem_words found member)
      exact ⟨⟨fun h => (absent _ h).1 rfl, fun h => (absent _ h).2.1 rfl⟩,
        fun h => (absent _ h).2.2 rfl⟩
  rw [Bool.eq_iff_iff, ← not_iff_not, Bool.not_eq_true, Bool.not_eq_true, clean, List.any_eq_false]
  simp [not_or, and_assoc]

theorem hasTabsOrNewline_behind_word : hasTabsOrNewline "http://h/a\tb".toList = true := by
  have bytes : ("http://h/a\tb".toList.all fun c => c.toNat < 256) = true := by decide
  rw [hasTabsOrNewline_eq fun c found => of_decide_eq_true (List.all_eq_true.mp bytes c found)]
  decide

/-! ## Classes of bytes -/

def isForbiddenHostCodePoint (c : Char) : Bool :=
  c ∈ ['\x00', '\x09', '\x0a', '\x0d', ' ', '#', '/', ':', '<', '>', '?', '@', '[', '\\', ']', '^',
    '|']

/-- The table is filled up to its last entry, which stays clear. -/
def isForbiddenDomainCodePoint (c : Char) : Bool :=
  c ∈ ['\x00', '\x09', '\x0a', '\x0d', ' ', '#', '/', ':', '<', '>', '?', '@', '[', '\\', ']', '^',
    '|', '%'] || c.toNat ≤ 32 || (127 ≤ c.toNat && c.toNat ≠ 255)

def containsForbiddenDomainCodePoint (input : Str) : Bool := input.any isForbiddenDomainCodePoint

def isAlnumPlus (c : Char) : Bool :=
  ('0' ≤ c && c ≤ '9') || ('a' ≤ c && c ≤ 'z') || ('A' ≤ c && c ≤ 'Z') ||
    c = '+' || c = '-' || c = '.'

def isC0ControlOrSpace (c : Char) : Bool := c ≤ ' '

def isAsciiTabOrNewline (c : Char) : Bool := c = '\t' || c = '\n' || c = '\r'

def isLowercaseHex (c : Char) : Bool := (c ≥ '0' && c ≤ '9') || (c ≥ 'a' && c ≤ 'f')

/-! ## Dot segments -/

def tableIsDoubleDotPathSegment : List Str :=
  [['.', '.'], ['%', '2', 'e', '.'], ['.', '%', '2', 'e'], ['%', '2', 'e', '%', '2', 'e']]

/-- The lower case of a letter, as the loop over the segment computes it. -/
def lowerLetter (c : Char) : Nat :=
  if ((c.toNat ||| 0x20) + 256 - 0x61) % 256 ≤ 25 then c.toNat ||| 0x20 else c.toNat

/-- The only entry of the table that a segment can match. -/
def doubleDotTarget (length : Nat) (first : Char) : Str :=
  tableIsDoubleDotPathSegment.getD ((length + first.toNat) &&& 3) []

def isDoubleDotPathSegment (input : Str) : Bool :=
  match input with
  | [] => false
  | first :: rest =>
      if (input.length / 2 + 2 ^ 64 - 1) % 2 ^ 64 > 2 then false
      else if first ≠ '.' ∧ first ≠ '%' then false
      else if (doubleDotTarget input.length first).length ≠ input.length then false
      else if input.take 2 ≠ (doubleDotTarget input.length first).take 2 then false
      else (rest.drop 1).map lowerLetter =
        ((doubleDotTarget input.length first).drop 2).map Char.toNat

def isSingleDotPathSegment (input : Str) : Bool :=
  input = ['.'] || input = ['%', '2', 'e'] || input = ['%', '2', 'E']

section Segments

variable {c : Char}

theorem toNat_le_lowerLetter : c.toNat ≤ lowerLetter c := by
  rw [lowerLetter]
  split
  · exact Nat.left_le_or
  · exact Nat.le_refl _

/-- Only the two cases of a letter become the letter, and only the other
characters of the table become themselves. -/
theorem lowerLetter_eq : (lowerLetter c = 'e'.toNat ↔ c = 'e' ∨ c = 'E') ∧
    (lowerLetter c = '.'.toNat ↔ c = '.') ∧ (lowerLetter c = '%'.toNat ↔ c = '%') ∧
    (lowerLetter c = '2'.toNat ↔ c = '2') := by
  by_cases byte : c.toNat < 256
  · refine forall_byte (p := fun c => (lowerLetter c = 'e'.toNat ↔ c = 'e' ∨ c = 'E') ∧
      (lowerLetter c = '.'.toNat ↔ c = '.') ∧ (lowerLetter c = '%'.toNat ↔ c = '%') ∧
      (lowerLetter c = '2'.toNat ↔ c = '2')) ?_ byte
    decide +kernel
  · have large : ∀ d : Char, d.toNat < 256 → lowerLetter c ≠ d.toNat ∧ c ≠ d := by
      intro d small
      have grows := toNat_le_lowerLetter (c := c)
      refine ⟨by omega, ?_⟩
      rintro rfl
      exact byte small
    have away := fun d small => iff_of_false (large d small).1 (large d small).2
    refine ⟨iff_of_false (large 'e' (by decide)).1 ?_, away '.' (by decide), away '%' (by decide),
      away '2' (by decide)⟩
    exact not_or.mpr ⟨(large 'e' (by decide)).2, (large 'E' (by decide)).2⟩

theorem isDoubleDotPathSegment_cons {first : Char} {rest input : Str}
    (shape : input = first :: rest) :
    isDoubleDotPathSegment input = true ↔ (input.length / 2 + 2 ^ 64 - 1) % 2 ^ 64 ≤ 2 ∧
      (first = '.' ∨ first = '%') ∧ (doubleDotTarget input.length first).length = input.length ∧
      input.take 2 = (doubleDotTarget input.length first).take 2 ∧
      (rest.drop 1).map lowerLetter =
        ((doubleDotTarget input.length first).drop 2).map Char.toNat := by
  subst shape
  rw [isDoubleDotPathSegment]
  by_cases size : ((first :: rest).length / 2 + 2 ^ 64 - 1) % 2 ^ 64 > 2
  · rw [if_pos size]
    exact iff_of_false Bool.false_ne_true fun all => absurd all.1 (Nat.not_le.mpr size)
  rw [if_neg size, ← Nat.not_lt]
  by_cases front : first ≠ '.' ∧ first ≠ '%'
  · rw [if_pos front]
    exact iff_of_false Bool.false_ne_true fun all => all.2.1.elim front.1 front.2
  rw [if_neg front]
  by_cases length : (doubleDotTarget (first :: rest).length first).length = (first :: rest).length
  · rw [if_neg (not_not.mpr length)]
    by_cases start : (first :: rest).take 2 =
        (doubleDotTarget (first :: rest).length first).take 2
    · rw [if_neg (not_not.mpr start), decide_eq_true_eq]
      rw [not_and_or, not_not, not_not] at front
      exact ⟨fun same => ⟨size, front, length, start, same⟩, fun all => all.2.2.2.2⟩
    · rw [if_pos start]
      exact iff_of_false Bool.false_ne_true fun all => start all.2.2.2.1
  · rw [if_pos length]
    exact iff_of_false Bool.false_ne_true fun all => length all.2.2.1

theorem length_doubleDotTarget (n : Nat) (first : Char) :
    (doubleDotTarget n first).length ∈ [0, 2, 4, 6] := by
  have table : ∀ i : Fin 4, (tableIsDoubleDotPathSegment.getD i []).length ∈ [0, 2, 4, 6] := by
    decide
  have place : (n + first.toNat) &&& 3 < 4 := Nat.lt_of_le_of_lt Nat.and_le_right (by decide)
  exact table ⟨_, place⟩

theorem target_dot : doubleDotTarget 2 '.' = ['.', '.'] ∧
    doubleDotTarget 4 '.' = ['.', '%', '2', 'e'] := by decide

theorem target_percent : doubleDotTarget 4 '%' = ['%', '2', 'e', '.'] ∧
    doubleDotTarget 6 '%' = ['%', '2', 'e', '%', '2', 'e'] := by decide

/-- The hash picks the only target that can match. -/
theorem isDoubleDotPathSegment_iff (input : Str) : isDoubleDotPathSegment input = true ↔
    input ∈ [['.', '.'], ['.', '%', '2', 'e'], ['.', '%', '2', 'E'], ['%', '2', 'e', '.'],
      ['%', '2', 'E', '.'], ['%', '2', 'e', '%', '2', 'e'], ['%', '2', 'E', '%', '2', 'e'],
      ['%', '2', 'e', '%', '2', 'E'], ['%', '2', 'E', '%', '2', 'E']] := by
  rcases input with - | ⟨a, rest⟩
  · decide
  rw [isDoubleDotPathSegment_cons rfl]
  obtain ⟨letter, dot, sign, two⟩ : (∀ c, lowerLetter c = 101 ↔ c = 'e' ∨ c = 'E') ∧
      (∀ c, lowerLetter c = 46 ↔ c = '.') ∧ (∀ c, lowerLetter c = 37 ↔ c = '%') ∧
      ∀ c, lowerLetter c = 50 ↔ c = '2' :=
    ⟨fun _ => lowerLetter_eq.1, fun _ => lowerLetter_eq.2.1, fun _ => lowerLetter_eq.2.2.1,
      fun _ => lowerLetter_eq.2.2.2⟩
  constructor
  · rintro ⟨-, front, length, start, behind⟩
    have sizes := length_doubleDotTarget (a :: rest).length a
    rw [length] at sizes
    have shape : (∃ b, rest = [b]) ∨ (∃ b c d, rest = [b, c, d]) ∨
        ∃ b c d e f, rest = [b, c, d, e, f] := by
      rcases rest with - | ⟨b, - | ⟨c, - | ⟨d, - | ⟨e, - | ⟨f, - | ⟨g, rest⟩⟩⟩⟩⟩⟩ <;>
        simp at sizes ⊢
    obtain ⟨b, rfl⟩ | ⟨b, c, d, rfl⟩ | ⟨b, c, d, e, f, rfl⟩ := shape
    · obtain rfl | rfl := front
      · have target : doubleDotTarget ['.', b].length '.' = ['.', '.'] := target_dot.1
        rw [target] at start
        rw [show b = '.' from (List.cons.inj (List.cons.inj start).2).1]
        exact List.mem_cons_self
      · exact absurd (show (doubleDotTarget 2 '%').length = 2 from length) (by decide)
    · obtain rfl | rfl := front
      · have target : doubleDotTarget ['.', b, c, d].length '.' = ['.', '%', '2', 'e'] :=
          target_dot.2
        rw [target] at start behind
        change ['.', b] = ['.', '%'] at start
        change [lowerLetter c, lowerLetter d] = [50, 101] at behind
        simp only [List.cons.injEq, letter, two, and_true, true_and] at start behind
        obtain ⟨rfl, rfl, rfl | rfl⟩ := And.intro start behind <;> simp
      · have target : doubleDotTarget ['%', b, c, d].length '%' = ['%', '2', 'e', '.'] :=
          target_percent.1
        rw [target] at start behind
        change ['%', b] = ['%', '2'] at start
        change [lowerLetter c, lowerLetter d] = [101, 46] at behind
        simp only [List.cons.injEq, letter, dot, and_true, true_and] at start behind
        obtain ⟨rfl, rfl | rfl, rfl⟩ := And.intro start behind <;> simp
    · obtain rfl | rfl := front
      · exact absurd (show (doubleDotTarget 6 '.').length = 6 from length) (by decide)
      · have target : doubleDotTarget ['%', b, c, d, e, f].length '%' =
            ['%', '2', 'e', '%', '2', 'e'] := target_percent.2
        rw [target] at start behind
        change ['%', b] = ['%', '2'] at start
        change [lowerLetter c, lowerLetter d, lowerLetter e, lowerLetter f] = [101, 37, 50, 101]
          at behind
        simp only [List.cons.injEq, letter, sign, two, and_true, true_and] at start behind
        obtain ⟨rfl, rfl | rfl, rfl, rfl, rfl | rfl⟩ := And.intro start behind <;> simp
  · have all : ∀ s ∈ [['.', '.'], ['.', '%', '2', 'e'], ['.', '%', '2', 'E'], ['%', '2', 'e', '.'],
        ['%', '2', 'E', '.'], ['%', '2', 'e', '%', '2', 'e'], ['%', '2', 'E', '%', '2', 'e'],
        ['%', '2', 'e', '%', '2', 'E'], ['%', '2', 'E', '%', '2', 'E']],
        isDoubleDotPathSegment s = true := by decide
    exact fun found => (isDoubleDotPathSegment_cons rfl).mp (all (a :: rest) found)

end Segments

end Unicode

end Mux.Ada
