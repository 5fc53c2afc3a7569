import Mathlib.Data.List.Induction
import Mux.Library.Text

/-!
# Percent coding

An escape is a percent sign in front of the two hexadecimal digits of a byte.
The encoder escapes the characters of a given set and keeps the others. The
decoder replaces every escape and keeps a percent sign that no two digits
follow. A set that keeps the percent sign cannot be decoded to the original
text, but neither does encoding change what the text is decoded to.
-/

namespace PercentCoding

/-- A property of all bytes, shown for each of their numbers. -/
theorem forall_byte {p : Char → Prop} (all : ∀ n : Fin 256, p (Char.ofNat n)) {c : Char}
    (byte : c.toNat < 256) : p c := by
  have at_code := all ⟨c.toNat, byte⟩
  rwa [Char.ofNat_toNat] at at_code

/-! ## Hexadecimal digits -/

def isHexDigit (c : Char) : Bool :=
  ('0' ≤ c && c ≤ '9') || ('A' ≤ c && c ≤ 'F') || ('a' ≤ c && c ≤ 'f')

/-- The value of a hexadecimal digit. -/
def hexValue (c : Char) : Nat :=
  if c ≤ '9' then c.toNat - 48 else if c ≤ 'F' then c.toNat - 55 else c.toNat - 87

/-- The digit in upper case. -/
def upperDigit (n : Nat) : Char := n.digitChar.toUpper

theorem isHexDigit_upperDigit {n : Nat} (digit : n < 16) : isHexDigit (upperDigit n) := by
  have all : ∀ n : Fin 16, isHexDigit (upperDigit n) = true := by decide
  exact all ⟨n, digit⟩

theorem hexValue_upperDigit {n : Nat} (digit : n < 16) : hexValue (upperDigit n) = n := by
  have all : ∀ n : Fin 16, hexValue (upperDigit n) = n := by decide
  exact all ⟨n, digit⟩

theorem toNat_lt_of_isHexDigit {c : Char} (digit : isHexDigit c) : c.toNat < 128 := by
  simp only [isHexDigit, Bool.or_eq_true, Bool.and_eq_true, decide_eq_true_eq, Char.le_def,
    UInt32.le_iff_toNat_le] at digit
  change c.val.toNat < 128
  obtain (⟨-, upper⟩ | ⟨-, upper⟩) | ⟨-, upper⟩ := digit
  all_goals exact Nat.lt_of_le_of_lt upper (by decide)

/-! ## Escapes -/

/-- The escape of a byte. -/
def escape (c : Char) : Str := ['%', upperDigit (c.toNat / 16 % 16), upperDigit (c.toNat % 16)]

/-- Escape the characters of a set. -/
def encode (escaped : Char → Bool) (s : Str) : Str :=
  s.flatMap fun c => if escaped c then escape c else [c]

/-- Replace every escape by the byte it names. -/
def decode : Str → Str
  | [] => []
  | '%' :: a :: b :: rest =>
      if isHexDigit a && isHexDigit b then
        Char.ofNat (hexValue a * 16 + hexValue b) :: decode rest
      else '%' :: decode (a :: b :: rest)
  | c :: rest => c :: decode rest

section Encode

variable {escaped : Char → Bool} {s t : Str} {c : Char}

@[simp] theorem encode_nil : encode escaped [] = [] := rfl

theorem encode_cons : encode escaped (c :: s) =
    (if escaped c then escape c else [c]) ++ encode escaped s := List.flatMap_cons

@[simp] theorem encode_append : encode escaped (s ++ t) = encode escaped s ++ encode escaped t :=
  List.flatMap_append

/-- Where nothing is escaped the text stays as it is. -/
theorem encode_of_kept (kept : ∀ c ∈ s, escaped c = false) : encode escaped s = s := by
  induction s with
  | nil => rfl
  | cons c s ih =>
      obtain ⟨first, rest⟩ := List.forall_mem_cons.mp kept
      rw [encode_cons, first, ih rest]
      rfl

/-- What an encoded text consists of. -/
theorem mem_encode (found : c ∈ encode escaped s) :
    c ∈ s ∧ escaped c = false ∨ c = '%' ∨ isHexDigit c := by
  obtain ⟨d, member, inside⟩ := List.mem_flatMap.mp found
  split at inside
  · obtain rfl | inside := List.mem_cons.mp inside
    · exact .inr (.inl rfl)
    · obtain rfl | inside := List.mem_cons.mp inside
      · exact .inr (.inr (isHexDigit_upperDigit (Nat.mod_lt _ (by decide))))
      · obtain rfl := List.mem_singleton.mp inside
        exact .inr (.inr (isHexDigit_upperDigit (Nat.mod_lt _ (by decide))))
  · next kept =>
      obtain rfl := List.mem_singleton.mp inside
      exact .inl ⟨member, by simpa using kept⟩

theorem encode_eq_nil : encode escaped s = [] ↔ s = [] := by
  cases s with
  | nil => simp
  | cons c s =>
      rw [encode_cons]
      split <;> simp [escape]

/-- What is no percent sign stands in front of an encoded text only where it stood
there before. -/
theorem head?_encode (other : c ≠ '%') (first : (encode escaped s).head? = some c) :
    s.head? = some c := by
  cases s with
  | nil => cases first
  | cons d s =>
      rw [encode_cons] at first
      split at first
      · exact absurd (Option.some.inj first).symm other
      · exact first

/-- What is no digit stands at the end of an encoded text only where it stood at the
end before. -/
theorem getLast?_encode (other : isHexDigit c = false)
    (last : (encode escaped s).getLast? = some c) : s.getLast? = some c := by
  cases s using List.reverseRecOn with
  | nil => cases last
  | append_singleton s d =>
      rw [encode_append, encode_cons, encode_nil, List.append_nil] at last
      rw [List.getLast?_concat]
      split at last
      · rw [List.getLast?_append_of_ne_nil _ (by simp [escape])] at last
        obtain rfl : upperDigit (d.toNat % 16) = c := Option.some.inj last
        rw [isHexDigit_upperDigit (Nat.mod_lt _ (by decide))] at other
        cases other
      · rwa [List.getLast?_append_of_ne_nil _ (by simp)] at last

/-- Sets that keep percent signs and hexadecimal digits, as those of a URL do. -/
structure KeepsEscapes (escaped : Char → Bool) : Prop where
  percent : escaped '%' = false
  digit : ∀ c, isHexDigit c → escaped c = false

/-- No character of the set is left behind. -/
theorem escaped_of_mem_encode (keeps : KeepsEscapes escaped) (found : c ∈ encode escaped s) :
    escaped c = false := by
  obtain ⟨-, kept⟩ | rfl | digit := mem_encode found
  · exact kept
  · exact keeps.percent
  · exact keeps.digit c digit

end Encode

/-! ## Decoding what was encoded -/

section Decode

variable {escaped : Char → Bool} {s : Str} {c : Char}

@[simp] theorem decode_nil : decode [] = [] := rfl

theorem decode_cons_of_ne (other : c ≠ '%') (rest : Str) :
    decode (c :: rest) = c :: decode rest := by
  rw [decode]
  rintro a b rest' rfl
  exact absurd rfl other

theorem decode_escape (byte : c.toNat < 256) (rest : Str) :
    decode (escape c ++ rest) = c :: decode rest := by
  have high : c.toNat / 16 % 16 < 16 := Nat.mod_lt _ (by decide)
  have low : c.toNat % 16 < 16 := Nat.mod_lt _ (by decide)
  have code : c.toNat / 16 % 16 * 16 + c.toNat % 16 = c.toNat := by omega
  change decode ('%' :: _ :: _ :: rest) = _
  rw [decode, isHexDigit_upperDigit high, isHexDigit_upperDigit low, hexValue_upperDigit high,
    hexValue_upperDigit low, code, Char.ofNat_toNat]
  rfl

/-- Two hexadecimal digits stand in front. -/
def Digits (s : Str) : Prop := ∃ a b rest, s = a :: b :: rest ∧ isHexDigit a ∧ isHexDigit b

theorem decode_percent_of_not_digits {rest : Str} (none : ¬ Digits rest) :
    decode ('%' :: rest) = '%' :: decode rest := by
  rcases rest with - | ⟨a, - | ⟨b, rest⟩⟩
  · rfl
  · rfl
  · rw [decode, if_neg]
    intro digits
    obtain ⟨first, second⟩ := Bool.and_eq_true_iff.mp digits
    exact none ⟨a, b, rest, rfl, first, second⟩

/-- Encoding brings no digits to the front, since an escape starts with a percent sign. -/
theorem digits_of_encode (digits : Digits (encode escaped s)) : Digits s := by
  obtain ⟨a, b, rest, shape, first, second⟩ := digits
  have sign : isHexDigit '%' ≠ true := by decide
  have kept_front : ∀ {c : Char} {cs : Str} {d : Char} {ds : Str}, isHexDigit d →
      encode escaped (c :: cs) = d :: ds → c = d ∧ encode escaped cs = ds := by
    intro c cs d ds digit front
    rw [encode_cons] at front
    split at front
    · obtain ⟨rfl, -⟩ := List.cons.inj front
      exact absurd digit sign
    · exact List.cons.inj front
  rcases s with - | ⟨c, s⟩
  · cases shape
  · obtain ⟨rfl, behind⟩ := kept_front first shape
    rcases s with - | ⟨d, s⟩
    · cases behind
    · obtain ⟨rfl, -⟩ := kept_front second behind
      exact ⟨c, d, s, rfl, first, second⟩

/-- Encoding with a set that keeps the escapes leaves the meaning of the text alone. -/
theorem decode_encode_of_keepsEscapes (keeps : KeepsEscapes escaped)
    (bytes : ∀ c ∈ s, c.toNat < 256) : decode (encode escaped s) = decode s := by
  have kept : ∀ {c : Char} {cs : Str}, escaped c = false →
      encode escaped (c :: cs) = c :: encode escaped cs := by
    intro c cs stays
    rw [encode_cons, stays]
    rfl
  have single : ∀ {cs : Str}, ¬ Digits cs → decode (encode escaped cs) = decode cs →
      decode (encode escaped ('%' :: cs)) = decode ('%' :: cs) := by
    intro cs none ih
    rw [kept keeps.percent, decode_percent_of_not_digits (mt digits_of_encode none), ih,
      decode_percent_of_not_digits none]
  induction s using decode.induct with
  | case1 => rfl
  | case2 a b rest digits ih =>
      obtain ⟨first, second⟩ := Bool.and_eq_true_iff.mp digits
      simp only [List.forall_mem_cons] at bytes
      rw [kept keeps.percent, kept (keeps.digit a first), kept (keeps.digit b second), decode,
        decode, if_pos digits, if_pos digits, ih bytes.2.2.2]
  | case3 a b rest digits ih =>
      refine single ?_ (ih (List.forall_mem_cons.mp bytes).2)
      rintro ⟨_, _, _, shape, first, second⟩
      simp only [List.cons.injEq] at shape
      rw [← shape.1] at first
      rw [← shape.2.1] at second
      exact digits (Bool.and_eq_true_iff.mpr ⟨first, second⟩)
  | case4 c rest short ih =>
      obtain ⟨first, others⟩ := List.forall_mem_cons.mp bytes
      by_cases sign : c = '%'
      · subst sign
        refine single ?_ (ih others)
        rintro ⟨a, b, rest', rfl, -, -⟩
        exact short a b rest' rfl rfl
      · rw [decode_cons_of_ne sign, ← ih others, encode_cons]
        split
        · exact decode_escape first _
        · exact decode_cons_of_ne sign _

end Decode

end PercentCoding
