import Mux.Ada.Path
import Mux.Library.Numerals

/-!
# IPv4 addresses

An address has up to four parts in decimal, octal or hexadecimal notation; the
last part fills what the others leave of the 32 bits. A host that is already
written as four decimal numbers is kept as it was, and every other address is
written anew. Both come to the same: an accepted host is the dotted decimal text
of its address.
-/

namespace Mux.Ada

open Text Numerals Checkers

namespace Checkers

/-- The last label decides. It may be followed by a dot. -/
def isIpv4 (view : Str) : Bool :=
  let view := if view.getLast? = some '.' then view.dropLast else view
  match view.getLast? with
  | none => false
  | some last_char =>
      if !((last_char ≥ '0' && last_char ≤ '9') || (last_char ≥ 'a' && last_char ≤ 'f') ||
          last_char = 'x') then false
      else
        let view := match rfind '.' view with
          | some last_dot => view.drop (last_dot + 1)
          | none => view
        if view.all isDigit then true
        else if view.length = 1 then false
        else if view.take 2 ≠ ['0', 'x'] then false
        else if view.length = 2 then true
        else (view.drop 2).all Unicode.isLowercaseHex

/-- The second byte is compared with its case bit set. -/
def hasHexPrefix : Str → Bool
  | zero :: x :: _ => zero = '0' && x.toNat ||| 0x20 = 'x'.toNat
  | _ => false

end Checkers

namespace Serializers

/-- `to_chars` of a byte. -/
def byte (n : Nat) : Str := Nat.toDigits 10 (n % 256)

def ipv4 (address : Nat) : Str :=
  byte (address >>> 24) ++ '.' :: byte (address >>> 16) ++ '.' :: byte (address >>> 8) ++
    '.' :: byte address

end Serializers

namespace Ipv4

/-- The largest value of the variable that a part is read into. -/
def uint32Max : Nat := 2 ^ 32 - 1

def isOctal (input : Str) : Bool :=
  input.length ≥ 2 && input.head? = some '0' && (input[1]?).any isDigit

/-- The number in front, in the base that its prefix says. -/
def readNumber (input : Str) : FromCharsResult :=
  if hasHexPrefix input then fromChars 16 uint32Max (input.drop 2)
  else if isOctal input then fromChars 8 uint32Max (input.drop 1)
  else fromChars 10 uint32Max input

/-- One part: its value, what follows it, and whether it is decimal. -/
def segment (input : Str) : Option (Nat × Str × Bool) :=
  let is_hex := hasHexPrefix input
  if is_hex && (input.length = 2 || (input.length > 2 && input[2]? = some '.')) then
    some (0, input.drop 2, false)
  else
    let r := readNumber input
    if r.ec ≠ .none then none else some (r.value, r.ptr, !is_hex && !isOctal input)

/-- The loop over the parts, from a count of parts, the address so far and the
number of decimal parts on. The first argument is the number of rounds left. -/
def loop : Nat → Str → Nat → Nat → Option (Nat × Nat)
  | 0, input, ipv4, pure_decimal_count =>
      if input = [] then some (ipv4, pure_decimal_count) else none
  | rounds + 1, input, ipv4, pure_decimal_count =>
      if input = [] then none
      else match segment input with
        | none => none
        | some (segment_result, input, decimal) =>
            let digit_count := 3 - rounds
            let pure_decimal_count := if decimal then pure_decimal_count + 1 else pure_decimal_count
            match input with
            | [] =>
                if segment_result ≥ 1 <<< (32 - digit_count * 8) then none
                else some (ipv4 <<< (32 - digit_count * 8) ||| segment_result, pure_decimal_count)
            | c :: input =>
                if segment_result > 255 ∨ c ≠ '.' then none
                else loop rounds input (ipv4 <<< 8 ||| segment_result) pure_decimal_count

end Ipv4

/-- The host of an IPv4 address, where there is one. -/
def parseIpv4 (input : Str) : Option Str :=
  let input := if input.getLast? = some '.' then input.dropLast else input
  match Ipv4.loop 4 input 0 0 with
  | none => none
  | some (ipv4, pure_decimal_count) =>
      if pure_decimal_count = 4 then some input else some (Serializers.ipv4 ipv4)

namespace Ipv4

/-! ## Dotted decimal texts -/

/-- Numbers in decimal notation with dots between them. -/
abbrev dotted (bs : List Nat) : Str := separated 10 '.' bs

variable {b acc count : Nat} {bs : List Nat} {input rest : Str}

theorem dotted_cons (nonempty : bs ≠ []) :
    dotted (b :: bs) = Nat.toDigits 10 b ++ '.' :: dotted bs := separated_cons nonempty

/-- An accepted part is no larger than its variable. -/
theorem fromChars_none {base max : Nat} {s : Str} (ok : (fromChars base max s).ec = .none) :
    (fromChars base max s).value = numeral base (s.takeWhile (isDigitOf base)) ∧
      s.takeWhile (isDigitOf base) ≠ [] ∧
      (fromChars base max s).ptr = s.dropWhile (isDigitOf base) := by
  rw [fromChars] at ok ⊢
  split at ok
  · cases ok
  · next nonempty =>
      rw [if_neg nonempty]
      split at ok
      · next bound => rw [if_pos bound]; exact ⟨rfl, nonempty, rfl⟩
      · cases ok

theorem isDigitOf_ten (c : Char) : isDigitOf 10 c = isDigit c := by
  rw [Bool.eq_iff_iff, isDigitOf, isDigit, Bool.and_eq_true, decide_eq_true_eq, decide_eq_true_eq,
    digitValue]
  by_cases digit : '0' ≤ c ∧ c ≤ '9'
  · rw [if_pos digit]
    refine iff_of_true ?_ digit
    have upper : c.toNat ≤ 57 := digit.2
    have value : c.toNat - '0'.toNat < 10 := by
      change c.toNat - 48 < 10
      omega
    exact decide_eq_true value
  · rw [if_neg digit]
    refine iff_of_false ?_ digit
    split
    · simp
    · split <;> simp

/-- A decimal part is written as its value is. -/
theorem segment_decimal {value : Nat} (part : segment input = some (value, rest, true)) :
    input = Nat.toDigits 10 value ++ rest := by
  rw [segment] at part
  dsimp only at part
  split at part
  · cases part
  · split at part
    · cases part
    · next ok =>
        rw [not_not] at ok
        simp only [Option.some.injEq, Prod.mk.injEq, Bool.and_eq_true, Bool.not_eq_true'] at part
        obtain ⟨number, left, hex, octal⟩ := part
        have read : readNumber input = fromChars 10 uint32Max input := by
          rw [readNumber, hex, if_neg Bool.false_ne_true, octal, if_neg Bool.false_ne_true]
        rw [read] at ok number left
        obtain ⟨digits, nonempty, behind⟩ := fromChars_none ok
        have whole := List.takeWhile_append_dropWhile (p := isDigitOf 10) (l := input)
        rw [digits] at number
        rw [behind] at left
        rw [← number, ← left, toDigits_numeral nonempty]
        · exact whole.symm
        · intro c found
          have digit := List.mem_takeWhile_imp found
          rw [isDigitOf_ten, isDigit, Bool.and_eq_true, decide_eq_true_eq, decide_eq_true_eq]
            at digit
          exact digit
        · intro more start
          -- a second digit behind a leading zero would have made the part octal
          rcases more with - | ⟨d, more⟩
          · rfl
          · rw [start] at whole
            have second : isDigitOf 10 d = true := by
              apply List.mem_takeWhile_imp (p := isDigitOf 10) (l := input)
              rw [start]
              simp
            rw [← whole] at octal
            simp [isOctal, ← isDigitOf_ten, second] at octal

/-- The decimal text of a number is read as a decimal part. -/
theorem segment_toDigits (bound : b < 256) (ending : rest = [] ∨ ∃ cs, rest = '.' :: cs) :
    segment (Nat.toDigits 10 b ++ rest) = some (b, rest, true) := by
  have stop : ∀ c cs, rest = c :: cs → isDigitOf 10 c = false := by
    rintro c cs rfl
    obtain none | ⟨ds, same⟩ := ending
    · cases none
    · rw [(List.cons.inj same).1]
      decide
  have read : fromChars 10 uint32Max (Nat.toDigits 10 b ++ rest) = ⟨.none, b, rest⟩ :=
    fromChars_toDigits (by decide) (by decide) (by rw [uint32Max]; omega) stop
  have second : ∀ c d cs, Nat.toDigits 10 b ++ rest = c :: d :: cs →
      d = '.' ∨ isDigit d = true := by
    intro c d cs shape
    cases first : Nat.toDigits 10 b with
    | nil => exact absurd first Nat.toDigits_ne_nil
    | cons e es =>
        rw [first] at shape
        obtain ⟨-, shape⟩ := List.cons.inj shape
        rcases es with - | ⟨f, es⟩
        · obtain none | ⟨ds, same⟩ := ending
          · rw [none] at shape
            cases shape
          · rw [same] at shape
            exact .inl (List.cons.inj shape).1.symm
        · refine .inr ?_
          obtain ⟨rfl, -⟩ := List.cons.inj shape
          rw [← isDigitOf_ten]
          refine isDigitOf_of_mem_toDigits (n := b) (by decide) (by decide) ?_
          rw [first]
          simp
  have hex : hasHexPrefix (Nat.toDigits 10 b ++ rest) = false := by
    rcases shape : Nat.toDigits 10 b ++ rest with - | ⟨c, - | ⟨d, cs⟩⟩
    · rfl
    · rfl
    · have all : ∀ n : Fin 128, (Char.ofNat n = '.' ∨ isDigit (Char.ofNat n) = true) →
          (Char.ofNat n).toNat ||| 32 ≠ 120 := by decide +kernel
      have code : d.toNat < 128 := by
        obtain rfl | digit := second c d cs shape
        · decide
        · rw [isDigit, Bool.and_eq_true, decide_eq_true_eq, decide_eq_true_eq] at digit
          exact Nat.lt_of_le_of_lt digit.2 (by decide)
      have other := all ⟨d.toNat, code⟩
      simp only [Char.ofNat_toNat] at other
      simp [hasHexPrefix, other (second c d cs shape)]
  have octal : isOctal (Nat.toDigits 10 b ++ rest) = false := by
    rw [Bool.eq_false_iff]
    intro octal
    simp only [isOctal, Bool.and_eq_true, decide_eq_true_eq] at octal
    obtain ⟨⟨-, zero⟩, digit⟩ := octal
    cases first : Nat.toDigits 10 b with
    | nil => exact absurd first Nat.toDigits_ne_nil
    | cons e es =>
        rw [first] at zero digit
        obtain rfl : e = '0' := by simpa using zero
        obtain ⟨-, rfl⟩ := toDigits_eq_zero_cons (by decide) first
        obtain rfl | ⟨cs, rfl⟩ := ending
        · cases digit
        · simp [isDigit] at digit
  rw [segment, hex, Bool.false_and, if_neg Bool.false_ne_true]
  simp [readNumber, hex, octal, read]

/-- A round of an accepted loop reads a part, and either the text ends there or a
dot and further parts follow. -/
theorem loop_succ {rounds a total : Nat}
    (done : loop (rounds + 1) input acc count = some (a, total)) :
    ∃ value rest decimal, segment input = some (value, rest, decimal) ∧
      ((rest = [] ∧ value < 1 <<< (32 - (3 - rounds) * 8) ∧
          a = acc <<< (32 - (3 - rounds) * 8) ||| value ∧
          total = if decimal then count + 1 else count) ∨
        ∃ cs, rest = '.' :: cs ∧ value ≤ 255 ∧
          loop rounds cs (acc <<< 8 ||| value) (if decimal then count + 1 else count) =
            some (a, total)) := by
  rw [loop] at done
  split at done
  · cases done
  · split at done
    · cases done
    · next value rest decimal part =>
        refine ⟨value, rest, decimal, part, ?_⟩
        dsimp only at done
        split at done
        · split at done
          · cases done
          · next bound =>
              obtain ⟨rfl, rfl⟩ := Prod.mk.inj (Option.some.inj done)
              exact .inl ⟨rfl, Nat.lt_of_not_le bound, rfl, rfl⟩
        · next c cs =>
            split at done
            · cases done
            · next fits =>
                rw [not_or, not_not] at fits
                obtain ⟨bound, rfl⟩ := fits
                exact .inr ⟨cs, rfl, by omega, done⟩

theorem shiftLeft_or_byte (acc : Nat) (byte : b < 256) : acc <<< 8 ||| b = acc * 256 + b := by
  rw [← Nat.shiftLeft_add_eq_or_of_lt (i := 8) byte, Nat.shiftLeft_eq]

/-- No round adds more than one decimal part. -/
theorem loop_count {rounds a total : Nat} (done : loop rounds input acc count = some (a, total)) :
    total ≤ count + rounds := by
  induction rounds generalizing input acc count with
  | zero =>
      rw [loop] at done
      split at done
      · exact Nat.le_of_eq (Prod.mk.inj (Option.some.inj done)).2.symm
      · cases done
  | succ rounds ih =>
      obtain ⟨value, rest, decimal, -, step⟩ := loop_succ done
      have next : (if decimal then count + 1 else count) ≤ count + 1 := by split <;> omega
      obtain ⟨-, -, -, rfl⟩ | ⟨cs, -, -, done⟩ := step
      · omega
      · have later := ih done
        omega

/-- The address has 32 bits. -/
theorem loop_lt {rounds a total : Nat} (few : rounds ≤ 4) (low : acc < 256 ^ (4 - rounds))
    (done : loop rounds input acc count = some (a, total)) : a < 2 ^ 32 := by
  induction rounds generalizing input acc count with
  | zero =>
      rw [loop] at done
      split at done
      · obtain ⟨rfl, -⟩ := Prod.mk.inj (Option.some.inj done)
        exact low
      · cases done
  | succ rounds ih =>
      obtain ⟨value, rest, decimal, -, step⟩ := loop_succ done
      obtain ⟨-, bound, rfl, -⟩ | ⟨cs, -, bound, done⟩ := step
      · rw [Nat.one_shiftLeft] at bound
        rw [← Nat.shiftLeft_add_eq_or_of_lt bound, Nat.shiftLeft_eq]
        have width : 2 ^ 32 = 256 ^ (3 - rounds) * 2 ^ (32 - (3 - rounds) * 8) := by
          rw [show 256 = 2 ^ 8 from rfl, ← Nat.pow_mul, ← Nat.pow_add]
          congr 1
          omega
        have level : 4 - (rounds + 1) = 3 - rounds := by omega
        rw [level] at low
        rw [width]
        have room := Nat.mul_le_mul_right (2 ^ (32 - (3 - rounds) * 8)) (Nat.succ_le_of_lt low)
        rw [Nat.succ_mul] at room
        omega
      · apply ih (by omega) _ done
        have level : 4 - rounds = (4 - (rounds + 1)) + 1 := by omega
        rw [shiftLeft_or_byte acc (by omega), level, Nat.pow_succ]
        omega

/-- If every round read a decimal part then the text is the dotted text of the
bytes that were added. -/
theorem loop_decimal {rounds a : Nat} (some_rounds : rounds ≠ 0)
    (ending : input.getLast? ≠ some '.') (few : rounds ≤ 4)
    (done : loop rounds input acc count = some (a, count + rounds)) :
    ∃ bs : List Nat, bs.length = rounds ∧ (∀ b ∈ bs, b < 256) ∧ input = dotted bs ∧
      a = bs.foldl (fun a b => a * 256 + b) acc := by
  induction rounds generalizing input acc count with
  | zero => exact absurd rfl some_rounds
  | succ rounds ih =>
      obtain ⟨value, rest, decimal, part, step⟩ := loop_succ done
      obtain ⟨rfl, bound, rfl, total⟩ | ⟨cs, rfl, bound, done⟩ := step
      · obtain ⟨rfl, rfl⟩ : decimal = true ∧ rounds = 0 := by
          split at total
          · next flag => exact ⟨flag, by omega⟩
          · omega
        have byte : value < 256 := bound
        refine ⟨[value], rfl, by simpa using byte, ?_, shiftLeft_or_byte acc byte⟩
        rw [segment_decimal part, List.append_nil]
        rfl
      · have byte : value < 256 := by omega
        have limit := loop_count done
        obtain rfl : decimal = true := by
          split at limit
          · assumption
          · omega
        have input_eq := segment_decimal part
        rcases cs with - | ⟨c, cs⟩
        · rw [input_eq, List.getLast?_append_of_ne_nil _ (by simp)] at ending
          exact absurd rfl ending
        · have more : rounds ≠ 0 := by
            rintro rfl
            cases done
          have last : (c :: cs).getLast? ≠ some '.' := by
            rw [input_eq, List.getLast?_append_of_ne_nil _ (by simp),
              List.getLast?_cons_cons] at ending
            exact ending
          rw [shiftLeft_or_byte acc byte, if_pos rfl] at done
          obtain ⟨bs, length, bytes, rest_eq, address⟩ :=
            ih more last (by omega) (by rw [done]; congr 2; omega)
          refine ⟨value :: bs, by rw [List.length_cons, length], ?_, ?_, address⟩
          · rw [List.forall_mem_cons]
            exact ⟨byte, bytes⟩
          · have nonempty : bs ≠ [] := by
              rintro rfl
              exact more length.symm
            rw [dotted_cons nonempty, ← rest_eq]
            exact input_eq

/-- The parts of a dotted text are read one after the other. -/
theorem loop_dotted (nonempty : bs ≠ []) (few : bs.length ≤ 4) (bytes : ∀ b ∈ bs, b < 256) :
    loop bs.length (dotted bs) acc count =
      some (bs.foldl (fun a b => a * 256 + b) acc, count + bs.length) := by
  induction bs generalizing acc count with
  | nil => exact absurd rfl nonempty
  | cons b bs ih =>
      obtain ⟨byte, bytes⟩ := List.forall_mem_cons.mp bytes
      by_cases alone : bs = []
      · subst alone
        have part : segment (Nat.toDigits 10 b ++ []) = some (b, [], true) :=
          segment_toDigits byte (.inl rfl)
        rw [List.append_nil] at part
        have bound : ¬ b ≥ 1 <<< 8 := by
          rw [Nat.one_shiftLeft]
          omega
        rw [List.length_singleton, loop, if_neg (by simp [separated])]
        rw [show dotted [b] = Nat.toDigits 10 b from rfl, part]
        simp only [Nat.sub_zero, Nat.reduceMul, Nat.reduceSub]
        rw [if_neg bound, shiftLeft_or_byte acc byte]
        rfl
      · have part : segment (Nat.toDigits 10 b ++ '.' :: dotted bs) =
            some (b, '.' :: dotted bs, true) := segment_toDigits byte (.inr ⟨_, rfl⟩)
        rw [dotted_cons alone, List.length_cons, loop, if_neg (by simp), part]
        dsimp only
        rw [if_neg (by rw [not_or, not_not]; exact ⟨by omega, rfl⟩), shiftLeft_or_byte acc byte,
          ih alone (by rw [List.length_cons] at few; omega) bytes]
        simp [Nat.add_assoc, Nat.add_comm 1]

/-! ## Addresses -/

theorem ipv4_eq_dotted (address : Nat) : Serializers.ipv4 address =
    dotted [address >>> 24 % 256, address >>> 16 % 256, address >>> 8 % 256, address % 256] := by
  simp [Serializers.ipv4, Serializers.byte, separated]

/-- The bytes of a dotted text with four parts are those of its address. -/
theorem dotted_eq_ipv4 (four : bs.length = 4) (bytes : ∀ b ∈ bs, b < 256) :
    dotted bs = Serializers.ipv4 (bs.foldl (fun a b => a * 256 + b) 0) := by
  match bs, four with
  | [b, c, d, e], _ =>
      have bound : b < 256 ∧ c < 256 ∧ d < 256 ∧ e < 256 := by simpa using bytes
      have first : (((0 * 256 + b) * 256 + c) * 256 + d) * 256 + e = b * 16777216 + c * 65536 +
          d * 256 + e := by omega
      rw [ipv4_eq_dotted]
      simp only [List.foldl_cons, List.foldl_nil, first, Nat.shiftRight_eq_div_pow]
      have labels : b = (b * 16777216 + c * 65536 + d * 256 + e) / 2 ^ 24 % 256 ∧
          c = (b * 16777216 + c * 65536 + d * 256 + e) / 2 ^ 16 % 256 ∧
          d = (b * 16777216 + c * 65536 + d * 256 + e) / 2 ^ 8 % 256 ∧
          e = (b * 16777216 + c * 65536 + d * 256 + e) % 256 := by omega
      obtain ⟨first, second, third, fourth⟩ := labels
      rw [← first, ← second, ← third, ← fourth]

theorem of_mem_ipv4 {address : Nat} {c : Char} (found : c ∈ Serializers.ipv4 address) :
    isDigit c = true ∨ c = '.' := by
  have digit : ∀ n, c ∈ Serializers.byte n → isDigit c = true := by
    intro n found
    rw [← isDigitOf_ten]
    exact isDigitOf_of_mem_toDigits (by decide) (by decide) found
  simp only [Serializers.ipv4, List.mem_append, List.mem_cons] at found
  obtain ((found | rfl | found) | rfl | found) | rfl | found := found
  all_goals first | exact .inl (digit _ found) | exact .inr rfl

/-- The text of an address ends with its last label. -/
theorem ipv4_eq_append (address : Nat) :
    ∃ front, Serializers.ipv4 address = front ++ '.' :: Serializers.byte address :=
  ⟨_, rfl⟩

theorem getLast?_ipv4 (address : Nat) :
    ∃ c, (Serializers.ipv4 address).getLast? = some c ∧ isDigit c = true := by
  obtain ⟨front, same⟩ := ipv4_eq_append address
  have nonempty : Serializers.byte address ≠ [] := Nat.toDigits_ne_nil
  refine ⟨(Serializers.byte address).getLast nonempty, ?_, ?_⟩
  · rw [same, List.getLast?_append_of_ne_nil _ (by simp), List.getLast?_cons_of_ne_nil nonempty,
      List.getLast?_eq_getLast_of_ne_nil nonempty]
  · rw [← isDigitOf_ten]
    exact isDigitOf_of_mem_toDigits (by decide) (by decide) (List.getLast_mem nonempty)

/-- The text of an address is recognised. -/
theorem isIpv4_ipv4 (address : Nat) : isIpv4 (Serializers.ipv4 address) = true := by
  obtain ⟨c, last, digit⟩ := getLast?_ipv4 address
  obtain ⟨front, same⟩ := ipv4_eq_append address
  have no_dot : '.' ∉ Serializers.byte address := by
    intro found
    have digit := isDigitOf_of_mem_toDigits (by decide) (by decide) found
    cases digit
  have all : (Serializers.byte address).all isDigit = true := by
    rw [List.all_eq_true]
    intro c found
    rw [← isDigitOf_ten]
    exact isDigitOf_of_mem_toDigits (by decide) (by decide) found
  have other : ¬(Serializers.ipv4 address).getLast? = some '.' := by
    rw [last]
    rintro ⟨rfl⟩
    cases digit
  have range : (c ≥ '0' && c ≤ '9') = true := digit
  rw [isIpv4]
  dsimp only
  rw [if_neg other, last]
  dsimp only
  rw [range, same, rfind_append_cons no_dot]
  simp [all]

/-- An accepted host is the text of an address. -/
theorem exists_of_parseIpv4 {host : Str} (labels : isIpv4 input = true)
    (accepted : parseIpv4 input = some host) :
    ∃ address < 2 ^ 32, host = Serializers.ipv4 address := by
  rw [parseIpv4] at accepted
  rw [isIpv4] at labels
  dsimp only at accepted labels
  generalize (if input.getLast? = some '.' then input.dropLast else input) = view at accepted labels
  have ending : view.getLast? ≠ some '.' := by
    intro dot
    rw [dot] at labels
    cases labels
  split at accepted
  · cases accepted
  · next a total done =>
      split at accepted
      · next four =>
          subst four
          obtain ⟨bs, length, bytes, rfl, rfl⟩ :=
            loop_decimal (by decide) ending (Nat.le_refl 4) done
          exact ⟨_, loop_lt (Nat.le_refl 4) (by decide) done,
            (Option.some.inj accepted).symm.trans (dotted_eq_ipv4 length bytes)⟩
      · exact ⟨a, loop_lt (Nat.le_refl 4) (by decide) done, (Option.some.inj accepted).symm⟩

/-- The text of an address is kept. -/
theorem parseIpv4_ipv4 (address : Nat) :
    parseIpv4 (Serializers.ipv4 address) = some (Serializers.ipv4 address) := by
  obtain ⟨c, last, digit⟩ := getLast?_ipv4 address
  have other : ¬(Serializers.ipv4 address).getLast? = some '.' := by
    rw [last]
    rintro ⟨rfl⟩
    cases digit
  have read := @loop_dotted 0 0 [address >>> 24 % 256, address >>> 16 % 256,
    address >>> 8 % 256, address % 256] (by simp) (by simp)
    (by simp only [List.forall_mem_cons]; refine ⟨?_, ?_, ?_, ?_, ?_⟩ <;> first | omega | simp)
  rw [← ipv4_eq_dotted] at read
  rw [parseIpv4, if_neg other]
  simp only [List.length_cons, List.length_nil] at read
  rw [read]
  rfl

/-- What is accepted is the dotted text of a number of 32 bits, in whatever notation it
was given, and that text is recognised and kept. -/
theorem parseIpv4_canonical {host : Str} (labels : isIpv4 input = true)
    (accepted : parseIpv4 input = some host) :
    (∃ address < 2 ^ 32, host = Serializers.ipv4 address) ∧ isIpv4 host = true ∧
      parseIpv4 host = some host := by
  obtain ⟨address, bound, rfl⟩ := exists_of_parseIpv4 labels accepted
  exact ⟨⟨address, bound, rfl⟩, isIpv4_ipv4 address, parseIpv4_ipv4 address⟩

/-- Two parts, one of them hexadecimal and one of 24 bits. -/
theorem parseIpv4_canonical_hexadecimal :
    isIpv4 "0x7f.1".toList = true ∧ parseIpv4 "0x7f.1".toList = some "127.0.0.1".toList ∧
      parseIpv4 "127.0.0.1".toList = some "127.0.0.1".toList := by
  have labels : isIpv4 "0x7f.1".toList = true := by decide
  have accepted : parseIpv4 "0x7f.1".toList = some "127.0.0.1".toList := by decide
  exact ⟨labels, accepted, (parseIpv4_canonical labels accepted).2.2⟩

end Ipv4

end Mux.Ada
