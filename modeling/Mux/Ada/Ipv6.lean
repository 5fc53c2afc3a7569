import Mux.Ada.Path
import Mux.Library.Numerals

/-!
# IPv6 addresses

An address has eight pieces. The longest run of zeros may be left out of its
text, and the last two pieces may be written as an IPv4 address. The reader puts
the pieces in front into the array and moves those behind the gap to its end
afterwards. What is written for an address is read back as the same address.
-/

namespace Mux.Ada

open Text Numerals CharacterSets PercentCoding

namespace Ipv6

/-! ## Reading -/

/-- A decimal number up to 255 without leading zeros, and what follows it. The
number so far is absent in front of the first digit. -/
def ipv4Piece : Str → Option Nat → Option (Nat × Str)
  | [], ipv4_piece => ipv4_piece.map fun n => (n, [])
  | c :: pointer, ipv4_piece =>
      if Checkers.isDigit c then
        let number := c.toNat - '0'.toNat
        match ipv4_piece with
        | none => if number > 255 then none else ipv4Piece pointer (some number)
        | some 0 => none
        | some n =>
            if n * 10 + number > 255 then none else ipv4Piece pointer (some (n * 10 + number))
      else ipv4_piece.map fun n => (n, c :: pointer)

/-- The loop over the numbers of an IPv4 address from the piece at an index on.
The first argument is how many of the four are missing. -/
def ipv4Pieces : Nat → Str → List Nat → Nat → Option (List Nat × Nat)
  | 0, pointer, address, piece_index => if pointer = [] then some (address, piece_index) else none
  | missing + 1, pointer, address, piece_index =>
      let numbers_seen := 3 - missing
      if pointer = [] then none
      else if numbers_seen > 0 ∧ pointer.head? ≠ some '.' then none
      else
        match ipv4Piece (if numbers_seen > 0 then pointer.drop 1 else pointer) none with
        | none => none
        | some (ipv4_piece, pointer) =>
            let address := address.set piece_index
              ((address.getD piece_index 0 * 0x100 + ipv4_piece) % 2 ^ 16)
            ipv4Pieces missing pointer address
              (if numbers_seen + 1 = 2 ∨ numbers_seen + 1 = 4 then piece_index + 1 else piece_index)

/-- The hexadecimal digits in front, four at most. -/
def hexDigits (pointer : Str) : Str := (pointer.take 4).takeWhile isAsciiHexDigit

/-- The 16-bit variable after these digits. -/
def hexNumber (digits : Str) : Nat :=
  digits.foldl (fun value c => (value * 0x10 + convertHexToBinary c) % 2 ^ 16) 0

/-- The address, the piece index and the place of the gap after the loop over the
pieces. The first argument is the number of pieces that still fit. -/
def pieces : Nat → Str → List Nat → Option Nat → Option (List Nat × Nat × Option Nat)
  | rounds, [], address, compress => some (address, 8 - rounds, compress)
  | 0, _ :: _, _, _ => none
  | rounds + 1, c :: pointer, address, compress =>
      let piece_index := 7 - rounds
      if c = ':' then
        if compress.isSome then none else pieces rounds pointer address (some (piece_index + 1))
      else
        let digits := hexDigits (c :: pointer)
        match (c :: pointer).drop digits.length with
        | [] => pieces rounds [] (address.set piece_index (hexNumber digits)) compress
        | '.' :: _ =>
            if digits.length = 0 then none
            else if piece_index > 6 then none
            else (ipv4Pieces 4 (c :: pointer) address piece_index).map
              fun (address, piece_index) => (address, piece_index, compress)
        | [':'] => none
        | ':' :: pointer =>
            pieces rounds pointer (address.set piece_index (hexNumber digits)) compress
        | _ :: _ => none

/-- Exchange two pieces. -/
def swap (address : List Nat) (i j : Nat) : List Nat :=
  (address.set i (address.getD j 0)).set j (address.getD i 0)

/-- Move the pieces behind the gap to the end, the last one first. -/
def moveBack (address : List Nat) (compress : Nat) : Nat → Nat → List Nat
  | 0, _ => address
  | _ + 1, 0 => address
  | swaps + 1, piece_index + 1 =>
      moveBack (swap address (piece_index + 1) (compress + (swaps + 1) - 1)) compress swaps
        piece_index

/-- The pieces of a text. Two colons in front are a gap. -/
def read (input : Str) : Option (List Nat × Nat × Option Nat) :=
  match input with
  | [] => none
  | ':' :: ':' :: pointer => pieces 7 pointer (List.replicate 8 0) (some 1)
  | ':' :: _ => none
  | c :: pointer => pieces 8 (c :: pointer) (List.replicate 8 0) none

end Ipv6

/-- The address that a text stands for. -/
def parseIpv6 (input : Str) : Option (List Nat) :=
  match Ipv6.read input with
  | none => none
  | some (address, piece_index, some compress) =>
      some (Ipv6.moveBack address compress (piece_index - compress) 7)
  | some (address, piece_index, none) => if piece_index ≠ 8 then none else some address

namespace Serializers

/-- The number of zero pieces from an index on. -/
def zeroRun (address : List Nat) (i : Nat) : Nat := ((address.drop i).takeWhile (· = 0)).length

/-- The scan from an index on, with the start and the length of the longest run
so far. The first argument bounds the number of rounds. -/
def longestFrom (address : List Nat) : Nat → Nat → Nat → Nat → Nat × Nat
  | 0, _, compress, compress_length => (compress, compress_length)
  | rounds + 1, i, compress, compress_length =>
      if i ≥ 8 then (compress, compress_length)
      else if address.getD i 0 = 0 then
        let count := zeroRun address i
        let next := i + count
        if compress_length < count then
          if next = 8 then (i, count) else longestFrom address rounds (next + 1) i count
        else longestFrom address rounds (i + 1) compress compress_length
      else longestFrom address rounds (i + 1) compress compress_length

def findLongestSequenceOfIpv6Pieces (address : List Nat) : Nat × Nat := longestFrom address 8 0 0 0

/-- The pieces from an index on. The first argument bounds the number of rounds. -/
def pieceTexts (address : List Nat) (compress compress_length : Nat) : Nat → Nat → Str
  | 0, _ => []
  | rounds + 1, piece_index =>
      let one (piece_index : Nat) : Str :=
        Nat.toDigits 16 (address.getD piece_index 0) ++
          if piece_index + 1 = 8 then []
          else ':' :: pieceTexts address compress compress_length rounds (piece_index + 1)
      if piece_index = compress then
        let colons := if piece_index = 0 then [':', ':'] else [':']
        let piece_index := piece_index + compress_length
        if piece_index = 8 then colons else colons ++ one piece_index
      else one piece_index

def ipv6 (address : List Nat) : Str :=
  let (compress, compress_length) := findLongestSequenceOfIpv6Pieces address
  let (compress, compress_length) :=
    if compress_length ≤ 1 then (8, 8) else (compress, compress_length)
  '[' :: pieceTexts address compress compress_length 8 0 ++ [']']

end Serializers

namespace Ipv6

variable {address front rest : List Nat} {compress : Option Nat} {pointer : Str}

/-! ## What is read is an address -/

/-- Eight pieces of 16 bits. -/
def Address (address : List Nat) : Prop := address.length = 8 ∧ ∀ piece ∈ address, piece < 2 ^ 16

theorem address_replicate : Address (List.replicate 8 0) := by
  refine ⟨rfl, fun piece found => ?_⟩
  rw [(List.mem_replicate.mp found).2]
  decide

theorem Address.set (ok : Address address) {i piece : Nat} (bound : piece < 2 ^ 16) :
    Address (address.set i piece) := by
  refine ⟨by rw [List.length_set, ok.1], fun other found => ?_⟩
  obtain old | rfl := List.mem_or_eq_of_mem_set found
  · exact ok.2 other old
  · exact bound

theorem Address.getD (ok : Address address) (i : Nat) : address.getD i 0 < 2 ^ 16 := by
  rw [List.getD_eq_getElem?_getD]
  cases found : address[i]? with
  | none => exact (by decide : 0 < 2 ^ 16)
  | some piece => exact ok.2 piece (List.mem_of_getElem? found)

theorem Address.swap (ok : Address address) (i j : Nat) : Address (swap address i j) :=
  (ok.set (ok.getD j)).set (ok.getD i)

theorem Address.moveBack (ok : Address address) (gap swaps piece_index : Nat) :
    Address (moveBack address gap swaps piece_index) := by
  induction swaps generalizing address piece_index with
  | zero => exact ok
  | succ swaps ih =>
      cases piece_index with
      | zero => exact ok
      | succ piece_index => exact ih (ok.swap _ _) piece_index

theorem hexNumber_lt (digits : Str) : hexNumber digits < 2 ^ 16 := by
  induction digits using List.reverseRecOn with
  | nil => decide
  | append_singleton digits c ih =>
      rw [hexNumber, List.foldl_append]
      exact Nat.mod_lt _ (by decide)

theorem address_of_ipv4Pieces {missing piece_index last : Nat} (ok : Address address)
    (read : ipv4Pieces missing pointer address piece_index = some (rest, last)) :
    Address rest := by
  induction missing generalizing pointer address piece_index with
  | zero =>
      rw [ipv4Pieces] at read
      split at read
      · obtain ⟨rfl, -⟩ := Prod.mk.inj (Option.some.inj read)
        exact ok
      · cases read
  | succ missing ih =>
      rw [ipv4Pieces] at read
      dsimp only at read
      split at read
      · cases read
      · split at read
        · cases read
        · split at read
          · cases read
          · exact ih (ok.set (Nat.mod_lt _ (by decide))) read

theorem address_of_pieces {rounds last : Nat} {gap : Option Nat} (ok : Address address)
    (read : pieces rounds pointer address compress = some (rest, last, gap)) : Address rest := by
  fun_induction pieces rounds pointer address compress with
  | case1 =>
      obtain ⟨rfl, -⟩ := Prod.mk.inj (Option.some.inj read)
      exact ok
  | case2 => cases read
  | case3 => cases read
  | case4 rounds c pointer address piece_index free ih => exact ih ok read
  | case5 rounds c pointer address compress piece_index other digits all ih =>
      exact ih (ok.set (hexNumber_lt digits)) read
  | case6 => cases read
  | case7 => cases read
  | case8 =>
      rw [Option.map_eq_some_iff] at read
      obtain ⟨⟨found, index⟩, four, same⟩ := read
      obtain ⟨rfl, -⟩ := Prod.mk.inj same
      exact address_of_ipv4Pieces ok four
  | case9 => cases read
  | case10 rounds c pointer address compress piece_index other digits more next shape ih =>
      exact ih (ok.set (hexNumber_lt digits)) read
  | case11 => cases read

theorem address_of_read {input : Str} {last : Nat} {gap : Option Nat}
    (started : read input = some (address, last, gap)) : Address address := by
  rw [read.eq_def] at started
  split at started
  all_goals first | cases started | exact address_of_pieces address_replicate started

/-- The result is an address. -/
theorem address_of_parseIpv6 {input : Str} (accepted : parseIpv6 input = some address) :
    Address address := by
  rw [parseIpv6] at accepted
  split at accepted
  · cases accepted
  · next started =>
      obtain rfl := Option.some.inj accepted
      exact (address_of_read started).moveBack _ _ _
  · next started =>
      split at accepted
      · cases accepted
      · obtain rfl := Option.some.inj accepted
        exact address_of_read started

/-! ## What is written is read -/

/-- Hexadecimal numbers with a colon behind each of them. -/
def headed (ps : List Nat) : Str := ps.flatMap fun p => Nat.toDigits 16 p ++ [':']

theorem hexNumber_toDigits (n : Nat) : hexNumber (Nat.toDigits 16 n) = n % 2 ^ 16 := by
  have all : ∀ d : Fin 16, convertHexToBinary (Nat.digitChar d) = d := by decide
  have value : ∀ {d}, d < 16 → convertHexToBinary (Nat.digitChar d) = d :=
    fun {d} digit => all ⟨d, digit⟩
  induction n using Nat.base_induction 16 (by decide) with
  | single m digit =>
      rw [Nat.toDigits_of_lt_base digit]
      change (0 * 0x10 + convertHexToBinary (Nat.digitChar m)) % 2 ^ 16 = m % 2 ^ 16
      rw [value digit]
      simp
  | digit m k digit nonzero ih =>
      rw [← Nat.toDigits_append_toDigits (by decide) nonzero digit, Nat.toDigits_of_lt_base digit,
        hexNumber, List.foldl_append]
      change (hexNumber (Nat.toDigits 16 m) * 0x10 +
        convertHexToBinary (Nat.digitChar k)) % 2 ^ 16 =
        (16 * m + k) % 2 ^ 16
      rw [ih, value digit]
      omega

theorem isAsciiHexDigit_of_mem {n : Nat} {c : Char} (found : c ∈ Nat.toDigits 16 n) :
    isAsciiHexDigit c = true := by
  have all : ∀ d : Fin 16, isAsciiHexDigit (Nat.digitChar d) = true := by decide
  obtain ⟨d, digit, rfl⟩ := exists_of_mem_toDigits (by decide) found
  exact all ⟨d, digit⟩

/-- The digits of a piece are read up to a colon or the end. -/
theorem hexDigits_toDigits {n : Nat} {tail : Str} (bound : n < 2 ^ 16)
    (ending : ∀ c cs, tail = c :: cs → c = ':') :
    hexDigits (Nat.toDigits 16 n ++ tail) = Nat.toDigits 16 n := by
  have short : (Nat.toDigits 16 n).length ≤ 4 :=
    (Nat.length_toDigits_le_iff (by decide) (by decide)).mpr bound
  rw [hexDigits, List.take_append, List.take_of_length_le short,
    List.takeWhile_append_of_pos fun c found => isAsciiHexDigit_of_mem found]
  have stop : (tail.take (4 - (Nat.toDigits 16 n).length)).takeWhile isAsciiHexDigit = [] := by
    cases tail with
    | nil => simp
    | cons c cs =>
        obtain rfl := ending c cs rfl
        cases 4 - (Nat.toDigits 16 n).length with
        | zero => rfl
        | succ k => rfl
  rw [stop, List.append_nil]

/-- A written piece is stored and the loop goes on behind its colon. -/
theorem pieces_toDigits {rounds p : Nat} {tail : Str} (bound : p < 2 ^ 16)
    (ending : tail = [] ∨ ∃ c cs, tail = ':' :: c :: cs) :
    pieces (rounds + 1) (Nat.toDigits 16 p ++ tail) address compress =
      pieces rounds (tail.drop 1) (address.set (7 - rounds) p) compress := by
  have digits : hexDigits (Nat.toDigits 16 p ++ tail) = Nat.toDigits 16 p := by
    refine hexDigits_toDigits bound ?_
    rintro c cs rfl
    obtain none | ⟨d, ds, same⟩ := ending
    · cases none
    · exact (List.cons.inj same).1
  have number : hexNumber (Nat.toDigits 16 p) = p := by
    rw [hexNumber_toDigits, Nat.mod_eq_of_lt bound]
  cases shape : Nat.toDigits 16 p with
  | nil => exact absurd shape Nat.toDigits_ne_nil
  | cons c cs =>
      have digit : isAsciiHexDigit c = true := by
        apply isAsciiHexDigit_of_mem (n := p)
        rw [shape]
        exact List.mem_cons_self
      have other : c ≠ ':' := by
        rintro rfl
        cases digit
      have left : (c :: (cs ++ tail)).drop (c :: cs).length = tail :=
        @List.drop_left _ (c :: cs) tail
      rw [shape, List.cons_append] at digits
      rw [List.cons_append, pieces, if_neg other]
      dsimp only
      rw [digits, left]
      rw [shape] at number
      obtain rfl | ⟨d, ds, rfl⟩ := ending
      · simp only [number, List.drop_nil]
      · simp only [number, List.drop_succ_cons, List.drop_zero]

theorem set_next (front : List Nat) (rounds p : Nat) :
    (front ++ List.replicate (rounds + 1) 0).set front.length p =
      (front ++ [p]) ++ List.replicate rounds 0 := by
  rw [List.set_append_right _ _ (Nat.le_refl _), Nat.sub_self, List.replicate_succ,
    List.set_cons_zero, List.append_assoc]
  rfl

/-- Pieces with colons behind them are stored one after the other. -/
theorem pieces_headed {rounds : Nat} {ps : List Nat} {c : Char} {tail : Str}
    (length : front.length + rounds = 8) (few : ps.length ≤ rounds)
    (bound : ∀ p ∈ ps, p < 2 ^ 16) :
    pieces rounds (headed ps ++ c :: tail) (front ++ List.replicate rounds 0) compress =
      pieces (rounds - ps.length) (c :: tail)
        ((front ++ ps) ++ List.replicate (rounds - ps.length) 0) compress := by
  induction ps generalizing front rounds with
  | nil => simp [headed]
  | cons p ps ih =>
      obtain ⟨small, bound⟩ := List.forall_mem_cons.mp bound
      rw [List.length_cons] at few
      obtain ⟨rounds, rfl⟩ : ∃ r, rounds = r + 1 := ⟨rounds - 1, by omega⟩
      have text : headed (p :: ps) ++ c :: tail =
          Nat.toDigits 16 p ++ ':' :: (headed ps ++ c :: tail) := by
        simp [headed]
      have more : ∃ d ds, headed ps ++ c :: tail = d :: ds := by
        cases headed ps with
        | nil => exact ⟨c, tail, rfl⟩
        | cons d ds => exact ⟨d, ds ++ c :: tail, rfl⟩
      have place : 7 - rounds = front.length := by omega
      obtain ⟨d, ds, shape⟩ := more
      rw [text, pieces_toDigits small (.inr ⟨d, ds, by rw [shape]⟩), place, set_next, List.drop_one,
        List.tail_cons,
        ih (by rw [List.length_append, List.length_singleton]; omega) (by omega) bound]
      simp

/-- The last pieces are stored one after the other. -/
theorem pieces_separated {rounds : Nat} {ps : List Nat} (length : front.length + rounds = 8)
    (few : ps.length ≤ rounds) (bound : ∀ p ∈ ps, p < 2 ^ 16) :
    pieces rounds (separated 16 ':' ps) (front ++ List.replicate rounds 0) compress =
      some ((front ++ ps) ++ List.replicate (rounds - ps.length) 0, front.length + ps.length,
        compress) := by
  induction ps generalizing front rounds with
  | nil =>
      rw [separated, pieces, List.append_nil]
      congr 3
      simp
      omega
  | cons p ps ih =>
      obtain ⟨small, bound⟩ := List.forall_mem_cons.mp bound
      rw [List.length_cons] at few
      obtain ⟨rounds, rfl⟩ : ∃ r, rounds = r + 1 := ⟨rounds - 1, by omega⟩
      have place : 7 - rounds = front.length := by omega
      have later := @ih (front ++ [p]) rounds
        (by rw [List.length_append, List.length_singleton]; omega) (by omega) bound
      have step : pieces (rounds + 1) (separated 16 ':' (p :: ps))
          (front ++ List.replicate (rounds + 1) 0) compress =
          pieces rounds (separated 16 ':' ps) ((front ++ [p]) ++ List.replicate rounds 0)
            compress := by
        by_cases alone : ps = []
        · subst alone
          have read : pieces (rounds + 1) (Nat.toDigits 16 p ++ [])
              (front ++ List.replicate (rounds + 1) 0) compress = _ :=
            pieces_toDigits small (.inl rfl)
          rwa [List.append_nil, place, set_next] at read
        · have more : ∃ d ds, separated 16 ':' ps = d :: ds := by
            cases shape : separated 16 ':' ps with
            | nil => exact absurd shape (separated_ne_nil alone)
            | cons d ds => exact ⟨d, ds, rfl⟩
          obtain ⟨d, ds, shape⟩ := more
          rw [separated_cons alone, pieces_toDigits small (.inr ⟨d, ds, by rw [shape]⟩), place,
            set_next]
          rfl
      rw [step, later]
      simp [Nat.add_assoc, Nat.add_comm 1]

/-! ## The gap -/

theorem set_append_cons (before after : List Nat) (old new : Nat) :
    (before ++ old :: after).set before.length new = before ++ new :: after := by
  rw [List.set_append_right _ _ (Nat.le_refl _), Nat.sub_self, List.set_cons_zero]

theorem getD_append_cons (before after : List Nat) (piece : Nat) :
    (before ++ piece :: after).getD before.length 0 = piece := by
  simp [List.getD_eq_getElem?_getD]

/-- The last piece in front of zeros changes places with the last of them. -/
theorem swap_zero (before after : List Nat) (piece zeros : Nat) :
    swap (before ++ piece :: (List.replicate zeros 0 ++ after)) (before.length + zeros)
        before.length =
      before ++ List.replicate zeros 0 ++ piece :: after := by
  cases zeros with
  | zero =>
      rw [Nat.add_zero, List.replicate_zero, List.nil_append, List.append_nil, swap,
        getD_append_cons, set_append_cons, set_append_cons]
  | succ zeros =>
      have outer : before ++ piece :: (List.replicate (zeros + 1) 0 ++ after) =
          (before ++ piece :: List.replicate zeros 0) ++ 0 :: after := by
        rw [List.replicate_succ']
        simp
      have last : before.length + (zeros + 1) =
          (before ++ piece :: List.replicate zeros 0).length := by
        rw [List.length_append, List.length_cons, List.length_replicate]
      rw [swap, getD_append_cons, outer, last, getD_append_cons, set_append_cons,
        List.append_assoc, List.cons_append, set_append_cons, List.replicate_succ]
      simp

/-- The pieces behind the gap come to stand at the end. -/
theorem moveBack_eq (ps after : List Nat) (zeros : Nat) (gap : 0 < front.length)
    {piece_index : Nat} (last : piece_index + 1 = front.length + ps.length + zeros) :
    moveBack (front ++ ps ++ List.replicate zeros 0 ++ after) front.length ps.length piece_index =
      front ++ List.replicate zeros 0 ++ ps ++ after := by
  induction ps using List.reverseRecOn generalizing after piece_index with
  | nil => simp [moveBack]
  | append_singleton ps p ih =>
      rw [List.length_append, List.length_singleton] at last ⊢
      obtain ⟨piece_index, rfl⟩ : ∃ i, piece_index = i + 1 := ⟨piece_index - 1, by omega⟩
      have shape : front ++ (ps ++ [p]) ++ List.replicate zeros 0 ++ after =
          (front ++ ps) ++ p :: (List.replicate zeros 0 ++ after) := by simp
      have back : front.length + (ps.length + 1) - 1 = (front ++ ps).length := by
        rw [List.length_append]
        omega
      have place : piece_index + 1 = (front ++ ps).length + zeros := by
        rw [List.length_append]
        omega
      rw [moveBack, shape, back, place, swap_zero, ih (p :: after) (by omega)]
      simp

/-! ## The text of an address -/

open Serializers

variable {gap run : Nat}

theorem drop_eq_cons {i : Nat} (inside : i < address.length) :
    address.drop i = address.getD i 0 :: address.drop (i + 1) := by
  rw [List.drop_eq_getElem_cons inside, List.getD_eq_getElem?_getD, List.getElem?_eq_getElem inside,
    Option.getD_some]

/-- Behind the gap, or where there is none, the pieces have colons between them. -/
theorem pieceTexts_behind {rounds i : Nat} (eight : address.length = 8) (inside : i < 8)
    (enough : 8 ≤ i + rounds) (behind : gap < i ∨ gap = 8) :
    pieceTexts address gap run rounds i = separated 16 ':' (address.drop i) := by
  induction rounds generalizing i with
  | zero => omega
  | succ rounds ih =>
      rw [pieceTexts, if_neg (by omega), drop_eq_cons (by omega)]
      dsimp only
      by_cases last : i + 1 = 8
      · rw [if_pos last, List.append_nil, List.drop_eq_nil_of_le (by omega)]
        rfl
      · have nonempty : address.drop (i + 1) ≠ [] := by
          rw [← List.length_pos_iff, List.length_drop]
          omega
        rw [if_neg last, ih (by omega) (by omega) (by omega), separated_cons nonempty]

/-- In front of the gap every piece has a colon behind it. -/
theorem pieceTexts_front {rounds i : Nat} (eight : address.length = 8) (inside : gap + run ≤ 8)
    (nonempty : 0 < run) (enough : 8 ≤ i + rounds) (front : i ≤ gap) :
    pieceTexts address gap run rounds i = headed ((address.drop i).take (gap - i)) ++
      (if gap = 0 then [':', ':'] else [':']) ++ separated 16 ':' (address.drop (gap + run)) := by
  induction rounds generalizing i with
  | zero => omega
  | succ rounds ih =>
      obtain rfl | before := Nat.eq_or_lt_of_le front
      · rw [pieceTexts, if_pos rfl, Nat.sub_self, List.take_zero]
        dsimp only
        by_cases last : i + run = 8
        · rw [if_pos last, List.drop_eq_nil_of_le (by omega), separated, List.append_nil]
          rfl
        · rw [if_neg last, drop_eq_cons (by omega)]
          by_cases final : i + run + 1 = 8
          · rw [if_pos final, List.append_nil, List.drop_eq_nil_of_le (by omega)]
            rfl
          · have more : address.drop (i + run + 1) ≠ [] := by
              rw [← List.length_pos_iff, List.length_drop]
              omega
            rw [if_neg final, pieceTexts_behind eight (by omega) (by omega) (by omega),
              separated_cons more]
            rfl
      · have count : gap - i = gap - (i + 1) + 1 := by omega
        rw [pieceTexts, if_neg (by omega), drop_eq_cons (by omega), count, List.take_succ_cons]
        dsimp only
        rw [if_neg (by omega), ih (by omega) (by omega)]
        simp [headed]

theorem zeroRun_le (address : List Nat) (i : Nat) : zeroRun address i ≤ address.length - i := by
  rw [zeroRun, ← List.length_drop]
  exact (List.takeWhile_prefix _).length_le

theorem zeroRun_of_ne {i : Nat} (inside : i < address.length) (other : address.getD i 0 ≠ 0) :
    zeroRun address i = 0 := by
  rw [zeroRun, drop_eq_cons inside, List.takeWhile_cons_of_neg (by simpa using other)]
  rfl

theorem zeroRun_succ {i : Nat} (inside : i < address.length) (zero : address.getD i 0 = 0) :
    zeroRun address i = zeroRun address (i + 1) + 1 := by
  rw [zeroRun, drop_eq_cons inside, List.takeWhile_cons_of_pos (by simpa using zero),
    List.length_cons]
  rfl

/-- Inside of a run, what is left of it. -/
theorem zeroRun_add {i k : Nat} (inside : k ≤ zeroRun address i) :
    zeroRun address i = zeroRun address (i + k) + k := by
  induction k with
  | zero => rfl
  | succ k ih =>
      have now := ih (by omega)
      have room : i + k < address.length := by
        have bound := zeroRun_le address (i + k)
        omega
      have zero : address.getD (i + k) 0 = 0 := by
        by_contra other
        have none := zeroRun_of_ne room other
        omega
      have step := zeroRun_succ room zero
      rw [Nat.add_assoc] at step
      omega

/-- The scan has come to an index, and this is the longest run so far, the first
one of its length. -/
structure Longest (address : List Nat) (i gap run : Nat) : Prop where
  bound : ∀ j < i, zeroRun address j ≤ run
  here : 0 < run → gap < i ∧ run = zeroRun address gap
  first : ∀ j < gap, zeroRun address j < run

theorem Longest.keep {i : Nat} (longest : Longest address i gap run)
    (shorter : zeroRun address i ≤ run) : Longest address (i + 1) gap run := by
  refine ⟨fun j before => ?_, fun some_run => ?_, longest.first⟩
  · obtain earlier | rfl := Nat.lt_succ_iff_lt_or_eq.mp before
    · exact longest.bound j earlier
    · exact shorter
  · obtain ⟨place, length⟩ := longest.here some_run
    exact ⟨by omega, length⟩

/-- A longer run takes the place of the old one, and the scan goes on behind it. -/
theorem Longest.replace {i : Nat} (longest : Longest address i gap run)
    (longer : run < zeroRun address i) :
    Longest address (i + zeroRun address i) i (zeroRun address i) := by
  refine ⟨fun j before => ?_, fun _ => ⟨by omega, rfl⟩, fun j earlier => ?_⟩
  · by_cases earlier : j < i
    · have old := longest.bound j earlier
      omega
    · obtain ⟨k, rfl⟩ : ∃ k, j = i + k := ⟨j - i, by omega⟩
      have inside : zeroRun address i = zeroRun address (i + k) + k := zeroRun_add (by omega)
      omega
  · have old := longest.bound j earlier
    omega

theorem Longest.stop {i : Nat} (longest : Longest address i gap run) (eight : address.length = 8)
    (all : 8 ≤ i) : ∀ j, zeroRun address j ≤ run := by
  intro j
  by_cases inside : j < 8
  · exact longest.bound j (by omega)
  · have none := zeroRun_le address j
    omega

theorem longest_longestFrom {rounds i : Nat} (eight : address.length = 8)
    (enough : 8 ≤ i + rounds) (longest : Longest address i gap run) :
    ∃ last, 8 ≤ last ∧ Longest address last (longestFrom address rounds i gap run).1
      (longestFrom address rounds i gap run).2 := by
  fun_induction longestFrom address rounds i gap run with
  | case1 i => exact ⟨i, enough, longest⟩
  | case2 rounds i gap run all => exact ⟨i, all, longest⟩
  | case3 rounds i gap run inside zero count next longer last =>
      exact ⟨next, Nat.le_of_eq last.symm, longest.replace longer⟩
  | case4 rounds i gap run inside zero count next longer more ih =>
      have limit := zeroRun_le address i
      have behind : zeroRun address i =
          zeroRun address (i + zeroRun address i) + zeroRun address i :=
        zeroRun_add (Nat.le_refl _)
      refine ih (by omega) ((longest.replace longer).keep ?_)
      omega
  | case5 rounds i gap run inside zero count shorter ih =>
      exact ih (by omega) (longest.keep (Nat.le_of_not_lt shorter))
  | case6 rounds i gap run inside other ih =>
      refine ih (by omega) (longest.keep ?_)
      rw [zeroRun_of_ne (by omega) other]
      exact Nat.zero_le run

/-- The gap of an address is its longest run of zeros, and the first one of that
length. -/
theorem findLongest_spec (eight : address.length = 8) :
    (∀ j, zeroRun address j ≤ (findLongestSequenceOfIpv6Pieces address).2) ∧
      (0 < (findLongestSequenceOfIpv6Pieces address).2 →
        (findLongestSequenceOfIpv6Pieces address).2 =
          zeroRun address (findLongestSequenceOfIpv6Pieces address).1) ∧
      ∀ j < (findLongestSequenceOfIpv6Pieces address).1,
        zeroRun address j < (findLongestSequenceOfIpv6Pieces address).2 := by
  have start : Longest address 0 0 0 :=
    ⟨fun _ before => absurd before (Nat.not_lt_zero _), fun some_run => absurd some_run (by decide),
      fun _ before => absurd before (Nat.not_lt_zero _)⟩
  obtain ⟨last, all, longest⟩ := longest_longestFrom eight (by decide : 8 ≤ 0 + 8) start
  exact ⟨longest.stop eight all, fun some_run => (longest.here some_run).2, longest.first⟩

theorem eq_append_zeroRun (address : List Nat) (i : Nat) :
    address = address.take i ++ (List.replicate (zeroRun address i) 0 ++
      address.drop (i + zeroRun address i)) := by
  have zeros : (address.drop i).takeWhile (· = 0) = List.replicate (zeroRun address i) 0 := by
    apply List.eq_replicate_of_mem
    intro piece found
    simpa using List.mem_takeWhile_imp found
  have run := List.prefix_iff_eq_append.mp
    (List.takeWhile_prefix (l := address.drop i) (fun piece => decide (piece = 0)))
  rw [zeros, List.length_replicate, List.drop_drop] at run
  rw [run, List.take_append_drop]

/-- The first character of a text of pieces is a digit. -/
theorem separated_eq_cons {p : Nat} (ps : List Nat) :
    ∃ c cs, separated 16 ':' (p :: ps) = c :: cs ∧ c ≠ ':' := by
  have first : ∃ tail, separated 16 ':' (p :: ps) = Nat.toDigits 16 p ++ tail := by
    cases ps with
    | nil => exact ⟨[], (List.append_nil _).symm⟩
    | cons q qs => exact ⟨_, rfl⟩
  obtain ⟨tail, same⟩ := first
  cases shape : Nat.toDigits 16 p with
  | nil => exact absurd shape Nat.toDigits_ne_nil
  | cons c cs =>
      refine ⟨c, cs ++ tail, by rw [same, shape, List.cons_append], ?_⟩
      rintro rfl
      have digit : isAsciiHexDigit ':' = true := by
        apply isAsciiHexDigit_of_mem (n := p)
        rw [shape]
        exact List.mem_cons_self
      cases digit

theorem read_of_ne {c : Char} (cs : Str) (other : c ≠ ':') :
    read (c :: cs) = pieces 8 (c :: cs) (List.replicate 8 0) none := by
  rw [read.eq_def]
  split
  · next none => cases none
  · next shape => exact absurd (List.cons.inj shape).1 other
  · next shape => exact absurd (List.cons.inj shape).1 other
  · next shape => rw [shape]

/-- The text without a gap. -/
theorem parseIpv6_separated (ok : Address address) :
    parseIpv6 (separated 16 ':' address) = some address := by
  have stored : pieces 8 (separated 16 ':' address) ([] ++ List.replicate 8 0) none = _ :=
    pieces_separated rfl (Nat.le_of_eq ok.1) ok.2
  cases address with
  | nil => cases ok.1
  | cons p ps =>
      obtain ⟨c, cs, shape, other⟩ := separated_eq_cons (p := p) ps
      rw [shape, List.nil_append] at stored
      rw [parseIpv6, shape, read_of_ne cs other, stored]
      simp [ok.1]

theorem headed_eq_cons {p : Nat} (ps : List Nat) (tail : Str) :
    ∃ c cs, headed (p :: ps) ++ tail = c :: cs ∧ c ≠ ':' := by
  obtain ⟨c, cs, shape, other⟩ := separated_eq_cons (p := p) []
  have text : headed (p :: ps) ++ tail = separated 16 ':' [p] ++ (':' :: headed ps ++ tail) := by
    simp [headed, separated]
  refine ⟨c, cs ++ (':' :: headed ps ++ tail), ?_, other⟩
  rw [text, shape, List.cons_append]

/-- The first of the two colons stands for the piece in front of the gap. -/
theorem pieces_colon {rounds : Nat} (front : List Nat) (tail : Str)
    (length : front.length + (rounds + 1) = 8) :
    pieces (rounds + 1) (':' :: tail) (front ++ List.replicate (rounds + 1) 0) none =
      pieces rounds tail ((front ++ [0]) ++ List.replicate rounds 0) (some (front.length + 1)) := by
  have place : 7 - rounds = front.length := by omega
  rw [pieces, if_pos rfl]
  rw [if_neg (by simp), place, List.replicate_succ, List.append_cons]

/-- The text with a gap for some of the zeros. -/
theorem parseIpv6_gap {before after : List Nat} (eight : before.length + run + after.length = 8)
    (wide : 2 ≤ run) (front_bound : ∀ p ∈ before, p < 2 ^ 16) (bound : ∀ p ∈ after, p < 2 ^ 16) :
    parseIpv6 (headed before ++ (if before.length = 0 then [':', ':'] else [':']) ++
      separated 16 ':' after) = some (before ++ (List.replicate run 0 ++ after)) := by
  have started : read (headed before ++ (if before.length = 0 then [':', ':'] else [':']) ++
      separated 16 ':' after) =
      pieces (7 - before.length) (separated 16 ':' after)
        ((before ++ [0]) ++ List.replicate (7 - before.length) 0) (some (before.length + 1)) := by
    cases before with
    | nil => rfl
    | cons p ps =>
        have stored : pieces 8 (headed (p :: ps) ++ ':' :: separated 16 ':' after)
            ([] ++ List.replicate 8 0) none = _ :=
          pieces_headed rfl (by omega) front_bound
        obtain ⟨c, cs, shape, other⟩ := headed_eq_cons (p := p) ps (':' :: separated 16 ':' after)
        have level : 8 - (p :: ps).length = 7 - (p :: ps).length + 1 := by omega
        rw [if_neg (by simp), List.append_assoc, List.singleton_append, shape, read_of_ne cs other]
        rw [shape, level, List.nil_append, List.nil_append,
          pieces_colon (p :: ps) _ (by omega)] at stored
        exact stored
  have place : (before ++ [0]).length = before.length + 1 := List.length_append
  have stored : pieces (7 - before.length) (separated 16 ':' after)
      ((before ++ [0]) ++ List.replicate (7 - before.length) 0) (some (before.length + 1)) = _ :=
    pieces_separated (by omega) (by omega) bound
  have moved :=
    @moveBack_eq (before ++ [0]) after [] (7 - before.length - after.length) (by omega) 7
    (by omega)
  have zeros : List.replicate run 0 = 0 :: List.replicate (7 - before.length - after.length) 0 := by
    rw [← List.replicate_succ]
    congr 1
    omega
  rw [parseIpv6, started, stored]
  dsimp only
  rw [place, Nat.add_sub_cancel_left, ← place]
  rw [List.append_nil, List.append_nil] at moved
  rw [moved, zeros]
  simp

theorem ipv6_eq (address : List Nat) :
    ipv6 address = '[' :: pieceTexts address
      (if (findLongestSequenceOfIpv6Pieces address).2 ≤ 1 then 8
        else (findLongestSequenceOfIpv6Pieces address).1)
      (if (findLongestSequenceOfIpv6Pieces address).2 ≤ 1 then 8
        else (findLongestSequenceOfIpv6Pieces address).2) 8 0 ++ [']'] := by
  rw [ipv6]
  by_cases short : (findLongestSequenceOfIpv6Pieces address).2 ≤ 1
  all_goals simp [short]

theorem of_mem_pieceTexts {rounds i : Nat} {c : Char}
    (found : c ∈ pieceTexts address gap run rounds i) : c = ':' ∨ isAsciiHexDigit c = true := by
  induction rounds generalizing i with
  | zero => cases found
  | succ rounds ih =>
      have one : ∀ j, c ∈ Nat.toDigits 16 (address.getD j 0) ++
          (if j + 1 = 8 then [] else ':' :: pieceTexts address gap run rounds (j + 1)) →
          c = ':' ∨ isAsciiHexDigit c = true := by
        intro j found
        obtain digit | more := List.mem_append.mp found
        · exact .inr (isAsciiHexDigit_of_mem digit)
        · split at more
          · cases more
          · obtain colon | later := List.mem_cons.mp more
            · exact .inl colon
            · exact ih later
      have colons : ∀ p : Prop, [Decidable p] →
          c ∈ (if p then [':', ':'] else [':']) → c = ':' := by
        intro p _ found
        split at found
        all_goals simpa using found
      rw [pieceTexts] at found
      dsimp only at found
      split at found
      · split at found
        · exact .inl (colons _ found)
        · obtain colon | more := List.mem_append.mp found
          · exact .inl (colons _ colon)
          · exact one _ more
      · exact one _ found

theorem of_mem_ipv6 {c : Char} (found : c ∈ ipv6 address) :
    c = '[' ∨ c = ']' ∨ c = ':' ∨ isAsciiHexDigit c = true := by
  rw [ipv6_eq, List.mem_append, List.mem_cons, List.mem_singleton] at found
  obtain (first | inside) | last := found
  · exact .inl first
  · exact .inr (.inr (of_mem_pieceTexts inside))
  · exact .inr (.inl last)

/-- What is written for an address is read as this address. -/
theorem parseIpv6_ipv6 (ok : Address address) :
    ∃ text, ipv6 address = '[' :: text ++ [']'] ∧ parseIpv6 text = some address := by
  obtain ⟨-, zeros, -⟩ := findLongest_spec ok.1
  refine ⟨_, ipv6_eq address, ?_⟩
  generalize findLongestSequenceOfIpv6Pieces address = longest at zeros
  obtain ⟨gap, run⟩ := longest
  dsimp only at zeros ⊢
  by_cases short : run ≤ 1
  · rw [if_pos short, if_pos short,
      pieceTexts_behind ok.1 (by decide) (by decide) (.inr rfl)]
    exact parseIpv6_separated ok
  · have length := zeros (by omega)
    have inside := zeroRun_le address gap
    have whole := eq_append_zeroRun address gap
    rw [← length] at whole inside
    rw [ok.1] at inside
    have front : (address.take gap).length = gap := by
      rw [List.length_take, ok.1]
      omega
    rw [if_neg short, if_neg short,
      pieceTexts_front ok.1 (by omega) (by omega) (by decide) (Nat.zero_le gap), List.drop_zero,
      Nat.sub_zero]
    have back := @parseIpv6_gap run (address.take gap) (address.drop (gap + run))
      (by rw [front, List.length_drop, ok.1]; omega) (by omega)
      (fun p found => ok.2 p (List.mem_of_mem_take found))
      (fun p found => ok.2 p (List.mem_of_mem_drop found))
    rw [front, ← whole] at back
    exact back

/-- Eight pieces of 16 bits are written in brackets as a text that is read as them, and
nothing else is ever read. -/
theorem parseIpv6_range (address : List Nat) :
    (Address address ↔
      ∃ text, ipv6 address = '[' :: text ++ [']'] ∧ parseIpv6 text = some address) ∧
    ∀ input, parseIpv6 input = some address → Address address :=
  ⟨⟨parseIpv6_ipv6, fun ⟨_, _, accepted⟩ => address_of_parseIpv6 accepted⟩,
    fun _ accepted => address_of_parseIpv6 accepted⟩

end Ipv6

end Mux.Ada
