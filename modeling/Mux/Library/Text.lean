import Mathlib.Algebra.Group.Nat.Defs
import Mathlib.Data.List.Basic
import Mathlib.Data.List.TakeWhile

/-!
# Character sequences as byte streams

A `Str` is the sequence of characters of a C string object, one list element
for one byte. The module has the reading operations of an input stream (whole
lines, whitespace-separated words), the search for the first occurrence of a
delimiter, the cut of a text into CRLF lines, and the decimal notation.
-/

/-- The contents of a string object, one element for one byte. -/
abbrev Str := List Char

namespace Text

/-- Carriage return and line feed, the line end of network protocols. -/
def crlf : Str := ['\r', '\n']

/-- A text without carriage returns and line feeds, which fits on one line. -/
def CleanStr : Type := { s : Str // '\r' ∉ s ∧ '\n' ∉ s }

/-- The whitespace characters of the classic locale. -/
def isSpace (c : Char) : Bool := c ∈ [' ', '\t', '\n', '\x0b', '\x0c', '\r']

/-! ## Lines -/

/-- The lines that repeated `getline` calls deliver: each ends at a newline,
which is dropped, or at the end of a non-empty rest. -/
def getlines : Str → List Str
  | [] => []
  | c :: cs =>
      if c = '\n' then [] :: getlines cs
      else match getlines cs with
        | [] => [[c]]
        | line :: lines => (c :: line) :: lines

@[simp] theorem getlines_nil : getlines [] = [] := rfl

@[simp] theorem getlines_newline (rest : Str) : getlines ('\n' :: rest) = [] :: getlines rest := rfl

/-- The pieces that repeated `getline` calls with a delimiter deliver. -/
def getlinesAt (delim : Char) : Str → List Str
  | [] => []
  | c :: cs =>
      if c = delim then [] :: getlinesAt delim cs
      else match getlinesAt delim cs with
        | [] => [[c]]
        | line :: lines => (c :: line) :: lines

theorem getlinesAt_newline (s : Str) : getlinesAt '\n' s = getlines s := by
  induction s with
  | nil => rfl
  | cons c cs ih => rw [getlinesAt, getlines, ih]

theorem getlinesAt_append_delim {delim : Char} {line : Str} (hline : delim ∉ line) (rest : Str) :
    getlinesAt delim (line ++ delim :: rest) = line :: getlinesAt delim rest := by
  induction line with
  | nil => rw [List.nil_append, getlinesAt, if_pos rfl]
  | cons c line ih =>
      obtain ⟨hc, hline⟩ := not_or.mp (mt List.mem_cons.mpr hline)
      rw [List.cons_append, getlinesAt, if_neg (Ne.symm hc), ih hline]

theorem getlines_append_newline {line : Str} (hline : '\n' ∉ line) (rest : Str) :
    getlines (line ++ '\n' :: rest) = line :: getlines rest := by
  rw [← getlinesAt_newline, ← getlinesAt_newline, getlinesAt_append_delim hline]

/-- A line feed separates the lines in front of it from those behind. -/
theorem getlines_append_feed (front rest : Str) :
    getlines (front ++ '\n' :: rest) = getlines (front ++ ['\n']) ++ getlines rest := by
  induction front with
  | nil => rfl
  | cons c front ih =>
      have pending : getlines (front ++ ['\n']) ≠ [] := by
        cases front with
        | nil => exact List.cons_ne_nil _ _
        | cons d front =>
            rw [List.cons_append, getlines]
            split
            · exact List.cons_ne_nil _ _
            · split <;> exact List.cons_ne_nil _ _
      rw [List.cons_append, List.cons_append, getlines, getlines, ih]
      split
      · rfl
      · cases found : getlines (front ++ ['\n']) with
        | nil => exact absurd found pending
        | cons line lines => rfl

/-- The last piece is not delivered when there is nothing in it. -/
theorem getlinesAt_last {delim : Char} {line : Str} (hline : delim ∉ line) :
    getlinesAt delim line = if line = [] then [] else [line] := by
  induction line with
  | nil => rfl
  | cons c line ih =>
      obtain ⟨hc, hline⟩ := not_or.mp (mt List.mem_cons.mpr hline)
      rw [getlinesAt, if_neg (Ne.symm hc), ih hline]
      cases line <;> simp

/-- No part of a text that was split has the delimiter. -/
theorem not_mem_splitOn {delim : Char} {url part : Str} (h : part ∈ url.splitOn delim) :
    delim ∉ part := by
  induction url generalizing part with
  | nil =>
      rw [List.splitOn_nil, List.mem_singleton] at h
      rw [h]
      exact List.not_mem_nil
  | cons c url ih =>
      rw [List.splitOn_cons_eq_if_modifyHead] at h
      split at h
      · obtain rfl | h := List.mem_cons.mp h
        · exact List.not_mem_nil
        · exact ih h
      · next other =>
          obtain ⟨first, parts, hparts⟩ :=
            List.exists_cons_of_ne_nil (List.splitOn_ne_nil delim url)
          rw [hparts, List.modifyHead_cons] at h
          obtain rfl | h := List.mem_cons.mp h
          · have apart : delim ≠ c := fun h => other (beq_iff_eq.mpr h.symm)
            exact List.not_mem_cons_of_ne_of_not_mem apart (ih (hparts ▸ List.mem_cons_self))
          · exact ih (hparts ▸ List.mem_cons_of_mem first h)

/-! ## Words -/

/-- Formatted extraction of a string: leading whitespace is skipped, and the
extraction fails when nothing is left. -/
def extract (s : Str) : Option (Str × Str) :=
  let s := s.dropWhile isSpace
  if s = [] then none else some (s.takeWhile (!isSpace ·), s.dropWhile (!isSpace ·))

/-! ## The first occurrence of a delimiter -/

theorem idxOf?_append_cons {c : Char} {before : Str} (h : c ∉ before) (after : Str) :
    (before ++ c :: after).idxOf? c = some before.length := by
  induction before with
  | nil => simp [List.idxOf?_cons]
  | cons d before ih =>
      obtain ⟨hd, h⟩ := not_or.mp (mt List.mem_cons.mpr h)
      simp [List.idxOf?_cons, ih h, Ne.symm hd]

/-- The position of the last occurrence. -/
def rfind (c : Char) (s : Str) : Option Nat :=
  (s.reverse.idxOf? c).map fun back => s.length - 1 - back

theorem rfind_append_cons {c : Char} {after : Str} (h : c ∉ after) (before : Str) :
    rfind c (before ++ c :: after) = some before.length := by
  have back : (before ++ c :: after).reverse = after.reverse ++ c :: before.reverse := by simp
  rw [rfind, back, idxOf?_append_cons (mt List.mem_reverse.mp h), Option.map_some,
    List.length_append, List.length_cons, List.length_reverse]
  congr 1
  omega

theorem rfind_eq_none {c : Char} {s : Str} (h : c ∉ s) : rfind c s = none := by
  rw [rfind, List.idxOf?_eq_none_iff.mpr (mt List.mem_reverse.mp h)]
  rfl

/-- A stretch is taken as a whole where what follows it starts with something else. -/
theorem takeWhile_append_stop {α : Type} {p : α → Bool} {s tail : List α}
    (inside : ∀ c ∈ s, p c = true) (ending : ∀ c cs, tail = c :: cs → p c = false) :
    (s ++ tail).takeWhile p = s ∧ (s ++ tail).dropWhile p = tail := by
  rw [List.takeWhile_append_of_pos inside, List.dropWhile_append_of_pos inside]
  cases tail with
  | nil => exact ⟨List.append_nil s, rfl⟩
  | cons c cs =>
      have other : ¬p c = true := by simp [ending c cs rfl]
      rw [List.takeWhile_cons_of_neg other, List.dropWhile_cons_of_neg other]
      exact ⟨List.append_nil s, rfl⟩

/-- Split at the first occurrence of a delimiter, which neither part keeps. -/
def cut? (delim : Str) : Str → Option (Str × Str)
  | [] => if delim = [] then some ([], []) else none
  | c :: cs =>
      if delim.isPrefixOf (c :: cs) then some ([], (c :: cs).drop delim.length)
      else (cut? delim cs).map fun (before, after) => (c :: before, after)

theorem cut?_delim {delim : Str} (hdelim : delim ≠ []) (rest : Str) :
    cut? delim (delim ++ rest) = some ([], rest) := by
  cases delim with
  | nil => exact absurd rfl hdelim
  | cons d ds =>
      have found : (d :: ds).isPrefixOf (d :: (ds ++ rest)) = true := by
        rw [List.isPrefixOf_iff_prefix]
        exact List.prefix_append (d :: ds) rest
      rw [List.cons_append, cut?, if_pos found]
      simp

/-- The search fails only where the delimiter does not occur. -/
theorem not_infix_of_cut? {delim s : Str} (none : cut? delim s = none) : ¬ delim <:+: s := by
  induction s with
  | nil =>
      rw [cut?] at none
      split at none
      · cases none
      · next nonempty => rwa [List.infix_nil]
  | cons c s ih =>
      rw [cut?] at none
      split at none
      · cases none
      · next here =>
          rw [List.infix_cons_iff, not_or]
          exact ⟨fun front => here (List.isPrefixOf_iff_prefix.mpr front),
            ih (Option.map_eq_none_iff.mp none)⟩

theorem cut?_cons {delim : Str} {c : Char} {cs : Str} (h : ¬ delim <+: c :: cs) :
    cut? delim (c :: cs) = (cut? delim cs).map fun (before, after) => (c :: before, after) := by
  rw [cut?, if_neg (by simpa [List.isPrefixOf_iff_prefix] using h)]

/-- A stretch without the delimiter's first character cannot hold the start of
an occurrence, so the search passes over it. -/
theorem cut?_append {d : Char} {t p : Str} (hp : d ∉ p) (rest : Str) :
    cut? (d :: t) (p ++ rest) =
      (cut? (d :: t) rest).map fun (before, after) => (p ++ before, after) := by
  induction p with
  | nil => simp
  | cons c p ih =>
      obtain ⟨hc, hp⟩ := not_or.mp (mt List.mem_cons.mpr hp)
      have here : ¬ (d :: t) <+: c :: (p ++ rest) := by
        intro found
        exact hc (List.cons_prefix_cons.mp found).1
      rw [List.cons_append, cut?_cons here, ih hp, Option.map_map]
      rfl

/-- The search for a single character finds the first one. -/
theorem cut?_singleton_eq_some {d : Char} {s before after : Str} :
    cut? [d] s = some (before, after) ↔ s = before ++ d :: after ∧ d ∉ before := by
  constructor
  · intro found
    induction s generalizing before with
    | nil =>
        rw [cut?, if_neg (List.cons_ne_nil d [])] at found
        cases found
    | cons c cs ih =>
        by_cases here : [d] <+: c :: cs
        · obtain ⟨rest, shape⟩ := here
          rw [← shape, cut?_delim (List.cons_ne_nil d [])] at found
          obtain ⟨rfl, rfl⟩ := Prod.mk.inj (Option.some.inj found)
          exact ⟨shape.symm, List.not_mem_nil⟩
        · rw [cut?_cons here, Option.map_eq_some_iff] at found
          obtain ⟨⟨front, rest⟩, deeper, same⟩ := found
          obtain ⟨rfl, rfl⟩ := Prod.mk.inj same
          obtain ⟨rfl, clean⟩ := ih deeper
          refine ⟨rfl, ?_⟩
          rw [List.mem_cons, not_or]
          refine ⟨?_, clean⟩
          rintro rfl
          exact here ⟨front ++ d :: rest, rfl⟩
  · rintro ⟨rfl, clean⟩
    have here : cut? [d] (d :: after) = some ([], after) := cut?_delim (List.cons_ne_nil d []) after
    have search := cut?_append (d := d) (t := []) clean (d :: after)
    rw [here] at search
    simpa using search

theorem cut?_singleton_eq_none {d : Char} {s : Str} : cut? [d] s = none ↔ d ∉ s := by
  constructor
  · intro none member
    apply not_infix_of_cut? none
    obtain ⟨before, after, rfl⟩ := List.append_of_mem member
    exact ⟨before, after, by simp⟩
  · intro clean
    have search := cut?_append (d := d) (t := []) clean []
    rwa [List.append_nil, cut?, if_neg (List.cons_ne_nil d []), Option.map_none] at search

/-- The search for an empty line passes over a line end that is followed by
the first character of another line. -/
theorem cut?_emptyLine {line : Str} {c : Char} (hline : '\r' ∉ line) (hc : c ≠ '\r') (cs : Str) :
    cut? (crlf ++ crlf) (line ++ crlf ++ c :: cs) =
      (cut? (crlf ++ crlf) (c :: cs)).map fun (before, after) =>
        (line ++ crlf ++ before, after) := by
  have atReturn : ¬ (crlf ++ crlf) <+: '\r' :: '\n' :: c :: cs := by
    intro found
    have next := (List.cons_prefix_cons.mp (List.cons_prefix_cons.mp found).2).2
    exact hc (List.cons_prefix_cons.mp next).1.symm
  have atFeed : ¬ (crlf ++ crlf) <+: '\n' :: c :: cs := by
    intro found
    exact absurd (List.cons_prefix_cons.mp found).1 (by decide)
  have passLine := cut?_append (t := ['\n', '\r', '\n']) hline (crlf ++ c :: cs)
  rw [List.append_assoc]
  refine passLine.trans ?_
  change (cut? (crlf ++ crlf) ('\r' :: '\n' :: c :: cs)).map _ = _
  rw [cut?_cons atReturn, cut?_cons atFeed, Option.map_map, Option.map_map]
  congr 1
  funext parts
  simp [crlf]

/-! ## CRLF lines -/

/-- Split at every CRLF. A text without CRLF is one line. -/
def crlfLines : Str → List Str
  | [] => [[]]
  | '\r' :: '\n' :: cs => [] :: crlfLines cs
  | c :: cs => match crlfLines cs with
      | [] => [[c]]
      | line :: lines => (c :: line) :: lines

theorem crlfLines_ne_nil (s : Str) : crlfLines s ≠ [] := by
  fun_cases crlfLines s with
  | case1 => exact List.cons_ne_nil _ _
  | case2 => exact List.cons_ne_nil _ _
  | case3 => exact List.cons_ne_nil _ _
  | case4 => exact List.cons_ne_nil _ _

/-- A character belongs to the line behind it unless a line end starts with it. -/
theorem crlfLines_cons {c : Char} {s : Str} (h : ∀ cs, c = '\r' → s ≠ '\n' :: cs) :
    crlfLines (c :: s) = (crlfLines s).modifyHead (c :: ·) := by
  rw [crlfLines]
  · cases found : crlfLines s with
    | nil => exact absurd found (crlfLines_ne_nil s)
    | cons line lines => rfl
  · exact h

/-- A line end separates the lines in front of it from those behind. -/
theorem crlfLines_append (front rest : Str) :
    crlfLines (front ++ crlf ++ rest) = crlfLines front ++ crlfLines rest := by
  induction front using crlfLines.induct with
  | case1 => rfl
  | case2 front ih => exact congrArg ([] :: ·) ih
  | case3 c front h found ih => exact absurd found (crlfLines_ne_nil front)
  | case4 c front h line lines found ih =>
      have here : ∀ cs, c = '\r' → front ++ crlf ++ rest ≠ '\n' :: cs := by
        rintro cs rfl same
        cases front with
        | nil => cases same
        | cons d front =>
            obtain ⟨rfl, -⟩ := List.cons.inj same
            exact h front rfl rfl
      rw [List.cons_append, List.cons_append, crlfLines_cons here, ih, crlfLines_cons h, found]
      rfl

theorem crlfLines_unbroken {s : Str} (unbroken : ¬ crlf <:+: s) : crlfLines s = [s] := by
  induction s with
  | nil => rfl
  | cons c s ih =>
      have inner : ¬ crlf <:+: s :=
        fun found => unbroken (found.trans (List.suffix_cons c s).isInfix)
      have here : ∀ cs, c = '\r' → s ≠ '\n' :: cs := by
        rintro cs rfl rfl
        exact unbroken ⟨[], cs, rfl⟩
      rw [crlfLines_cons here, ih inner]
      rfl

/-- A text is one line exactly when no line ends in it. -/
theorem crlfLines_length_eq_one {s : Str} : (crlfLines s).length = 1 ↔ ¬ crlf <:+: s := by
  constructor
  · rintro one ⟨front, rest, rfl⟩
    have left := List.length_pos_of_ne_nil (crlfLines_ne_nil front)
    have right := List.length_pos_of_ne_nil (crlfLines_ne_nil rest)
    rw [crlfLines_append, List.length_append] at one
    omega
  · intro unbroken
    rw [crlfLines_unbroken unbroken, List.length_singleton]

theorem crlfLines_clean {line : Str} (hline : '\r' ∉ line) : crlfLines line = [line] := by
  exact crlfLines_unbroken fun broken => hline (broken.subset List.mem_cons_self)

theorem crlfLines_append_crlf {line : Str} (hline : '\r' ∉ line) (rest : Str) :
    crlfLines (line ++ crlf ++ rest) = line :: crlfLines rest := by
  rw [crlfLines_append, crlfLines_clean hline, List.singleton_append]

/-- Lines separated by CRLF, without a line end behind the last one. -/
def joinLines (line : Str) : List Str → Str
  | [] => line
  | next :: lines => line ++ crlf ++ joinLines next lines

theorem crlfLines_joinLines {line : Str} {lines : List Str}
    (clean : ∀ l ∈ line :: lines, '\r' ∉ l) : crlfLines (joinLines line lines) = line :: lines := by
  induction lines generalizing line with
  | nil => exact crlfLines_clean (clean line List.mem_cons_self)
  | cons next lines ih =>
      rw [joinLines, crlfLines_append_crlf (clean line List.mem_cons_self),
        ih fun l member => clean l (List.mem_cons_of_mem _ member)]

/-- A head of non-empty lines holds no empty line, so the first one found is
the one that ends the head. -/
theorem cut?_joinLines {line : Str} {lines : List Str}
    (clean : ∀ l ∈ line :: lines, '\r' ∉ l) (nonempty : ∀ l ∈ lines, l ≠ []) (rest : Str) :
    cut? (crlf ++ crlf) (joinLines line lines ++ (crlf ++ crlf) ++ rest) =
      some (joinLines line lines, rest) := by
  induction lines generalizing line with
  | nil =>
      have passLine := cut?_append (t := ['\n', '\r', '\n']) (clean line List.mem_cons_self)
        (crlf ++ crlf ++ rest)
      rw [joinLines, List.append_assoc]
      refine passLine.trans ?_
      rw [show '\r' :: ['\n', '\r', '\n'] = crlf ++ crlf from rfl, cut?_delim (by simp [crlf])]
      simp
  | cons next lines ih =>
      have found := @ih next (fun l member => clean l (List.mem_cons_of_mem _ member))
        fun l member => nonempty l (List.mem_cons_of_mem _ member)
      obtain ⟨c, cs, start⟩ : ∃ c cs, joinLines next lines ++ (crlf ++ crlf) ++ rest = c :: cs ∧
          c ∈ next := by
        cases next with
        | nil => exact absurd rfl (nonempty [] List.mem_cons_self)
        | cons c cs => cases lines <;> exact ⟨c, _, rfl, List.mem_cons_self⟩
      have hc : c ≠ '\r' := by
        rintro rfl
        exact clean next (List.mem_cons_of_mem _ List.mem_cons_self) start.2
      rw [start.1] at found
      have passLine := cut?_emptyLine (clean line List.mem_cons_self) hc cs
      rw [found, ← start.1] at passLine
      simpa only [joinLines, List.append_assoc, Option.map_some] using passLine

/-! ## Blocks -/

theorem length_le_flatMap {α β : Type} {f : α → List β} (nonempty : ∀ a, f a ≠ []) (l : List α) :
    l.length ≤ (l.flatMap f).length := by
  induction l with
  | nil => exact Nat.le_refl 0
  | cons a l ih =>
      have first := List.length_pos_of_ne_nil (nonempty a)
      rw [List.flatMap_cons, List.length_append, List.length_cons]
      omega

/-- No block has more than one entry when there are as many entries as blocks. -/
theorem length_flatMap_eq {α β : Type} {f : α → List β} (nonempty : ∀ a, f a ≠ []) {l : List α} :
    (l.flatMap f).length = l.length ↔ ∀ a ∈ l, (f a).length = 1 := by
  induction l with
  | nil => simp
  | cons a l ih =>
      have first := List.length_pos_of_ne_nil (nonempty a)
      have rest := length_le_flatMap nonempty l
      rw [List.forall_mem_cons, ← ih, List.flatMap_cons, List.length_append, List.length_cons]
      omega

/-! ## Decimal notation -/

/-- The decimal digits of a number, most significant first. -/
def decimal (n : Nat) : Str := Nat.toDigits 10 n

/-- The decimal notation of an integer, with a sign when it is negative. -/
def decimalInt : Int → Str
  | .ofNat n => decimal n
  | .negSucc n => '-' :: decimal (n + 1)

/-- The value of a non-empty sequence of decimal digits. -/
def parseDecimal (s : Str) : Option Nat :=
  if s ≠ [] ∧ s.all Char.isDigit then some (Nat.ofDigitChars 10 s 0) else none

theorem isDigit_of_mem_decimal {n : Nat} {c : Char} (h : c ∈ decimal n) : c.isDigit :=
  Nat.isDigit_of_mem_toDigits (by decide) (by decide) h

theorem not_mem_decimal {c : Char} (hc : c.isDigit = false) (n : Nat) : c ∉ decimal n := by
  intro h
  rw [isDigit_of_mem_decimal h] at hc
  cases hc

theorem not_mem_decimalInt {c : Char} (hc : c.isDigit = false) (sign : c ≠ '-') (n : Int) :
    c ∉ decimalInt n := by
  cases n with
  | ofNat n => exact not_mem_decimal hc n
  | negSucc n => simp [decimalInt, sign, not_mem_decimal hc]

/-- Reading a number back from its decimal notation. -/
theorem parseDecimal_decimal (n : Nat) : parseDecimal (decimal n) = some n := by
  have digits : (decimal n).all Char.isDigit = true :=
    List.all_eq_true.mpr fun c h => isDigit_of_mem_decimal h
  rw [parseDecimal, if_pos ⟨Nat.toDigits_ne_nil, digits⟩]
  exact congrArg some (Nat.ofDigitChars_toDigits (by decide) (by decide))

/-- The last decimal digits of a number, as many as the width says. -/
def digits : Nat → Nat → Str
  | 0, _ => []
  | width + 1, n => digits width (n / 10) ++ [(n % 10).digitChar]

/-- The number at the front of a text: at least one digit, and no more than the width says. -/
def readNumber (width : Nat) (s : Str) : Option (Nat × Str) :=
  let number := (s.take width).takeWhile Char.isDigit
  (parseDecimal number).map fun n => (n, s.drop number.length)

section Digits

variable {width n m : Nat}

@[simp] theorem length_digits (width n : Nat) : (digits width n).length = width := by
  induction width generalizing n with
  | zero => rfl
  | succ width ih => rw [digits, List.length_append, ih, List.length_singleton]

theorem isDigit_of_mem_digits {c : Char} (h : c ∈ digits width n) : c.isDigit = true := by
  induction width generalizing n with
  | zero => cases h
  | succ width ih =>
      obtain front | last := List.mem_append.mp h
      · exact ih front
      · rw [List.mem_singleton.mp last, Nat.isDigit_digitChar, decide_eq_true_eq]
        omega

theorem isSpace_of_isDigit {c : Char} (h : c.isDigit = true) : isSpace c = false := by
  cases space : isSpace c with
  | false => rfl
  | true =>
      have member : c ∈ [' ', '\t', '\n', '\x0b', '\x0c', '\r'] := of_decide_eq_true space
      simp only [List.mem_cons, List.not_mem_nil, or_false] at member
      obtain rfl | rfl | rfl | rfl | rfl | rfl := member <;> cases h

/-- No blank stands in front of a number. -/
theorem dropWhile_digits (positive : 0 < width) (rest : Str) :
    (digits width n ++ rest).dropWhile isSpace = digits width n ++ rest := by
  cases first : digits width n with
  | nil =>
      have length := length_digits width n
      rw [first] at length
      cases length
      cases positive
  | cons c cs =>
      have member : c ∈ digits width n := by
        rw [first]
        exact List.mem_cons_self
      have digit := isDigit_of_mem_digits member
      rw [List.cons_append, List.dropWhile_cons_of_neg (by simp [isSpace_of_isDigit digit])]

theorem ofDigitChars_digits (bound : n < 10 ^ width) :
    Nat.ofDigitChars 10 (digits width n) 0 = n := by
  induction width generalizing n with
  | zero => exact (Nat.lt_one_iff.mp bound).symm
  | succ width ih =>
      rw [digits, Nat.ofDigitChars_append, ih (by omega),
        Nat.ofDigitChars_cons_digitChar_of_lt_ten (Nat.mod_lt n (by decide)),
        Nat.ofDigitChars_nil, Nat.div_add_mod]

theorem parseDecimal_digits (positive : 0 < width) (bound : n < 10 ^ width) :
    parseDecimal (digits width n) = some n := by
  have nonempty : digits width n ≠ [] := by
    rw [ne_eq, ← List.length_eq_zero_iff, length_digits]
    omega
  have digits : (digits width n).all Char.isDigit = true :=
    List.all_eq_true.mpr fun c h => isDigit_of_mem_digits h
  rw [parseDecimal, if_pos ⟨nonempty, digits⟩, ofDigitChars_digits bound]

/-- A number of full width is read up to its end, whatever follows. -/
theorem readNumber_digits (positive : 0 < width) (bound : n < 10 ^ width) (rest : Str) :
    readNumber width (digits width n ++ rest) = some (n, rest) := by
  have taken : (digits width n ++ rest).take width = digits width n :=
    List.take_left' (length_digits width n)
  have whole : (digits width n).takeWhile Char.isDigit = digits width n :=
    List.takeWhile_eq_self_iff.mpr fun c h => isDigit_of_mem_digits h
  simp only [readNumber, taken, whole, parseDecimal_digits positive bound, Option.map_some,
    List.drop_left]

/-- The decimal notation has the width of the number when no digit in front is zero. -/
theorem decimal_eq_digits (width : Nat) (lower : 10 ^ width ≤ n) (upper : n < 10 ^ (width + 1)) :
    decimal n = digits (width + 1) n := by
  induction width generalizing n with
  | zero =>
      have small : n < 10 := by omega
      rw [decimal, Nat.toDigits_of_lt_base small, digits, digits, Nat.mod_eq_of_lt small]
      rfl
  | succ width ih =>
      have large : 10 ≤ n := by
        have positive := Nat.pow_pos (n := width) (show 0 < 10 by decide)
        omega
      have front := ih (n := n / 10) (by omega) (by omega)
      rw [decimal, Nat.toDigits_of_base_le (by decide) large, digits, ← front]
      rfl

/-- In front of a character that is no digit, an integer and a number with the same notation
are the same. -/
theorem decimalInt_append_cons {c : Char} {z : Int} {rest rest' : Str} (other : c.isDigit = false)
    (same : decimalInt z ++ c :: rest = decimal n ++ c :: rest') : z = n ∧ rest = rest' := by
  cases z with
  | ofNat m =>
      have position := idxOf?_append_cons (not_mem_decimal other m) rest
      change decimal m ++ c :: rest = decimal n ++ c :: rest' at same
      rw [same, idxOf?_append_cons (not_mem_decimal other n)] at position
      obtain ⟨number, after⟩ := List.append_inj same (Option.some.inj position).symm
      have value := parseDecimal_decimal m
      rw [number, parseDecimal_decimal, Option.some.injEq] at value
      exact ⟨congrArg Int.ofNat value.symm, (List.cons.inj after).2⟩
  | negSucc m =>
      cases first : decimal n with
      | nil => exact absurd first Nat.toDigits_ne_nil
      | cons d ds =>
          have digit : d.isDigit = true := by
            apply isDigit_of_mem_decimal (n := n)
            rw [first]
            exact List.mem_cons_self
          rw [first] at same
          rw [← (List.cons.inj same).1] at digit
          cases digit

end Digits

end Text
