import Mux.Library.BrokenDownTime
import Mux.Library.Text

/-!
# Times as texts

`get_time` and `strftime` of the C and C++ libraries, for formats whose conversions are
the year, the month, the day, the hour, the minute and the second. The year is read from
four digits at most and the others from two; all are printed as decimal numbers, and all
but the year with two digits. A format with another conversion is not one of this model.
-/

open Text

inductive Conversion where
  | Y
  | m
  | d
  | H
  | M
  | S
  deriving DecidableEq, Repr

/-- A piece of a format. -/
inductive Directive where
  | literal (c : Char)
  | number (conversion : Conversion)
  deriving DecidableEq, Repr

namespace Conversion

def width : Conversion → ℕ
  | .Y => 4
  | _ => 2

/-- The smallest number that is read. -/
def lowest : Conversion → ℕ
  | .m => 1
  | .d => 1
  | _ => 0

/-- The largest number that is read; a leap second may follow the others. -/
def highest : Conversion → ℕ
  | .Y => 9999
  | .m => 12
  | .d => 31
  | .H => 23
  | .M => 59
  | .S => 60

/-- The number that stands for a field. -/
def value (tm : Tm) : Conversion → ℤ
  | .Y => tm.tm_year + 1900
  | .m => tm.tm_mon + 1
  | .d => tm.tm_mday
  | .H => tm.tm_hour
  | .M => tm.tm_min
  | .S => tm.tm_sec

/-- Store a number in its field. -/
def store (n : ℤ) (tm : Tm) : Conversion → Tm
  | .Y => { tm with tm_year := n - 1900 }
  | .m => { tm with tm_mon := n - 1 }
  | .d => { tm with tm_mday := n }
  | .H => { tm with tm_hour := n }
  | .M => { tm with tm_min := n }
  | .S => { tm with tm_sec := n }

def read (conversion : Conversion) (tm : Tm) (s : Str) : Option (Tm × Str) :=
  match readNumber conversion.width s with
  | some (n, rest) =>
      if conversion.lowest ≤ n ∧ n ≤ conversion.highest then some (conversion.store n tm, rest)
      else none
  | none => none

def print (tm : Tm) : Conversion → Str
  | .Y => decimalInt (Conversion.Y.value tm)
  | conversion => digits conversion.width (conversion.value tm).toNat

end Conversion

namespace Directive

/-- The directive that a character behind a percent sign names. -/
def ofChar? : Char → Option Directive
  | 'Y' => some (.number .Y)
  | 'm' => some (.number .m)
  | 'd' => some (.number .d)
  | 'H' => some (.number .H)
  | 'M' => some (.number .M)
  | 'S' => some (.number .S)
  | '%' => some (.literal '%')
  | _ => none

/-- Blanks of a format stand for any number of blanks; a letter also for the letter in the
other case. -/
def read (tm : Tm) (s : Str) : Directive → Option (Tm × Str)
  | .literal c =>
      if isSpace c then some (tm, s.dropWhile isSpace)
      else match s with
        | [] => none
        | c' :: rest => if c.toLower = c'.toLower then some (tm, rest) else none
  | .number conversion => conversion.read tm s

def print (tm : Tm) : Directive → Str
  | .literal c => [c]
  | .number conversion => conversion.print tm

end Directive

/-- The directives of a format string. -/
def directives : Str → Option (List Directive)
  | [] => some []
  | ['%'] => none
  | '%' :: c :: format => do some ((← Directive.ofChar? c) :: (← directives format))
  | c :: format => (directives format).map (.literal c :: ·)

/-- The text is read directive by directive; what is left behind the last one stays unread. -/
def readTime : List Directive → Tm → Str → Option Tm
  | [], tm, _ => some tm
  | directive :: format, tm, s =>
      match directive.read tm s with
      | some (tm, rest) => readTime format tm rest
      | none => none

/-- The text of a time. -/
def printTime (format : List Directive) (tm : Tm) : Str := format.flatMap (Directive.print tm)

/-- Extraction skips leading blanks and fails when nothing is left. -/
def get_time (format s : Str) (tm : Tm) : Option Tm :=
  if s.dropWhile isSpace = [] then none
  else (directives format).bind fun format => readTime format tm (s.dropWhile isSpace)

def strftime (format : Str) (tm : Tm) : Option Str :=
  (directives format).map (printTime · tm)

/-! ## Reading what was printed -/

namespace Conversion

variable {conversion : Conversion} {tm tm' : Tm}

/-- The number of a field is one that is read, and it is printed with all its digits. -/
def Readable (tm : Tm) (conversion : Conversion) : Prop :=
  conversion.lowest ≤ conversion.value tm ∧ conversion.value tm ≤ conversion.highest ∧
    (conversion = .Y → 1000 ≤ conversion.value tm)

theorem print_readable (readable : conversion.Readable tm) :
    conversion.print tm = digits conversion.width (conversion.value tm).toNat := by
  obtain ⟨-, upper, year⟩ := readable
  cases conversion with
  | Y =>
      have lower := year rfl
      obtain ⟨n, value⟩ := Int.eq_ofNat_of_zero_le (show 0 ≤ Conversion.Y.value tm by omega)
      rw [print, value]
      rw [value] at lower upper
      exact decimal_eq_digits 3 (by omega) (by change (n : ℤ) ≤ 9999 at upper; omega)
  | m => rfl
  | d => rfl
  | H => rfl
  | M => rfl
  | S => rfl

theorem highest_lt (conversion : Conversion) : conversion.highest < 10 ^ conversion.width := by
  cases conversion <;> decide

theorem width_pos (conversion : Conversion) : 0 < conversion.width := by
  cases conversion <;> decide

theorem read_print (readable : conversion.Readable tm') (rest : Str) :
    conversion.read tm (conversion.print tm' ++ rest) =
      some (conversion.store (conversion.value tm') tm, rest) := by
  rw [print_readable readable]
  obtain ⟨lower, upper, -⟩ := readable
  obtain ⟨n, value⟩ :=
    Int.eq_ofNat_of_zero_le (show 0 ≤ conversion.value tm' by omega)
  rw [value] at lower upper ⊢
  have small : n < 10 ^ conversion.width := lt_of_le_of_lt (by omega) conversion.highest_lt
  rw [read, Int.toNat_natCast, readNumber_digits conversion.width_pos small]
  exact if_pos ⟨by omega, by omega⟩

/-- Apart from the year, all fields of a local time can be read. -/
theorem readable_ofSeconds (notYear : conversion ≠ .Y) (second isdst : ℤ) :
    conversion.Readable (.ofSeconds second isdst) := by
  have range : conversion.lowest ≤ conversion.value (.ofSeconds second isdst) ∧
      conversion.value (.ofSeconds second isdst) ≤ conversion.highest := by
    cases conversion with
    | Y => exact absurd rfl notYear
    | d =>
        obtain ⟨begun, pending⟩ := Calendar.monthOf_spec (second / 60 / 60 / 24)
        have length := (Calendar.monthLength_bounds (Calendar.monthOf (second / 60 / 60 / 24))).2
        rw [Calendar.monthStart_succ] at pending
        simp only [value, lowest, highest, Tm.ofSeconds]
        omega
    | m | H | M | S =>
        simp only [value, lowest, highest, Tm.ofSeconds]
        omega
  exact ⟨range.1, range.2, fun year => absurd year notYear⟩

end Conversion

/-- What a directive carries from the printed time to the one that is read. -/
def Directive.copy (tm' tm : Tm) : Directive → Tm
  | .literal _ => tm
  | .number conversion => conversion.store (conversion.value tm') tm

/-- A format without blanks reads the fields that it has printed. -/
theorem readTime_printTime {format : List Directive} (tm tm' : Tm)
    (solid : ∀ c, .literal c ∈ format → isSpace c = false)
    (readable : ∀ conversion, .number conversion ∈ format → conversion.Readable tm') :
    readTime format tm (printTime format tm') = some (format.foldl (Directive.copy tm') tm) := by
  induction format generalizing tm with
  | nil => rfl
  | cons directive format ih =>
      have later (tm : Tm) := ih tm (fun c h => solid c (List.mem_cons_of_mem _ h))
        fun conversion h => readable conversion (List.mem_cons_of_mem _ h)
      rw [printTime, List.flatMap_cons, ← printTime, readTime, List.foldl_cons]
      cases directive with
      | literal c =>
          have found := solid c List.mem_cons_self
          simpa [Directive.read, Directive.print, Directive.copy, found] using later tm
      | number conversion =>
          rw [Directive.read, Directive.print,
            Conversion.read_print (readable conversion List.mem_cons_self)]
          exact later _
