import Mux.Library.TimeFormat
import Mux.Programs.Day

/-!
# Days as texts

The constructor of `Day` from a text reads the fields into a `tm` whose daylight flag is
zero, so that the text is always taken for standard time. `format` prints the local time
with the clocks as they stand at that instant.
-/

namespace Mux.Programs

open Text

namespace time_format

def kIsO8601 : Str := "%Y-%m-%dT%H:%M:%S".toList

end time_format

inductive DayError where
  | invalid_argument (what : Str)
  deriving DecidableEq, Repr

namespace Day

/-- The constructor from a text. It has no defined behaviour where the clock cannot count the
time. -/
def ofString (c : Clock) (z : Zone) (dateString format : Str) :
    Option (Except DayError (Day c)) :=
  match get_time format dateString ⟨0, 0, 0, 0, 0, 0, 0⟩ with
  | some tm => (ofTm c z tm).map .ok
  | none => some (.error (.invalid_argument "Invalid date string or format".toList))

/-- The buffer has 100 characters. What is in it when the text and its end do not fit, is not
specified. -/
def format {c : Clock} (z : Zone) (d : Day c) (formatString : Str) : Option Str :=
  (strftime formatString (d.local_ z)).filter (·.length < 100)

end Day

/-! ## Local times and their texts -/

/-- The numbers of a text of the form `YYYY-MM-DDTHH:MM:SS`, from the year 1900 on. -/
structure DateTime where
  year : ℕ
  month : ℕ
  day : ℕ
  hour : ℕ
  minute : ℕ
  second : ℕ
  year_lower : 1900 ≤ year
  year_upper : year < 10000
  month_upper : month < 100
  day_upper : day < 100
  hour_upper : hour < 100
  minute_upper : minute < 100
  second_upper : second < 100

namespace DateTime

def text (t : DateTime) : Str :=
  digits 4 t.year ++ '-' :: (digits 2 t.month ++ '-' :: (digits 2 t.day ++ 'T' ::
    (digits 2 t.hour ++ ':' :: (digits 2 t.minute ++ ':' :: digits 2 t.second))))

/-- The local time that the numbers stand for. -/
def tm (t : DateTime) (isdst : ℤ) : Tm where
  tm_sec := t.second
  tm_min := t.minute
  tm_hour := t.hour
  tm_mday := t.day
  tm_mon := t.month - 1
  tm_year := t.year - 1900
  tm_isdst := isdst

/-- An instant at which the clocks of a zone show the date and the time. -/
def Names (t : DateTime) (z : Zone) (time : ℤ) : Prop := ∃ isdst, z.localtime time = t.tm isdst

/-- Behind the year. -/
def monthOn : List Directive :=
  [.literal '-', .number .m, .literal '-', .number .d, .literal 'T', .number .H, .literal ':',
    .number .M, .literal ':', .number .S]

theorem directives_kIsO8601 : directives time_format.kIsO8601 = some (.number .Y :: monthOn) := by
  decide

section Printed

variable {t : DateTime} {z : Zone} {time other isdst : ℤ}

theorem decimal_year (t : DateTime) : decimal t.year = digits 4 t.year := by
  have lower := t.year_lower
  have upper := t.year_upper
  exact decimal_eq_digits 3 (by omega) (by omega)

/-- The text of the numbers is the one that is printed for their time. -/
theorem printTime_tm (t : DateTime) (isdst : ℤ) :
    printTime (.number .Y :: monthOn) (t.tm isdst) = t.text := by
  have year : decimalInt (t.year - 1900 + 1900) = digits 4 t.year := by
    rw [Int.sub_add_cancel]
    exact t.decimal_year
  have month : (t.month - 1 + 1 : ℤ).toNat = t.month := by omega
  simp only [printTime, monthOn, List.flatMap_cons, List.flatMap_nil, Directive.print,
    Conversion.print, Conversion.value, Conversion.width, tm, year, month, Int.toNat_natCast]
  simp [text]

theorem Names.readable (names : t.Names z time) (isdst : ℤ) (conversion : Conversion) :
    conversion.Readable (t.tm isdst) := by
  obtain ⟨_, shows⟩ := names
  have range (notYear : conversion ≠ .Y) := Conversion.readable_ofSeconds notYear
    (time + z.offsetAt time) (if z.isDst time then 1 else 0)
  rw [← Zone.localtime, shows] at range
  cases conversion with
  | Y =>
      have lower := t.year_lower
      have upper := t.year_upper
      simp only [Conversion.Readable, Conversion.value, Conversion.lowest, Conversion.highest, tm]
      omega
  | m | d | H | M | S => exact range (by simp)

theorem solid_monthOn (c : Char) (member : .literal c ∈ monthOn) : isSpace c = false := by
  simp only [monthOn, List.mem_cons, List.not_mem_nil, Directive.literal.injEq, reduceCtorEq,
    or_false, false_or] at member
  obtain rfl | rfl | rfl | rfl | rfl := member <;> rfl

theorem foldl_copy_monthOn (tm tm' : Tm) : monthOn.foldl (Directive.copy tm') tm =
    { tm' with tm_year := tm.tm_year, tm_isdst := tm.tm_isdst } := by
  simp [monthOn, Directive.copy, Conversion.store, Conversion.value]

/-- A time that is shown somewhere is read back from its text. -/
theorem Names.reads (names : t.Names z time) :
    get_time time_format.kIsO8601 t.text ⟨0, 0, 0, 0, 0, 0, 0⟩ = some (t.tm 0) := by
  have front : t.text.dropWhile isSpace = t.text := dropWhile_digits (by decide) _
  have nonempty : t.text ≠ [] := by simp [text]
  have solid (c : Char) (member : .literal c ∈ .number .Y :: monthOn) : isSpace c = false :=
    solid_monthOn c (by simpa using member)
  have reads := readTime_printTime ⟨0, 0, 0, 0, 0, 0, 0⟩ (t.tm 0) solid
    fun conversion _ => names.readable 0 conversion
  rw [printTime_tm, List.foldl_cons, foldl_copy_monthOn] at reads
  rw [get_time, front, if_neg nonempty, directives_kIsO8601, Option.bind_some, reads]
  simp [Directive.copy, Conversion.store, Conversion.value, tm]

/-- The text is printed only for the times that its numbers name. -/
theorem printTime_eq_iff (names : t.Names z time) :
    printTime (.number .Y :: monthOn) (z.localtime other) = t.text ↔ t.Names z other := by
  constructor
  · intro same
    rw [← printTime_tm t 0] at same
    have year : Conversion.Y.print (t.tm 0) = decimal t.year :=
      congrArg decimalInt (Int.sub_add_cancel _ _)
    change Conversion.Y.print (z.localtime other) ++ '-' :: printTime monthOn.tail _ =
      Conversion.Y.print (t.tm 0) ++ '-' :: printTime monthOn.tail _ at same
    rw [year] at same
    obtain ⟨years, rest⟩ := decimalInt_append_cons (by decide) same
    -- The fields behind the year are the ones that are read back from the same text.
    have shown := readTime_printTime (t.tm 0) (z.localtime other) solid_monthOn
      fun conversion member => Conversion.readable_ofSeconds
        (by rintro rfl; simp [monthOn] at member) _ _
    have expected := readTime_printTime (t.tm 0) (t.tm 0) solid_monthOn
      fun conversion _ => names.readable 0 conversion
    have text : printTime monthOn (z.localtime other) = printTime monthOn (t.tm 0) :=
      congrArg (List.cons '-') rest
    rw [text, expected, Option.some.injEq, foldl_copy_monthOn, foldl_copy_monthOn] at shown
    obtain ⟨sec, min, hour, mday, mon, -, -⟩ := Tm.mk.inj shown
    have year : (z.localtime other).tm_year = t.year - 1900 := eq_sub_of_add_eq years
    refine ⟨(z.localtime other).tm_isdst, ?_⟩
    exact Tm.ext sec.symm min.symm hour.symm mday.symm mon.symm year rfl
  · rintro ⟨isdst, shows⟩
    rw [shows, printTime_tm]

theorem Names.seconds (names : t.Names z time) : time + z.offsetAt time = (t.tm 0).seconds := by
  obtain ⟨isdst, shows⟩ := names
  have seconds := congrArg Tm.seconds shows
  rw [Zone.localtime, Tm.seconds_ofSeconds] at seconds
  exact seconds

theorem length_text (t : DateTime) : t.text.length = 19 := by
  simp [text]

end Printed

end DateTime

/-! ## The round trip -/

/-- The text that the day of a text prints is the text itself. -/
def RoundTrips (c : Clock) (z : Zone) (s : Str) : Prop :=
  ∃ d : Day c, Day.ofString c z s time_format.kIsO8601 = some (.ok d) ∧
    d.format z time_format.kIsO8601 = some s

section RoundTrip

variable {c : Clock} {d : Day c} {t : DateTime} {z : Zone} {time : ℤ}

/-- The day of a text is the instant at which standard time shows it. -/
theorem ofString_text (names : t.Names z time) :
    Day.ofString c z t.text time_format.kIsO8601 = some (.ok d) ↔
      d.At ((t.tm 0).seconds - z.offset) := by
  rw [Day.ofString, names.reads]
  dsimp only
  rw [Option.map_eq_some_iff]
  simp only [Except.ok.injEq, exists_eq_right]
  exact Day.ofTm_eq_some_iff

theorem format_eq_some_iff :
    d.format z time_format.kIsO8601 = some t.text ↔
      printTime (.number .Y :: DateTime.monthOn) (d.local_ z) = t.text := by
  rw [Day.format, strftime, DateTime.directives_kIsO8601, Option.map_some,
    Option.filter_eq_some_iff, Option.some.injEq]
  exact and_iff_left (by rw [t.length_text]; decide)

/-- The text is printed again exactly when that instant shows it and the clock counts it. -/
theorem roundTrips_iff_named (names : t.Names z time) :
    RoundTrips c z t.text ↔ t.Names z ((t.tm 0).seconds - z.offset) ∧
      c.Counts (c.ticks ((t.tm 0).seconds - z.offset)) := by
  simp only [RoundTrips, ofString_text names, format_eq_some_iff]
  constructor
  · rintro ⟨d, at_, printed⟩
    rw [at_.local_] at printed
    exact ⟨(DateTime.printTime_eq_iff names).mp printed, at_.counted⟩
  · rintro ⟨shown, counted⟩
    obtain ⟨d, at_⟩ := Day.exists_at counted
    refine ⟨d, at_, ?_⟩
    rw [at_.local_]
    exact (DateTime.printTime_eq_iff names).mpr shown

/-- A text that names a local time is printed again exactly when this is a standard time and the
clock counts it. -/
theorem roundTrips_iff_standard (c : Clock) (z : Zone) (t : DateTime)
    (named : ∃ time, t.Names z time) :
    RoundTrips c z t.text ↔
      ∃ time, t.Names z time ∧ z.offsetAt time = z.offset ∧ c.Counts (c.ticks time) := by
  obtain ⟨time, names⟩ := named
  rw [roundTrips_iff_named names]
  constructor
  · rintro ⟨shown, counted⟩
    have seconds := shown.seconds
    exact ⟨_, shown, by omega, counted⟩
  · rintro ⟨standard, shown, offset, counted⟩
    have seconds := shown.seconds
    rw [show (t.tm 0).seconds - z.offset = standard by omega]
    exact ⟨shown, counted⟩

end RoundTrip

/-- Central European time, with the clocks put forward from April to October. -/
def centralEurope : Zone where
  offset := 3600
  saving := 3600
  isDst time := 3 ≤ Calendar.monthOf ((time + 3600) / 86400) % 12 ∧
    Calendar.monthOf ((time + 3600) / 86400) % 12 ≤ 9

/-- `2021-01-10T12:00:00` -/
def january : DateTime :=
  ⟨2021, 1, 10, 12, 0, 0, by decide, by decide, by decide, by decide, by decide, by decide,
    by decide⟩

theorem january_roundTrips_iff : RoundTrips .nanoseconds centralEurope january.text ↔
    ∃ time, january.Names centralEurope time ∧ centralEurope.offsetAt time = 3600 ∧
      Clock.nanoseconds.Counts (Clock.nanoseconds.ticks time) :=
  roundTrips_iff_standard .nanoseconds centralEurope january ⟨1610276400, 0, by decide⟩

/-- `2021-10-10T12:00:00` -/
def october : DateTime :=
  ⟨2021, 10, 10, 12, 0, 0, by decide, by decide, by decide, by decide, by decide, by decide,
    by decide⟩

/-- Its day prints one o'clock. -/
theorem october_not_roundTrips : (∃! time, october.Names centralEurope time) ∧
    ¬ RoundTrips .microseconds centralEurope october.text := by
  have names : october.Names centralEurope 1633860000 := ⟨1, by decide⟩
  have noon : (october.tm 0).seconds = 1633867200 := by decide
  have only (time : ℤ) (shows : october.Names centralEurope time) : time = 1633860000 := by
    have seconds := shows.seconds
    rw [noon, Zone.offsetAt] at seconds
    change time + (3600 + if centralEurope.isDst time then 3600 else 0) = _ at seconds
    cases summer : centralEurope.isDst time with
    | true =>
        rw [summer, if_pos rfl] at seconds
        omega
    | false =>
        -- Standard time shows noon an hour later, when the clocks are put forward as well.
        rw [summer, if_neg (by decide)] at seconds
        rw [show time = 1633863600 by omega] at summer
        exact absurd summer (by decide)
  refine ⟨⟨_, names, only⟩, fun again => ?_⟩
  have shown := only _ ((roundTrips_iff_named names).mp again).1
  rw [noon] at shown
  exact absurd shown (by decide)

end Mux.Programs
