import Mathlib.Tactic.IntervalCases
import Mux.Library.BrokenDownTime

/-!
# The days of the date program

`Day` wraps a time point of the system clock, a count of ticks that has a range. Converting
seconds to ticks has no defined behaviour where the count overflows. `startOf` and `endOf`
convert the time point to local fields, set the fields below a unit in a switch that falls
through, and convert back. The last day of a month is set to 31 for every month, and the last
second to 59 for every unit.
-/

namespace Mux.Programs

open Calendar

inductive TimeUnits where
  | kYY
  | kMO
  | kDD
  | kHH
  | kMM
  | kSS
  | kMS
  | kNS
  deriving DecidableEq, Repr

/-- `std::chrono::system_clock`: its ticks in a second, and the range of its count. -/
structure Clock where
  ticksPerSecond : ℤ
  positive : 0 < ticksPerSecond
  lowest : ℤ
  highest : ℤ

namespace Clock

/-- A clock with a count of 64 bits. -/
def signed64 (ticksPerSecond : ℤ) (positive : 0 < ticksPerSecond) : Clock where
  ticksPerSecond := ticksPerSecond
  positive := positive
  lowest := -2 ^ 63
  highest := 2 ^ 63 - 1

/-- The clock of libc++. -/
def microseconds : Clock := signed64 1000000 (by decide)

/-- The clock of libstdc++. -/
def nanoseconds : Clock := signed64 1000000000 (by decide)

variable (c : Clock)

/-- The ticks of a whole second, counted or not. -/
def ticks (time : ℤ) : ℤ := time * c.ticksPerSecond

/-- The count lies in the range of the clock. -/
def Counts (count : ℤ) : Prop := c.lowest ≤ count ∧ count ≤ c.highest

instance (count : ℤ) : Decidable (c.Counts count) := inferInstanceAs (Decidable (_ ∧ _))

/-- `std::chrono::system_clock::time_point` -/
structure TimePoint where
  count : ℤ
  counted : c.Counts count

end Clock

variable {c : Clock}

@[ext] theorem Clock.TimePoint.ext {p p' : c.TimePoint} (same : p.count = p'.count) : p = p' := by
  cases p
  cases p'
  cases same
  rfl

/-- Part of a second is cut off. -/
def to_time_t (timePoint : c.TimePoint) : ℤ := timePoint.count.tdiv c.ticksPerSecond

/-- Where the count overflows, the behaviour is not defined. -/
def from_time_t (c : Clock) (time : ℤ) : Option c.TimePoint :=
  if counted : c.Counts (c.ticks time) then some ⟨c.ticks time, counted⟩ else none

structure Day (c : Clock) where
  timePoint_ : c.TimePoint

/-- The switch: a label sets its field and falls through to the labels below it. -/
def setFields (mon mday hour min sec : ℤ) (tm : Tm) : TimeUnits → Tm
  | .kYY =>
      { tm with tm_mon := mon, tm_mday := mday, tm_hour := hour, tm_min := min, tm_sec := sec }
  | .kMO => { tm with tm_mday := mday, tm_hour := hour, tm_min := min, tm_sec := sec }
  | .kDD => { tm with tm_hour := hour, tm_min := min, tm_sec := sec }
  | .kHH => { tm with tm_min := min, tm_sec := sec }
  | .kMM => { tm with tm_sec := sec }
  | .kSS => { tm with tm_sec := sec }
  | .kMS => tm
  | .kNS => tm

namespace Day

/-- The constructor from broken-down time. -/
def ofTm (c : Clock) (z : Zone) (timeStruct : Tm) : Option (Day c) :=
  (from_time_t c (z.mktime timeStruct)).map Day.mk

/-- The fields of the local time. -/
def local_ (z : Zone) (d : Day c) : Tm := z.localtime (to_time_t d.timePoint_)

def startOf (z : Zone) (d : Day c) (unit : TimeUnits) : Option (Day c) :=
  ofTm c z (setFields 0 1 0 0 0 (d.local_ z) unit)

def endOf (z : Zone) (d : Day c) (unit : TimeUnits) : Option (Day c) :=
  ofTm c z (setFields 11 31 23 59 59 (d.local_ z) unit)

/-- The day is this whole second. -/
def At (d : Day c) (time : ℤ) : Prop := d.timePoint_.count = c.ticks time

def WholeSecond (d : Day c) : Prop := ∃ time, d.At time

end Day

theorem Clock.ticks_strictMono (c : Clock) : StrictMono c.ticks := fun _ _ less =>
  Int.mul_lt_mul_of_pos_right less c.positive

namespace Day

variable {d e : Day c} {z : Zone} {time other : ℤ}

theorem At.to_time_t (at_ : d.At time) : to_time_t d.timePoint_ = time := by
  rw [Programs.to_time_t, at_]
  exact Int.mul_tdiv_cancel time c.positive.ne'

theorem At.local_ (at_ : d.At time) : d.local_ z = z.localtime time := by
  rw [Day.local_, at_.to_time_t]

theorem At.unique (at_ : d.At time) (at_' : e.At time) : d = e := by
  obtain ⟨p⟩ := d
  obtain ⟨p'⟩ := e
  exact congrArg Day.mk (Clock.TimePoint.ext (at_.trans at_'.symm))

theorem At.counted (at_ : d.At time) : c.Counts (c.ticks time) := by
  rw [← at_]
  exact d.timePoint_.counted

/-- A day is made of the fields exactly if the clock counts the second that they stand for. -/
theorem ofTm_eq_some_iff {timeStruct : Tm} :
    ofTm c z timeStruct = some d ↔ d.At (z.mktime timeStruct) := by
  rw [ofTm, from_time_t]
  constructor
  · intro made
    split at made
    · obtain rfl := Option.some.inj made
      rfl
    · cases made
  · intro at_
    rw [dif_pos at_.counted]
    exact congrArg some (At.unique rfl at_)

/-- There is a day for every second that the clock counts. -/
theorem exists_at (counted : c.Counts (c.ticks time)) : ∃ d : Day c, d.At time :=
  ⟨⟨⟨c.ticks time, counted⟩⟩, rfl⟩

end Day

/-! ## The calendar units of a local time -/

def SameYear (tm tm' : Tm) : Prop := tm.tm_year = tm'.tm_year
def SameMonth (tm tm' : Tm) : Prop := SameYear tm tm' ∧ tm.tm_mon = tm'.tm_mon
def SameDay (tm tm' : Tm) : Prop := SameMonth tm tm' ∧ tm.tm_mday = tm'.tm_mday
def SameHour (tm tm' : Tm) : Prop := SameDay tm tm' ∧ tm.tm_hour = tm'.tm_hour
def SameMinute (tm tm' : Tm) : Prop := SameHour tm tm' ∧ tm.tm_min = tm'.tm_min
def SameSecond (tm tm' : Tm) : Prop := SameMinute tm tm' ∧ tm.tm_sec = tm'.tm_sec

/-- Two local times lie in the same unit. -/
def SameUnit (tm tm' : Tm) : TimeUnits → Prop
  | .kYY => SameYear tm tm'
  | .kMO => SameMonth tm tm'
  | .kDD => SameDay tm tm'
  | .kHH => SameHour tm tm'
  | .kMM => SameMinute tm tm'
  | .kSS => SameSecond tm tm'
  | .kMS => SameSecond tm tm'
  | .kNS => SameSecond tm tm'

def FirstOfMinute (tm : Tm) : Prop := tm.tm_sec = 0
def FirstOfHour (tm : Tm) : Prop := tm.tm_min = 0 ∧ FirstOfMinute tm
def FirstOfDay (tm : Tm) : Prop := tm.tm_hour = 0 ∧ FirstOfHour tm
def FirstOfMonth (tm : Tm) : Prop := tm.tm_mday = 1 ∧ FirstOfDay tm
def FirstOfYear (tm : Tm) : Prop := tm.tm_mon = 0 ∧ FirstOfMonth tm

/-- A local time is the first one of a unit. -/
def FirstOfUnit (tm : Tm) : TimeUnits → Prop
  | .kYY => FirstOfYear tm
  | .kMO => FirstOfMonth tm
  | .kDD => FirstOfDay tm
  | .kHH => FirstOfHour tm
  | .kMM => FirstOfMinute tm
  | .kSS => True
  | .kMS => True
  | .kNS => True

/-- The units as periods of local time. -/
def TimeUnits.periods : TimeUnits → Periods
  | .kYY => LocalTime.years
  | .kMO => LocalTime.months
  | .kDD => LocalTime.days
  | .kHH => LocalTime.hours
  | .kMM => LocalTime.minutes
  | .kSS => .uniform 1 (by decide)
  | .kMS => .uniform 1 (by decide)
  | .kNS => .uniform 1 (by decide)

section Units

variable {l l' isdst : ℤ}

theorem sameMonth_iff : SameMonth (.ofSeconds l isdst) (.ofSeconds l' isdst) ↔
    monthOf (l / 60 / 60 / 24) = monthOf (l' / 60 / 60 / 24) := by
  simp only [SameMonth, SameYear, Tm.ofSeconds]
  omega

theorem sameDay_iff : SameDay (.ofSeconds l isdst) (.ofSeconds l' isdst) ↔
    l / 60 / 60 / 24 = l' / 60 / 60 / 24 := by
  rw [SameDay, sameMonth_iff]
  constructor
  · rintro ⟨month, day⟩
    simp only [Tm.ofSeconds] at day
    rw [month] at day
    omega
  · intro same
    simp only [Tm.ofSeconds, same, and_self]

theorem sameHour_iff : SameHour (.ofSeconds l isdst) (.ofSeconds l' isdst) ↔
    l / 60 / 60 = l' / 60 / 60 := by
  rw [SameHour, sameDay_iff]
  simp only [Tm.ofSeconds]
  omega

theorem sameMinute_iff : SameMinute (.ofSeconds l isdst) (.ofSeconds l' isdst) ↔
    l / 60 = l' / 60 := by
  rw [SameMinute, sameHour_iff]
  simp only [Tm.ofSeconds]
  omega

theorem sameSecond_iff : SameSecond (.ofSeconds l isdst) (.ofSeconds l' isdst) ↔ l = l' := by
  rw [SameSecond, sameMinute_iff]
  simp only [Tm.ofSeconds]
  omega

/-- The fields agree down to a unit exactly when the local times lie in one of its periods. -/
theorem sameUnit_iff (unit : TimeUnits) :
    SameUnit (.ofSeconds l isdst) (.ofSeconds l' isdst) unit ↔
      unit.periods.index l = unit.periods.index l' := by
  have second (t : ℤ) : (Periods.uniform 1 (by decide)).index t = t := Int.ediv_one t
  cases unit with
  | kYY =>
      simp only [SameUnit, SameYear, Tm.ofSeconds]
      change _ ↔ monthOf (l / 60 / 60 / 24) / 12 = monthOf (l' / 60 / 60 / 24) / 12
      omega
  | kMO => exact sameMonth_iff
  | kDD => exact sameDay_iff
  | kHH => exact sameHour_iff
  | kMM => exact sameMinute_iff
  | kSS => rw [TimeUnits.periods, second, second]; exact sameSecond_iff
  | kMS => rw [TimeUnits.periods, second, second]; exact sameSecond_iff
  | kNS => rw [TimeUnits.periods, second, second]; exact sameSecond_iff

/-- The fields below a unit are the first ones exactly where one of its periods begins. -/
theorem firstOfUnit_iff (unit : TimeUnits) :
    FirstOfUnit (.ofSeconds l isdst) unit ↔ unit.periods.floor l = l := by
  have second (t : ℤ) : (Periods.uniform 1 (by decide)).floor t = t := by
    change 1 * (t / 1) = t
    omega
  cases unit with
  | kYY =>
      change _ ↔ 60 * (60 * (24 * monthStart (12 * (monthOf (l / 60 / 60 / 24) / 12)))) = l
      simp only [FirstOfUnit, FirstOfYear, FirstOfMonth, FirstOfDay, FirstOfHour, FirstOfMinute,
        Tm.ofSeconds]
      constructor
      · rintro ⟨month, day, hour, minute, second⟩
        have january : 12 * (monthOf (l / 60 / 60 / 24) / 12) = monthOf (l / 60 / 60 / 24) := by
          omega
        rw [january]
        omega
      · intro begins
        have day : l / 60 / 60 / 24 = monthStart (12 * (monthOf (l / 60 / 60 / 24) / 12)) := by
          omega
        have january : monthOf (l / 60 / 60 / 24) = 12 * (monthOf (l / 60 / 60 / 24) / 12) := by
          conv_lhs => rw [day]
          exact months.index_start _
        rw [← january] at day
        omega
  | kMO =>
      change _ ↔ 60 * (60 * (24 * monthStart (monthOf (l / 60 / 60 / 24)))) = l
      simp only [FirstOfUnit, FirstOfMonth, FirstOfDay, FirstOfHour, FirstOfMinute, Tm.ofSeconds]
      omega
  | kDD =>
      change _ ↔ 60 * (60 * (24 * (l / 60 / 60 / 24))) = l
      simp only [FirstOfUnit, FirstOfDay, FirstOfHour, FirstOfMinute, Tm.ofSeconds]
      omega
  | kHH =>
      change _ ↔ 60 * (60 * (l / 60 / 60)) = l
      simp only [FirstOfUnit, FirstOfHour, FirstOfMinute, Tm.ofSeconds]
      omega
  | kMM =>
      change _ ↔ 60 * (l / 60) = l
      simp only [FirstOfUnit, FirstOfMinute, Tm.ofSeconds]
      omega
  | kSS => exact iff_of_true trivial (second l)
  | kMS => exact iff_of_true trivial (second l)
  | kNS => exact iff_of_true trivial (second l)

/-- The years, months, days, hours and minutes. -/
def calendarUnits : List TimeUnits := [.kYY, .kMO, .kDD, .kHH, .kMM]

/-- Clearing the fields below a unit leads to the beginning of its period. -/
theorem seconds_startFields {unit : TimeUnits} (calendar : unit ∈ calendarUnits) :
    (setFields 0 1 0 0 0 (.ofSeconds l isdst) unit).seconds = unit.periods.floor l := by
  have month (m : ℤ) : 12 * (m / 12 - 1900 + 1900) + m % 12 = m := by omega
  have year (m : ℤ) : 12 * (m / 12 - 1900 + 1900) + 0 = 12 * (m / 12) := by omega
  cases unit with
  | kYY =>
      change _ = 60 * (60 * (24 * monthStart (12 * (monthOf (l / 60 / 60 / 24) / 12))))
      simp only [setFields, Tm.seconds, Tm.ofSeconds, year]
      omega
  | kMO =>
      change _ = 60 * (60 * (24 * monthStart (monthOf (l / 60 / 60 / 24))))
      simp only [setFields, Tm.seconds, Tm.ofSeconds, month]
      omega
  | kDD =>
      change _ = 60 * (60 * (24 * (l / 60 / 60 / 24)))
      simp only [setFields, Tm.seconds, Tm.ofSeconds, month]
      omega
  | kHH =>
      change _ = 60 * (60 * (l / 60 / 60))
      simp only [setFields, Tm.seconds, Tm.ofSeconds, month]
      omega
  | kMM =>
      change _ = 60 * (l / 60)
      simp only [setFields, Tm.seconds, Tm.ofSeconds, month]
      omega
  | kSS => simp [calendarUnits] at calendar
  | kMS => simp [calendarUnits] at calendar
  | kNS => simp [calendarUnits] at calendar

end Units

/-! ## The start of a unit -/

section Start

variable {offset time other : ℤ} {unit : TimeUnits} {d e start : Day c}

/-- An instant, in ticks, at which a unit of the local time begins. -/
def BeginsUnit (c : Clock) (z : Zone) (unit : TimeUnits) (instant : ℤ) : Prop :=
  ∃ time, instant = c.ticks time ∧ FirstOfUnit (z.localtime time) unit

/-- No second of the unit of the day lies in front of the range of the clock. -/
def StartsInRange (z : Zone) (unit : TimeUnits) (d : Day c) : Prop :=
  ∀ time, SameUnit (d.local_ z) (z.localtime time) unit → c.lowest ≤ c.ticks time

/-- `start` is the latest beginning of a unit that is not behind the day; it lies in the same
unit and is its own start. -/
structure StartsUnit (z : Zone) (unit : TimeUnits) (d start : Day c) : Prop where
  latest : IsGreatest {p | p ≤ d.timePoint_.count ∧ BeginsUnit c z unit p} start.timePoint_.count
  within : SameUnit (d.local_ z) (start.local_ z) unit
  idempotent : start.startOf z unit = some start

theorem Day.At.local_fixed (at_ : d.At time) (offset : ℤ) :
    d.local_ (.fixed offset) = .ofSeconds (time + offset) 0 := by
  rw [at_.local_, Zone.localtime_fixed]

/-- The switch leaves the daylight flag alone. -/
theorem setFields_isdst (mon mday hour min sec : ℤ) (tm : Tm) (unit : TimeUnits) :
    (setFields mon mday hour min sec tm unit).tm_isdst = tm.tm_isdst := by
  cases unit <;> rfl

/-- The day that is made of the fields of another one after the switch has set some of them. -/
theorem ofTm_setFields_fixed (mon mday hour min sec : ℤ) (at_ : d.At time) :
    Day.ofTm c (.fixed offset) (setFields mon mday hour min sec (d.local_ (.fixed offset)) unit) =
        some e ↔
      e.At ((setFields mon mday hour min sec (.ofSeconds (time + offset) 0) unit).seconds -
        offset) := by
  rw [at_.local_fixed, Day.ofTm_eq_some_iff, Zone.mktime_standard _ (setFields_isdst ..)]
  rfl

theorem startOf_fixed (calendar : unit ∈ calendarUnits) (at_ : d.At time) :
    d.startOf (.fixed offset) unit = some start ↔
      start.At (unit.periods.floor (time + offset) - offset) := by
  rw [← seconds_startFields calendar]
  exact ofTm_setFields_fixed 0 1 0 0 0 at_

theorem beginsUnit_fixed {instant : ℤ} : BeginsUnit c (.fixed offset) unit instant ↔
    ∃ time, instant = c.ticks time ∧ unit.periods.floor (time + offset) = time + offset := by
  simp only [BeginsUnit, Zone.localtime_fixed, firstOfUnit_iff]

theorem startsUnit_fixed (calendar : unit ∈ calendarUnits) (at_ : d.At time)
    (start_ : start.At (unit.periods.floor (time + offset) - offset)) :
    StartsUnit (.fixed offset) unit d start := by
  have greatest := unit.periods.floor_isGreatest (time + offset)
  refine ⟨?_, ?_, ?_⟩
  · rw [at_, start_]
    refine ⟨⟨c.ticks_strictMono.monotone ?_, beginsUnit_fixed.mpr ⟨_, rfl, ?_⟩⟩, ?_⟩
    · have before := unit.periods.floor_le (time + offset)
      omega
    · rw [Int.sub_add_cancel, Periods.floor_floor]
    · rintro p ⟨before, begins⟩
      obtain ⟨earlier, rfl, first⟩ := beginsUnit_fixed.mp begins
      have le := c.ticks_strictMono.le_iff_le.mp before
      have bound := greatest.2 ⟨Int.add_le_add_right le offset, first⟩
      exact c.ticks_strictMono.monotone (by omega)
  · rw [at_.local_fixed, start_.local_fixed, sameUnit_iff, Int.sub_add_cancel,
      Periods.index_floor]
  · rwa [startOf_fixed calendar start_, Int.sub_add_cancel, Periods.floor_floor]

/-- The start of the unit is counted if it lies behind a counted instant. -/
theorem exists_start (at_ : d.At time)
    (lower : c.lowest ≤ c.ticks (unit.periods.floor (time + offset) - offset)) :
    ∃ start : Day c, start.At (unit.periods.floor (time + offset) - offset) := by
  have before := unit.periods.floor_le (time + offset)
  have upper : c.ticks (unit.periods.floor (time + offset) - offset) ≤ c.ticks time :=
    c.ticks_strictMono.monotone (by omega)
  exact Day.exists_at ⟨lower, upper.trans at_.counted.2⟩

/-- No second of the unit lies in front of the range exactly if the first one does not. -/
theorem startsInRange_fixed (at_ : d.At time) : StartsInRange (.fixed offset) unit d ↔
    c.lowest ≤ c.ticks (unit.periods.floor (time + offset) - offset) := by
  simp only [StartsInRange, at_.local_fixed, Zone.localtime_fixed, sameUnit_iff]
  constructor
  · intro inRange
    refine inRange _ ?_
    rw [Int.sub_add_cancel, Periods.index_floor]
  · intro lower other same
    have before := unit.periods.floor_le (other + offset)
    rw [Periods.floor, ← same, ← Periods.floor] at before
    exact lower.trans (c.ticks_strictMono.monotone (by omega))

/-- In a zone with a fixed offset, the start of a whole second's year, month, day, hour or minute
is the start of this unit if the clock can count it, and then it is monotone. -/
theorem startOf_startsUnit (offset : ℤ) (unit : TimeUnits) (calendar : unit ∈ calendarUnits)
    (d : Day c) (whole : d.WholeSecond) (inRange : StartsInRange (.fixed offset) unit d) :
    ∃ start, d.startOf (.fixed offset) unit = some start ∧
      StartsUnit (.fixed offset) unit d start ∧
      ∀ later : Day c, later.WholeSecond → d.timePoint_.count ≤ later.timePoint_.count →
        ∃ start', later.startOf (.fixed offset) unit = some start' ∧
          start.timePoint_.count ≤ start'.timePoint_.count := by
  obtain ⟨time, at_⟩ := whole
  have lower := (startsInRange_fixed at_).mp inRange
  obtain ⟨start, start_⟩ := exists_start at_ lower
  refine ⟨start, (startOf_fixed calendar at_).mpr start_, startsUnit_fixed calendar at_ start_, ?_⟩
  rintro later ⟨time', at_'⟩ le
  rw [at_, at_', c.ticks_strictMono.le_iff_le] at le
  have floors := unit.periods.floor_mono (Int.add_le_add_right le offset)
  have starts : c.ticks (unit.periods.floor (time + offset) - offset) ≤
      c.ticks (unit.periods.floor (time' + offset) - offset) :=
    c.ticks_strictMono.monotone (by omega)
  obtain ⟨start', start_'⟩ := exists_start at_' (lower.trans starts)
  refine ⟨start', (startOf_fixed calendar at_').mpr start_', ?_⟩
  rwa [start_, start_']

end Start

/-- The first second of 1970, on a clock of nanoseconds. -/
def epoch : Day .nanoseconds := ⟨⟨0, by decide⟩⟩

/-- In Berlin without daylight saving, the month of this second. -/
theorem berlin_startsUnit : ∃ start, epoch.startOf (.fixed 3600) .kMO = some start ∧
    StartsUnit (.fixed 3600) .kMO epoch start ∧
    ∀ later : Day .nanoseconds, later.WholeSecond →
      epoch.timePoint_.count ≤ later.timePoint_.count →
        ∃ start', later.startOf (.fixed 3600) .kMO = some start' ∧
          start.timePoint_.count ≤ start'.timePoint_.count := by
  have at_ : epoch.At 0 := rfl
  exact startOf_startsUnit 3600 .kMO (by decide) epoch ⟨0, at_⟩
    ((startsInRange_fixed at_).mpr (by decide))

/-! ## The end of a unit -/

section End

variable {offset time l isdst : ℤ} {unit : TimeUnits} {d final : Day c} {z : Zone}

/-- The units down to the second. -/
def secondUnits : List TimeUnits := [.kYY, .kMO, .kDD, .kHH, .kMM, .kSS]

/-- The months with thirty-one days. -/
def longMonths : List ℤ := [0, 2, 4, 6, 7, 9, 11]

/-- `final` is the last whole second of the unit, and behind it the next one begins. -/
structure EndsUnit (z : Zone) (unit : TimeUnits) (d final : Day c) : Prop where
  last : IsGreatest {p | ∃ time, p = c.ticks time ∧
    SameUnit (d.local_ z) (z.localtime time) unit} final.timePoint_.count
  after : d.timePoint_.count ≤ final.timePoint_.count
  within : SameUnit (d.local_ z) (final.local_ z) unit
  next : BeginsUnit c z unit (final.timePoint_.count + c.ticksPerSecond)

/-- No second of the unit of the day lies behind the range of the clock. -/
def EndsInRange (z : Zone) (unit : TimeUnits) (d : Day c) : Prop :=
  ∀ time, SameUnit (d.local_ z) (z.localtime time) unit → c.ticks time ≤ c.highest

/-- The month has thirty-one days; the second is the last of its minute. -/
def ReachesEnd (tm : Tm) : TimeUnits → Prop
  | .kMO => tm.tm_mon ∈ longMonths
  | .kSS => tm.tm_sec = 59
  | _ => True

theorem monthLength_eq_iff (month : ℤ) : monthLength month = 31 ↔ month % 12 ∈ longMonths := by
  obtain ⟨year, k, bound, rfl⟩ := exists_month month
  have remainder : (12 * year + (k : ℤ)) % 12 = k := by omega
  rw [monthLength_eq year bound, remainder, monthLengths, longMonths]
  interval_cases k <;> simp
  split <;> simp

/-- Setting the fields below a unit to their last values leads to the last second of its
period exactly when the month has as many days and the minute as many seconds. -/
theorem seconds_endFields (member : unit ∈ secondUnits) :
    (setFields 11 31 23 59 59 (.ofSeconds l isdst) unit).seconds = unit.periods.last l ↔
      ReachesEnd (.ofSeconds l isdst) unit := by
  have month (m : ℤ) : 12 * (m / 12 - 1900 + 1900) + m % 12 = m := by omega
  cases unit with
  | kYY =>
      change _ = 60 * (60 * (24 * monthStart (12 * (monthOf (l / 60 / 60 / 24) / 12 + 1)))) - 1 ↔ _
      refine iff_of_true ?_ trivial
      simp only [setFields, Tm.seconds, Tm.ofSeconds]
      generalize monthOf (l / 60 / 60 / 24) / 12 = year
      have december : monthLength (12 * year + 11) = 31 := by
        rw [monthLength_eq_iff, show (12 * year + 11) % 12 = 11 by omega]
        decide
      have length := monthStart_succ (12 * year + 11)
      rw [december] at length
      rw [show 12 * (year - 1900 + 1900) + 11 = 12 * year + 11 by omega,
        show 12 * (year + 1) = 12 * year + 11 + 1 by omega, length]
      omega
  | kMO =>
      change _ = 60 * (60 * (24 * monthStart (monthOf (l / 60 / 60 / 24) + 1))) - 1 ↔ _
      rw [ReachesEnd, Tm.ofSeconds, ← monthLength_eq_iff, monthStart_succ]
      simp only [setFields, Tm.seconds, month]
      omega
  | kDD =>
      change _ = 60 * (60 * (24 * (l / 60 / 60 / 24 + 1))) - 1 ↔ _
      refine iff_of_true ?_ trivial
      simp only [setFields, Tm.seconds, Tm.ofSeconds, month]
      omega
  | kHH =>
      change _ = 60 * (60 * (l / 60 / 60 + 1)) - 1 ↔ _
      refine iff_of_true ?_ trivial
      simp only [setFields, Tm.seconds, Tm.ofSeconds, month]
      omega
  | kMM =>
      change _ = 60 * (l / 60 + 1) - 1 ↔ _
      refine iff_of_true ?_ trivial
      simp only [setFields, Tm.seconds, Tm.ofSeconds, month]
      omega
  | kSS =>
      change _ = 1 * (l / 1 + 1) - 1 ↔ l % 60 = 59
      simp only [setFields, Tm.seconds, Tm.ofSeconds, month]
      omega
  | kMS => simp [secondUnits] at member
  | kNS => simp [secondUnits] at member

theorem endOf_fixed (at_ : d.At time) : d.endOf (.fixed offset) unit = some final ↔
    final.At ((setFields 11 31 23 59 59 (.ofSeconds (time + offset) 0) unit).seconds - offset) :=
  ofTm_setFields_fixed 11 31 23 59 59 at_

/-- The last whole second of a unit in a zone with a fixed offset. -/
theorem last_isGreatest_fixed (offset : ℤ) (unit : TimeUnits) (at_ : d.At time) :
    IsGreatest {p | ∃ other, p = c.ticks other ∧
        SameUnit (d.local_ (.fixed offset)) ((Zone.fixed offset).localtime other) unit}
      (c.ticks (unit.periods.last (time + offset) - offset)) := by
  have greatest := unit.periods.last_isGreatest (time + offset)
  simp only [at_.local_fixed, Zone.localtime_fixed, sameUnit_iff]
  refine ⟨⟨_, rfl, ?_⟩, ?_⟩
  · rw [Int.sub_add_cancel, Periods.index_last]
  · rintro p ⟨other, rfl, same⟩
    have bound := greatest.2 same.symm
    exact c.ticks_strictMono.monotone (by omega)

/-- No second of the unit lies behind the range exactly if the last one does not. -/
theorem endsInRange_fixed (at_ : d.At time) : EndsInRange (.fixed offset) unit d ↔
    c.ticks (unit.periods.last (time + offset) - offset) ≤ c.highest := by
  obtain ⟨⟨other, same, within⟩, greatest⟩ := last_isGreatest_fixed offset unit at_
  constructor
  · intro inRange
    rw [same]
    exact inRange other within
  · exact fun upper other within => (greatest ⟨other, rfl, within⟩).trans upper

theorem endsUnit_fixed (at_ : d.At time)
    (final_ : final.At (unit.periods.last (time + offset) - offset)) :
    EndsUnit (.fixed offset) unit d final := by
  have after := unit.periods.le_last (time + offset)
  refine ⟨?_, ?_, ?_, ?_⟩
  · rw [final_]
    exact last_isGreatest_fixed offset unit at_
  · rw [at_, final_]
    exact c.ticks_strictMono.monotone (by omega)
  · rw [at_.local_fixed, final_.local_fixed, sameUnit_iff, Int.sub_add_cancel,
      Periods.index_last]
  · rw [final_, beginsUnit_fixed]
    refine ⟨unit.periods.last (time + offset) - offset + 1, ?_, ?_⟩
    · rw [Clock.ticks, Clock.ticks, Int.add_mul, Int.one_mul]
    · have next := unit.periods.floor_last_succ (time + offset)
      rw [show unit.periods.last (time + offset) - offset + 1 + offset =
        unit.periods.last (time + offset) + 1 by omega, next]

/-- In a zone with a fixed offset, the end of a whole second's unit is the last second of this
unit exactly when the clock counts that second and, if the unit is a month, it has thirty-one
days, and if it is a second, it is the last of its minute. -/
theorem endsUnit_iff_reachesEnd (offset : ℤ) (unit : TimeUnits) (member : unit ∈ secondUnits)
    (d : Day c) (whole : d.WholeSecond) :
    (∃ final, d.endOf (.fixed offset) unit = some final ∧
        EndsUnit (.fixed offset) unit d final) ↔
      ReachesEnd (d.local_ (.fixed offset)) unit ∧ EndsInRange (.fixed offset) unit d := by
  obtain ⟨time, at_⟩ := whole
  rw [endsInRange_fixed at_, at_.local_fixed, ← seconds_endFields member]
  simp only [endOf_fixed at_]
  constructor
  · rintro ⟨final, final_, ended⟩
    have same := ended.last.unique (last_isGreatest_fixed offset unit at_)
    have upper := final.timePoint_.counted.2
    rw [same] at upper
    rw [final_] at same
    have seconds := c.ticks_strictMono.injective same
    exact ⟨by omega, upper⟩
  · rintro ⟨reaches, upper⟩
    rw [reaches]
    have after := unit.periods.le_last (time + offset)
    have lower : c.ticks time ≤ c.ticks (unit.periods.last (time + offset) - offset) :=
      c.ticks_strictMono.monotone (by omega)
    obtain ⟨final, final_⟩ := Day.exists_at ⟨at_.counted.1.trans lower, upper⟩
    exact ⟨final, final_, endsUnit_fixed at_ final_⟩

/-- The first second of April 1970, on a clock of microseconds. -/
def april : Day .microseconds := ⟨⟨Clock.microseconds.ticks 7776000, by decide⟩⟩

theorem april_at : april.At 7776000 := rfl

theorem april_endsUnit_iff :
    (∃ final, april.endOf (.fixed 0) .kMO = some final ∧ EndsUnit (.fixed 0) .kMO april final) ↔
      ReachesEnd (april.local_ (.fixed 0)) .kMO ∧ EndsInRange (.fixed 0) .kMO april :=
  endsUnit_iff_reachesEnd 0 .kMO (by decide) april ⟨7776000, april_at⟩

/-- Its end is the last second of the first of May. -/
theorem april_not_endsUnit : april.WholeSecond ∧ EndsInRange (.fixed 0) .kMO april ∧
    ¬ ∃ final, april.endOf (.fixed 0) .kMO = some final ∧ EndsUnit (.fixed 0) .kMO april final := by
  refine ⟨⟨7776000, april_at⟩, (endsInRange_fixed april_at).mpr (by decide), ?_⟩
  rintro ⟨final, ended, ends⟩
  have final_ := (endOf_fixed april_at).mp ended
  have within := ends.within
  rw [final_.local_fixed] at within
  exact absurd within.2 (by decide)

end End

end Mux.Programs
