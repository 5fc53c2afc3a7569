import Mux.Library.Calendar

/-!
# Broken-down time

The conversions of the C library between seconds since the epoch and the fields of the
local time. A zone has a standard offset and a set of instants at which the clocks are
put forward; a fixed offset is the zone in which they never are. Fields outside their
ranges are carried into the next ones, and `tm_isdst` says how they are meant.
-/

/-- The fields that the conversions read and write. Years count from 1900, months from
zero. -/
@[ext]
structure Tm where
  tm_sec : ℤ
  tm_min : ℤ
  tm_hour : ℤ
  tm_mday : ℤ
  tm_mon : ℤ
  tm_year : ℤ
  tm_isdst : ℤ
  deriving DecidableEq, Repr

structure Zone where
  offset : ℤ
  saving : ℤ
  isDst : ℤ → Bool

namespace Tm

open Calendar

/-- The fields of a second of local time. -/
def ofSeconds (second isdst : ℤ) : Tm :=
  let minute := second / 60
  let hour := minute / 60
  let day := hour / 24
  let month := monthOf day
  { tm_sec := second % 60
    tm_min := minute % 60
    tm_hour := hour % 24
    tm_mday := day - monthStart month + 1
    tm_mon := month % 12
    tm_year := month / 12 - 1900
    tm_isdst := isdst }

/-- The second of local time that the fields name, whatever their ranges. -/
def seconds (tm : Tm) : ℤ :=
  let day := monthStart (12 * (tm.tm_year + 1900) + tm.tm_mon) + tm.tm_mday - 1
  60 * (60 * (24 * day + tm.tm_hour) + tm.tm_min) + tm.tm_sec

theorem seconds_ofSeconds (second isdst : ℤ) : (ofSeconds second isdst).seconds = second := by
  simp only [seconds, ofSeconds]
  have month (m : ℤ) : 12 * (m / 12 - 1900 + 1900) + m % 12 = m := by omega
  rw [month]
  omega

end Tm

namespace Zone

/-- A zone with a fixed offset. -/
def fixed (offset : ℤ) : Zone where
  offset := offset
  saving := 3600
  isDst _ := false

/-- The offset of the local time at an instant. -/
def offsetAt (z : Zone) (time : ℤ) : ℤ := z.offset + if z.isDst time then z.saving else 0

def localtime (z : Zone) (time : ℤ) : Tm :=
  .ofSeconds (time + z.offsetAt time) (if z.isDst time then 1 else 0)

/-- The fields are read as standard time when `tm_isdst` is zero and as daylight time when it
is positive. Otherwise the library finds out which of them it is. -/
def mktime (z : Zone) (tm : Tm) : ℤ :=
  let standard := tm.seconds - z.offset
  let daylight := standard - z.saving
  if tm.tm_isdst = 0 then standard
  else if tm.tm_isdst > 0 then daylight
  else if z.isDst daylight then daylight else standard

theorem localtime_fixed (offset time : ℤ) :
    (fixed offset).localtime time = .ofSeconds (time + offset) 0 := by
  simp [localtime, fixed, offsetAt]

theorem mktime_standard (z : Zone) {tm : Tm} (standard : tm.tm_isdst = 0) :
    z.mktime tm = tm.seconds - z.offset := if_pos standard

end Zone

/-! ## The units of local time -/

namespace LocalTime

def minutes : Periods := .uniform 60 (by decide)

def hours : Periods := minutes.group (.uniform 60 (by decide))

def days : Periods := hours.group (.uniform 24 (by decide))

def months : Periods := days.group Calendar.months

def years : Periods := months.group (.uniform 12 (by decide))

end LocalTime
