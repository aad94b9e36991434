-- SUMMARY: Points in time as dates of the common calendar.
import Devicetree.Text.Blank

/-!
# The calendar

Time is counted in seconds since the start of 1970. A date is found by counting days
in cycles of four hundred years from the first of March, so that the day a leap year
adds comes last. Dates are written for the years 1 to 9999 only.
-/

namespace Devicetree

/-- A day and a time of day. -/
structure Date where
  year : Int
  month : Nat
  day : Nat
  hour : Nat
  minute : Nat
  second : Nat
deriving DecidableEq, Repr

namespace Calendar

/-- Why a point in time has no date. -/
inductive Fault where
  | notANumber
  /-- The seconds do not fit into 64 bits. -/
  | outOfRange
  /-- The year does not fit into 32 bits. -/
  | yearTooLarge
  /-- The year is not written. -/
  | yearOutOfRange (year : Int)
deriving DecidableEq, Repr

/-- The wording of a fault. -/
def Fault.message : Fault → String
  | notANumber => "Invalid value NaN (not a number)"
  | outOfRange => "timestamp out of range for platform time_t"
  | yearTooLarge => "[Errno 75] Value too large for defined data type"
  | yearOutOfRange year => s!"year {year} is out of range"

/-- The seconds of a day. -/
def daySeconds : Int := 86400

/-- The days of four hundred years. -/
def cycleDays : Int := 146097

/-- The days from the first of March of year zero to the start of 1970. -/
def epochDay : Int := 719468

/-- The year of a day in a cycle, counted from March, and the day in that year. -/
def yearOfCycle (day : Nat) : Nat × Nat :=
  let year := (day - day / 1460 + day / 36524 - day / 146096) / 365
  (year, day - (365 * year + year / 4 - year / 100))

/-- The date of a number of seconds. -/
def date (seconds : Int) : Date :=
  let day := seconds.fdiv daySeconds + epochDay
  let (year, ofYear) := yearOfCycle (day.emod cycleDays).toNat
  let march := (5 * ofYear + 2) / 153
  let month := if march < 10 then march + 3 else march - 9
  let ofDay := (seconds.emod daySeconds).toNat
  { year := 400 * day.fdiv cycleDays + year + (if month ≤ 2 then 1 else 0)
    month
    day := ofYear - (153 * march + 2) / 5 + 1
    hour := ofDay / 3600
    minute := ofDay / 60 % 60
    second := ofDay % 60 }

/-- Round to the nearest whole number, a half to the even one. -/
def roundEven (x : Float) : Float :=
  let r := x.round
  if (x - r).abs == 0.5 then 2.0 * (x / 2.0).round else r

/-- The whole seconds of a time that is rounded to millionths of a second. -/
def wholeSeconds (x : Float) : Float :=
  let whole := if x < 0.0 then x.ceil else x.floor
  let millionths := roundEven ((x - whole) * 1000000.0)
  if 1000000.0 ≤ millionths then whole + 1.0
  else if millionths < 0.0 then whole - 1.0
  else whole

/-- The date of a point in time. It must lie a day behind the start of year 1. -/
def dateOf (x : Float) : Except Fault Date :=
  if x.isNaN then .error .notANumber
  else if x.isInf then .error .outOfRange
  else
    let whole := wholeSeconds x
    if whole < -9223372036854775808.0 || 9223372036854775808.0 ≤ whole then .error .outOfRange
    else
      let seconds := whole.toInt64.toInt
      let d := date seconds
      let dayBefore := date (seconds - daySeconds)
      if d.year < -2147481748 || 2147485547 < d.year then .error .yearTooLarge
      else if d.year < 1 || 9999 < d.year then .error (.yearOutOfRange d.year)
      else if dayBefore.year < 1 then .error (.yearOutOfRange dayBefore.year)
      else .ok d

/-- Two digits at least. -/
def twoDigits (n : Nat) : Text :=
  let ds := Nat.toDigits 10 n
  List.replicate (2 - ds.length) '0' ++ ds

end Calendar

/-- A date as it is written: year, month and day, then the time of day. -/
def Date.text (d : Date) : Text :=
  (toString d.year).toList ++ '-' :: Calendar.twoDigits d.month
    ++ '-' :: Calendar.twoDigits d.day ++ ' ' :: Calendar.twoDigits d.hour
    ++ ':' :: Calendar.twoDigits d.minute ++ ':' :: Calendar.twoDigits d.second

end Devicetree
