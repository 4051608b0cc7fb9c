import Cnd.Text.Digit

/-!
Dates of the Gregorian calendar, extended to all years from 1 to 9999, times of day to the
microsecond, and moments: a local time with its distance from UTC in minutes.

The fields are checked in the order year, month, day, hour, minute, second, and the first that is
out of range is reported. Moments compare by the instant they denote, whatever their offset.
-/

namespace Cnd

/-- A field out of range. -/
inductive RangeFault where
  | year (given : Int)
  | month
  | day
  | hour
  | minute
  | second
  deriving DecidableEq, Repr

def RangeFault.message : RangeFault → String
  | .year y => s!"year {Text.decimalInt y} is out of range"
  | .month => "month must be in 1..12"
  | .day => "day is out of range for month"
  | .hour => "hour must be in 0..23"
  | .minute => "minute must be in 0..59"
  | .second => "second must be in 0..59"

/-- A day of the calendar. -/
structure CalendarDate where
  year : Nat
  month : Nat
  day : Nat
  deriving DecidableEq, Repr, Inhabited

namespace CalendarDate

def isLeapYear (year : Nat) : Bool :=
  year % 4 == 0 && (year % 100 != 0 || year % 400 == 0)

def daysInMonth (year month : Nat) : Nat :=
  match month with
  | 2 => if isLeapYear year then 29 else 28
  | 4 | 6 | 9 | 11 => 30
  | _ => 31

/-- The date with the given fields, or the first field that is out of range. -/
def ofFields (year : Int) (month day : Nat) : Except RangeFault CalendarDate :=
  if year < 1 || 9999 < year then .error (.year year)
  else if month < 1 || 12 < month then .error .month
  else if day < 1 || daysInMonth year.toNat month < day then .error .day
  else .ok ⟨year.toNat, month, day⟩

/-- The days of a year before its given month. -/
def daysBeforeMonth (year month : Nat) : Nat :=
  ((List.range (month - 1)).map fun m => daysInMonth year (m + 1)).foldl (· + ·) 0

/-- The days before the first of January of a year, counted from that of year 1. -/
def daysBeforeYear (year : Nat) : Nat :=
  let y := year - 1
  y * 365 + y / 4 - y / 100 + y / 400

/-- The number of a day, that of 1 January of year 1 being one. -/
def ordinal (d : CalendarDate) : Nat :=
  daysBeforeYear d.year + daysBeforeMonth d.year d.month + d.day

/-- The greatest of some numbers, in ascending order, that pass a test. -/
def lastWhere (test : Nat → Bool) (candidates : List Nat) : Nat :=
  ((candidates.filter test).getLast?).getD 1

/-- The day of a number. -/
def ofOrdinal (n : Nat) : CalendarDate :=
  let years := (List.range (n / 365 + 2 - n / 366)).map (n / 366 + ·)
  let year := lastWhere (fun y => 0 < y && daysBeforeYear y < n) years
  let rest := n - daysBeforeYear year
  let month := lastWhere (fun m => daysBeforeMonth year m < rest) ((List.range 12).map (· + 1))
  ⟨year, month, rest - daysBeforeMonth year month⟩

/-- Year, month and day with hyphens between them. -/
def text (d : CalendarDate) : String :=
  s!"{Text.paddedDecimal 4 d.year}-{Text.paddedDecimal 2 d.month}-{Text.paddedDecimal 2 d.day}"

end CalendarDate

/-- A date with a time of day. -/
structure LocalTime where
  date : CalendarDate
  hour : Nat
  minute : Nat
  second : Nat
  microsecond : Nat
  deriving DecidableEq, Repr, Inhabited

namespace LocalTime

/-- The time with the given fields, or the first field that is out of range. -/
def ofFields (year : Int) (month day hour minute second microsecond : Nat) :
    Except RangeFault LocalTime :=
  match CalendarDate.ofFields year month day with
  | .error fault => .error fault
  | .ok date =>
    if 23 < hour then .error .hour
    else if 59 < minute then .error .minute
    else if 59 < second then .error .second
    else .ok ⟨date, hour, minute, second, microsecond⟩

/-- The microseconds since the first moment of the day before year 1. -/
def microseconds (t : LocalTime) : Int :=
  ((((t.date.ordinal * 24 + t.hour) * 60 + t.minute) * 60 + t.second) * 1000000 + t.microsecond : Nat)

/-- Hours, minutes and seconds with colons between them. -/
def clockText (t : LocalTime) : String :=
  s!"{Text.paddedDecimal 2 t.hour}:{Text.paddedDecimal 2 t.minute}:{Text.paddedDecimal 2 t.second}"

/-- The microseconds behind a point, if there are any. -/
def fractionText (t : LocalTime) : String :=
  if t.microsecond == 0 then "" else "." ++ Text.paddedDecimal 6 t.microsecond

/-- Date and time with a blank between them; a fraction is written if there is one. -/
def text (t : LocalTime) : String := s!"{t.date.text} {t.clockText}{t.fractionText}"

/-- The number of the first day of 1970. -/
def epochDay : Nat := 719163

/-- The time of UTC some microseconds after the first moment of 1970. -/
def ofEpoch (microseconds : Nat) : LocalTime :=
  let seconds := microseconds / 1000000
  ⟨.ofOrdinal (epochDay + seconds / 86400), seconds / 3600 % 24, seconds / 60 % 60, seconds % 60,
    microseconds % 1000000⟩

/-- The written form of a time of UTC. -/
def stampText (t : LocalTime) : String := s!"{t.date.text}T{t.clockText}{t.fractionText}+00:00"

end LocalTime

/-- A distance from UTC as a sign, hours and minutes. -/
def offsetText (minutes : Int) : String :=
  let sign := if minutes < 0 then "-" else "+"
  let m := minutes.natAbs
  s!"{sign}{Text.paddedDecimal 2 (m / 60)}:{Text.paddedDecimal 2 (m % 60)}"

/-- A local time and its distance from UTC in minutes. -/
structure Moment where
  civil : LocalTime
  offset : Int
  deriving DecidableEq, Repr, Inhabited

namespace Moment

/-- The instant as microseconds on the scale of UTC. -/
def instant (m : Moment) : Int := m.civil.microseconds - m.offset * 60000000

/-- The written form of a date literal: milliseconds, and a letter for an offset of zero. -/
def literal (m : Moment) : String :=
  let zone := if m.offset == 0 then "Z" else offsetText m.offset
  s!"{m.civil.date.text}T{m.civil.clockText}.{Text.paddedDecimal 3 (m.civil.microsecond / 1000)}{zone}"

end Moment

end Cnd
