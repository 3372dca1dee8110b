import Readout.Text.Radix
/-!
# Calendar time

Moments are counted in seconds from the start of 1970, in universal time, and written as
`Thu Mar  7 14:02:11 2024`.

* `Date.ofDay` gives the date of a day counted from the start of 1970;
* `timestamp` writes a moment; the result always has 24 characters for years of four digits.
-/

namespace Readout.Calendar

/-- A date of the Gregorian calendar; months and days count from 1. -/
structure Date where
  year : Nat
  month : Nat
  day : Nat
  deriving DecidableEq, Repr

def weekdays : List String := ["Sun", "Mon", "Tue", "Wed", "Thu", "Fri", "Sat"]

def months : List String :=
  ["Jan", "Feb", "Mar", "Apr", "May", "Jun", "Jul", "Aug", "Sep", "Oct", "Nov", "Dec"]

/-- The date of day `n`, day 0 being the first of 1970.

Years are counted from the first of March, so that a leap day ends its year, in eras of 400 years
(146097 days); 719468 days lie between the first of March of the year 0 and day 0. -/
def Date.ofDay (n : Nat) : Date :=
  let days := n + 719468
  let era := days / 146097
  let dayOfEra := days % 146097
  let yearOfEra := (dayOfEra - dayOfEra / 1460 + dayOfEra / 36524 - dayOfEra / 146096) / 365
  let dayOfYear := dayOfEra - (365 * yearOfEra + yearOfEra / 4 - yearOfEra / 100)
  let marchMonth := (5 * dayOfYear + 2) / 153
  let month := if marchMonth < 10 then marchMonth + 3 else marchMonth - 9
  { year := era * 400 + yearOfEra + (if month ≤ 2 then 1 else 0)
    month := month
    day := dayOfYear - (153 * marchMonth + 2) / 5 + 1 }

/-- The first of 1970 was a Thursday. -/
def weekday (n : Nat) : String := weekdays.getD ((n + 4) % 7) ""

/-- A number of two places, filled from the left. -/
def twoPlaces (fill : Char) (n : Nat) : String :=
  String.ofList (Text.padLeft 2 fill (Nat.toDigits 10 n))

/-- A moment as weekday, month, day, time of day and year. -/
def timestamp (seconds : Nat) : String :=
  let day := seconds / 86400
  let time := seconds % 86400
  let date := Date.ofDay day
  " ".intercalate
    [weekday day, months.getD (date.month - 1) "", twoPlaces ' ' date.day,
      ":".intercalate
        [twoPlaces '0' (time / 3600), twoPlaces '0' (time / 60 % 60), twoPlaces '0' (time % 60)],
      toString date.year]

end Readout.Calendar
