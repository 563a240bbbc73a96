/-!
The date and time of a moment, given in milliseconds since the start of 1970. Days are counted in years
that begin in March, so that a leap day is the last day of its year.
-/

namespace SpriteMachine

structure Date where
  year : Nat
  month : Nat
  day : Nat
  deriving DecidableEq, Repr

/-- Days from the first of March of the year zero to the start of 1970. -/
def daysBefore1970 : Nat := 719468

/-- The date of a day counted from the start of 1970. Eras of 400 years have the same number of days. -/
def Date.ofDays (days : Nat) : Date :=
  let n := days + daysBefore1970
  let era := n / 146097
  let dayOfEra := n % 146097
  let yearOfEra := (dayOfEra - dayOfEra / 1460 + dayOfEra / 36524 - dayOfEra / 146096) / 365
  let dayOfYear := dayOfEra - (365 * yearOfEra + yearOfEra / 4 - yearOfEra / 100)
  let m := (5 * dayOfYear + 2) / 153
  { year := yearOfEra + era * 400 + (if m < 10 then 0 else 1)
    month := if m < 10 then m + 3 else m - 9
    day := dayOfYear - (153 * m + 2) / 5 + 1 }

/-- A moment in milliseconds since the start of 1970. -/
structure Moment where
  milliseconds : Nat := 0
  deriving DecidableEq, Repr

namespace Moment

def days (m : Moment) : Nat :=
  m.milliseconds / 86400000

def date (m : Moment) : Date :=
  .ofDays m.days

def weekday (m : Moment) : Nat :=
  (m.days + 4) % 7 + 1

def hour (m : Moment) : Nat :=
  m.milliseconds / 3600000 % 24

def minute (m : Moment) : Nat :=
  m.milliseconds / 60000 % 60

def second (m : Moment) : Nat :=
  m.milliseconds / 1000 % 60

/-- A part of the date and time by its name; an unknown part is zero. -/
def part (m : Moment) : String → Nat
  | "year" => m.date.year
  | "month" => m.date.month
  | "date" => m.date.day
  | "dayofweek" => m.weekday
  | "hour" => m.hour
  | "minute" => m.minute
  | "second" => m.second
  | _ => 0

def daysSince2000 (m : Moment) : Float :=
  (Float.ofNat m.milliseconds - 946684800000.0) / 86400000.0

end Moment

end SpriteMachine
