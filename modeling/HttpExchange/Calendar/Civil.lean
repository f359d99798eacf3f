import HttpExchange.Calendar.Instant

/-! # Civil dates and times

Dates of the Gregorian calendar, extended to all years, and times of day in UTC. The sixtieth
second of a minute is the leap second. -/

namespace HttpExchange

/-- A date and a time of day by its parts. The parts need not exist in the calendar. -/
structure Civil where
  year : Int
  month : Nat
  day : Nat
  hour : Nat
  minute : Nat
  second : Nat
  deriving DecidableEq, Repr

namespace Civil

/-- Every fourth year is a leap year, of the hundreds only every fourth. -/
def isLeapYear (year : Int) : Bool := year % 4 == 0 && (year % 100 != 0 || year % 400 == 0)

def monthLengths (year : Int) : List Nat :=
  [31, if isLeapYear year then 29 else 28, 31, 30, 31, 30, 31, 31, 30, 31, 30, 31]

/-- Whether the date is in the calendar and the time on the clock. -/
def Exists (c : Civil) : Prop :=
  1 ≤ c.month ∧ c.month ≤ 12 ∧
    1 ≤ c.day ∧ c.day ≤ (monthLengths c.year).getD (c.month - 1) 0 ∧
    c.hour < 24 ∧ c.minute < 60 ∧ c.second ≤ 60

instance (c : Civil) : Decidable c.Exists := by unfold Exists; infer_instance

/-- The days from the start of year 1 to the start of `year`. -/
def daysBeforeYear (year : Int) : Int :=
  365 * (year - 1) + (year - 1) / 4 - (year - 1) / 100 + (year - 1) / 400

/-- The days from the start of 1970 to the date. -/
def dayNumber (c : Civil) : Int :=
  daysBeforeYear c.year - daysBeforeYear 1970 +
    ((monthLengths c.year).take (c.month - 1)).foldr (· + ·) (0 : Nat) + c.day - 1

def unixSeconds (c : Civil) : Int :=
  dayNumber c * 86400 + ((c.hour * 60 + c.minute) * 60 + min c.second 59 : Nat)

/-- The point of time in UTC, if date and time exist and are in range. -/
def toInstant? (c : Civil) : Option Instant :=
  if c.Exists then Instant.ofUnix? c.unixSeconds (if c.second = 60 then 1000000000 else 0)
  else none

end Civil

end HttpExchange
