/-! # Points of time

A point of time is a number of whole seconds since the start of 1970 in UTC and of nanoseconds on
top. A leap second repeats the count of the second before it and has a further 10^9 nanoseconds.
The seconds cover the years -262143 to 262142 of the Gregorian calendar. -/

namespace HttpExchange

/-- A point of time with the precision of a nanosecond. -/
structure Instant where
  seconds : Int
  nanos : Nat
  first_le : -8334601228800 ≤ seconds
  le_last : seconds ≤ 8210266876799
  nanos_lt : nanos < 2000000000
  leap_at_end : 1000000000 ≤ nanos → seconds % 60 = 59
  deriving DecidableEq, Repr

namespace Instant

/-- The point of time with this count, if there is one. -/
def ofUnix? (seconds : Int) (nanos : Nat) : Option Instant :=
  if h : (-8334601228800 ≤ seconds ∧ seconds ≤ 8210266876799) ∧
      (nanos < 2000000000 ∧ (1000000000 ≤ nanos → seconds % 60 = 59)) then
    some ⟨seconds, nanos, h.1.1, h.1.2, h.2.1, h.2.2⟩
  else none

def epoch : Instant := ⟨0, 0, by decide, by decide, by decide, by decide⟩

def isLeap (t : Instant) : Bool := 1000000000 ≤ t.nanos

/-- The seconds since midnight; a leap second counts as the second before it. -/
def secondOfDay (t : Instant) : Int := t.seconds % 86400

/-- The seconds that a leap second between the times of day adds. -/
def leapBetween (later earlier : Instant) : Int :=
  if earlier.secondOfDay < later.secondOfDay then (if earlier.isLeap then 1 else 0)
  else if later.secondOfDay < earlier.secondOfDay then (if later.isLeap then -1 else 0)
  else 0

/-- The nanoseconds from `earlier` to `later`, negative if they are the other way round. -/
def nanosBetween (later earlier : Instant) : Int :=
  (later.seconds - earlier.seconds + leapBetween later earlier) * 1000000000 +
    ((later.nanos : Int) - earlier.nanos)

/-- The whole milliseconds from `earlier` to `later`, cut toward zero. -/
def millisBetween (later earlier : Instant) : Int := (nanosBetween later earlier).tdiv 1000000

/-- The seconds from `now` until `t`, the milliseconds rounded up to whole seconds. -/
def secondsUntil (t now : Instant) : Int :=
  let millis := millisBetween t now
  millis / 1000 + (if millis % 1000 = 0 then 0 else 1)

end Instant

end HttpExchange
