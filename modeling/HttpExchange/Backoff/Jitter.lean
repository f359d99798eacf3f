import HttpExchange.Backoff.Config

/-! # Jitter

A delay is drawn from the whole numbers between `current - factor * current` and
`current + factor * current`: the range and one more is stretched over the unit interval, the
drawn point is rounded down, and what rounding may have pushed outside comes back to the border. -/

namespace HttpExchange.Backoff

variable {α : Type} [Arithmetic α]

structure Range (α : Type) where
  low : α
  high : α

/-- The reals at most `factor * current` away from `current`. -/
def Range.around (factor : α) (current : UInt32) : Range α :=
  let center : α := Arithmetic.ofWord current
  let spread := factor * center
  ⟨center - spread, center + spread⟩

/-- The least whole number of the range. -/
def Range.first (r : Range α) : α := Arithmetic.ceil r.low

/-- The greatest whole number of the range. -/
def Range.last (r : Range α) : α := Arithmetic.floor r.high

/-- The whole number that a point of the unit interval picks. -/
def Range.pick (r : Range α) (random : α) : α :=
  let picked := Arithmetic.floor
    (r.low + random * (r.high - r.low + Arithmetic.ofWord 1))
  if Arithmetic.lt picked r.first then r.first
  else if Arithmetic.lt r.last picked then r.last
  else picked

/-- The delay in milliseconds that a point of the unit interval picks. -/
def jitter (factor random : α) (current : UInt32) : UInt64 :=
  Arithmetic.toWord ((Range.around factor current).pick random)

/-- Like `jitter`, but none if the borders of the range are out of order or no numbers. -/
def jitter? (factor random : α) (current : UInt32) : Option UInt64 :=
  let r := Range.around factor current
  if Arithmetic.le r.first r.last then some (jitter factor random current) else none

end HttpExchange.Backoff
