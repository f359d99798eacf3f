import HttpExchange.Backoff.Jitter

/-! # The exponential policy

A policy hands out delays around an interval that grows with each of them up to a ceiling. A
campaign that lasts longer than allowed is stopped, and stopping changes nothing. The clock and
the source of randomness are handed in, so that a policy is a plain state. -/

namespace HttpExchange.Backoff

structure Delay where
  nanos : Nat
  deriving DecidableEq, Repr

def Delay.ofMillis (millis : UInt64) : Delay := ⟨millis.toNat * 1000000⟩

/-- The whole milliseconds of a delay, as which it is shown. -/
def Delay.toNat (d : Delay) : Nat := d.nanos / 1000000

inductive Decision where
  | retry (delay : Delay)
  | stop
  deriving DecidableEq, Repr

/-- A policy in a campaign, with its source of randomness in state `source`. Points of time are
nanoseconds. -/
structure Policy (α σ : Type) where
  config : Config α
  interval : UInt32
  started : UInt64
  source : σ

namespace Policy

variable {α σ : Type} [Arithmetic α]

def start (config : Config α) (source : σ) (now : UInt64) : Policy α σ :=
  ⟨config, config.initialInterval, now, source⟩

/-- The policy for these parameters, if they are valid. -/
def build (config : Config α) (source : σ) (now : UInt64) :
    Except (ConfigError α) (Policy α σ) := do
  config.validate
  return start config source now

/-- The whole milliseconds of the campaign; none before its start. -/
def elapsedMillis (p : Policy α σ) (now : UInt64) : Nat :=
  (now.toNat - p.started.toNat) / 1000000

/-- The interval after this one: a multiple, cut to whole milliseconds, and at most the
ceiling. -/
def grow (config : Config α) (interval : UInt32) : UInt32 :=
  let next := (Arithmetic.ofWord interval : α) * config.multiplier
  if Arithmetic.le (Arithmetic.ofWord config.maxInterval) next then config.maxInterval
  else (Arithmetic.toWord next).toUInt32

/-- The decision after a failure, and the policy behind it. -/
def next (draw : σ → α × σ) (p : Policy α σ) (now : UInt64) : Decision × Policy α σ :=
  if p.config.maxElapsed.toNat < p.elapsedMillis now then (.stop, p)
  else
    let (random, source) := draw p.source
    (.retry (.ofMillis (jitter p.config.randomizationFactor random p.interval)),
      { p with interval := grow p.config p.interval, source := source })

def reset (p : Policy α σ) (now : UInt64) : Policy α σ :=
  { p with interval := p.config.initialInterval, started := now }

/-- The policy as a named record, without its clock and its source. -/
def render (p : Policy Float σ) : Text :=
  "ExponentialBackoff \x7b config: ".toList ++ p.config.render ++
    ", current_interval_ms: ".toList ++ Numeral.ofNat p.interval.toNat ++
    ", start_time_nanos: ".toList ++ Numeral.ofNat p.started.toNat ++ ", .. \x7d".toList

end Policy

/-! ## A seeded source of randomness

A counter of 64 bits walks through all its states, and each state is mixed by one product of 128
bits. The points drawn lie in the unit interval without its upper end. -/

namespace Randomness

/-- The state after one more step. The increment is odd, so all states are visited. -/
def advance (state : UInt64) : UInt64 := state + 0x2d358dccaa6c78a5

/-- The bits of a state: the halves of a product of 128 bits, combined. -/
def mix (state : UInt64) : UInt64 :=
  let product := state.toNat * (state ^^^ 0x8bb84b93962eacc9).toNat
  UInt64.ofNat product ^^^ UInt64.ofNat (product / Nat.pow 2 64)

/-- The upper 63 bits of a word as a fraction. Rounding may make it one. -/
def fraction (word : UInt64) : Float := (word >>> 1).toFloat / 9223372036854775808.0

/-- The first of the next `tries` fractions that is below one, and the state behind it. -/
def drawBelowOne : Nat → UInt64 → Float × UInt64
  | 0, state => (0, state)
  | tries + 1, state =>
    let next := advance state
    let x := fraction (mix next)
    if x == 1.0 then drawBelowOne tries next else (x, next)

/-- A point of the unit interval, its upper end excluded, and the state behind it. -/
def draw (state : UInt64) : Float × UInt64 := drawBelowOne (Nat.pow 2 64) state

end Randomness

end HttpExchange.Backoff
