import HttpExchange.Decimal.Style
import HttpExchange.Json.Record

/-! # Parameters of a backoff policy

The parameters, the conditions on them in the order in which they are checked, and the document
that gives them.

Intervals are computed in whole milliseconds and in the real numbers between them. Which real
numbers these are, and how an operation rounds, is a parameter: programs use 64-bit floating
point, theorems may use any arithmetic that rounds in an orderly way, or none that rounds. -/

namespace HttpExchange.Backoff

/-- Numbers to compute intervals with. -/
class Arithmetic (α : Type) extends Add α, Sub α, Mul α where
  /-- A whole number of 32 bits, which every arithmetic holds exactly. -/
  ofWord : UInt32 → α
  floor : α → α
  ceil : α → α
  le : α → α → Bool
  lt : α → α → Bool
  isFinite : α → Bool
  /-- The whole part, cut to 64 bits; zero if negative or no number. -/
  toWord : α → UInt64

/-- The numbers that programs compute with. -/
instance : Arithmetic Float where
  ofWord n := n.toUInt64.toFloat
  floor := Float.floor
  ceil := Float.ceil
  le a b := decide (a ≤ b)
  lt a b := decide (a < b)
  isFinite := Float.isFinite
  toWord := Float.toUInt64

/-- The parameters of a policy. Times are in milliseconds. -/
structure Config (α : Type) where
  initialInterval : UInt32
  multiplier : α
  randomizationFactor : α
  maxInterval : UInt32
  maxElapsed : UInt64

/-- Half a second at first, half as much again each time, up to a minute, for a quarter of an
hour, with delays up to half an interval off. -/
def Config.standard : Config Float := ⟨500, 1.5, 0.5, 60000, 900000⟩

inductive ConfigError (α : Type) where
  | zeroInitialInterval
  | randomizationFactor (value : α)
  | multiplier (value : α)
  | maxBelowInitial (initial max : UInt32)

def ConfigError.message : ConfigError Float → Text
  | zeroInitialInterval => "initial interval must be greater than zero".toList
  | randomizationFactor x =>
    "randomization factor must be in [0, 1), got ".toList ++ Decimal.Style.plain.render x
  | multiplier x => "multiplier must be at least 1, got ".toList ++ Decimal.Style.plain.render x
  | maxBelowInitial initial max =>
    "max interval (".toList ++ Numeral.ofNat max.toNat ++
      " ms) is smaller than the initial interval (".toList ++ Numeral.ofNat initial.toNat ++
      " ms)".toList

namespace Config

variable {α : Type} [Arithmetic α]

/-- The first condition that the parameters miss, if any: the initial interval is positive, the
factor is from zero to below one, the multiplier is finite and at least one, and the greatest
interval is not below the initial one. -/
def validate (c : Config α) : Except (ConfigError α) Unit :=
  if c.initialInterval = 0 then .error .zeroInitialInterval
  else if !(Arithmetic.le (Arithmetic.ofWord 0) c.randomizationFactor &&
      Arithmetic.lt c.randomizationFactor (Arithmetic.ofWord 1)) then
    .error (.randomizationFactor c.randomizationFactor)
  else if !(Arithmetic.le (Arithmetic.ofWord 1) c.multiplier &&
      Arithmetic.isFinite c.multiplier) then
    .error (.multiplier c.multiplier)
  else if c.maxInterval < c.initialInterval then
    .error (.maxBelowInitial c.initialInterval c.maxInterval)
  else .ok ()

def Valid (c : Config α) : Prop := c.validate = .ok ()

def wordField {σ : Type} (name : String) (bits : Nat) (set : σ → Nat → σ) : Json.Field σ :=
  ⟨name.toList, fun record s => do
    let (z, rest) ← Json.readInteger 0 (Nat.pow 2 bits) s
    return (set record z.toNat, rest)⟩

def floatField {σ : Type} (name : String) (set : σ → Float → σ) : Json.Field σ :=
  ⟨name.toList, fun record s => do
    let (n, rest) ← Json.readNumber s
    return (set record n.toFloat, rest)⟩

/-- The fields of a document, in their order in a list. -/
def fields : List (Json.Field (Config Float)) :=
  [wordField "initial_interval_ms" 32 fun c n => { c with initialInterval := n.toUInt32 },
    floatField "multiplier" fun c x => { c with multiplier := x },
    floatField "randomization_factor" fun c x => { c with randomizationFactor := x },
    wordField "max_interval_ms" 32 fun c n => { c with maxInterval := n.toUInt32 },
    wordField "max_elapsed_time_ms" 64 fun c n => { c with maxElapsed := n.toUInt64 }]

/-- The parameters that a document gives; those that it misses are standard. -/
def ofJson (document : Text) : Except Json.Fault (Config Float) :=
  Json.document (Json.Record.read fields false standard) (Utf8.encode document)

/-- Whether the parameters are the standard ones, as numbers compare. -/
def isStandard (c : Config Float) : Bool :=
  c.initialInterval == standard.initialInterval && c.multiplier == standard.multiplier &&
    c.randomizationFactor == standard.randomizationFactor &&
    c.maxInterval == standard.maxInterval && c.maxElapsed == standard.maxElapsed

def render (c : Config Float) : Text :=
  "BackoffConfig \x7b initial_interval_ms: ".toList ++ Numeral.ofNat c.initialInterval.toNat ++
    ", multiplier: ".toList ++ Decimal.Style.general.render c.multiplier ++
    ", randomization_factor: ".toList ++ Decimal.Style.general.render c.randomizationFactor ++
    ", max_interval_ms: ".toList ++ Numeral.ofNat c.maxInterval.toNat ++
    ", max_elapsed_time_ms: ".toList ++ Numeral.ofNat c.maxElapsed.toNat ++ " \x7d".toList

end Config

end HttpExchange.Backoff
