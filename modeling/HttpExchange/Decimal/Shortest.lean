/-! # The shortest decimal that reads back

Of the decimals that round to a given positive binary value, those of the fewest digits count, and
of these the nearest to the value; a tie goes up. For each number of digits only the two decimals
around the value can qualify, and both are tested in exact arithmetic: a finite binary value is a
whole number of units in its last place. -/

namespace HttpExchange

/-- A 64-bit floating-point value by its parts; a finite one is `significand * 2 ^ exponent`. -/
inductive Binary64 where
  | finite (negative : Bool) (significand : Nat) (exponent : Int)
  | infinite (negative : Bool)
  | nan
  deriving DecidableEq, Repr

namespace Binary64

/-- The parts of an encoding: one sign bit, eleven of exponent, fifty-two of fraction. -/
def ofBits (bits : UInt64) : Binary64 :=
  let negative := bits.toNat / Nat.pow 2 63 == 1
  let biased : Nat := bits.toNat / Nat.pow 2 52 % Nat.pow 2 11
  let fraction : Nat := bits.toNat % Nat.pow 2 52
  if biased = 0x7FF then (if fraction = 0 then infinite negative else nan)
  else if biased = 0 then finite negative fraction (-1074)
  else finite negative (Nat.pow 2 52 + fraction) ((biased : Int) - 1075)

def ofFloat (x : Float) : Binary64 := ofBits x.toBits

end Binary64

/-- The number `digits * 10 ^ exponent`. -/
structure Decimal where
  digits : Nat
  exponent : Int
  deriving DecidableEq, Repr

namespace Decimal

/-- Factors `(a, b)` with `2 ^ p / 10 ^ k = a / b`. -/
def ratio (p k : Int) : Nat × Nat :=
  (Nat.pow 2 p.toNat * Nat.pow 10 (-k).toNat, Nat.pow 2 (-p).toNat * Nat.pow 10 k.toNat)

/-- The exponent of ten of the first digit of `significand * 2 ^ exponent`. -/
def leadingExponent (significand : Nat) (exponent : Int) : Int :=
  let scaled := significand * (ratio exponent (-400)).1 / (ratio exponent (-400)).2
  ((Nat.toDigits 10 scaled).length : Int) - 401

/-- The multiple of `10 ^ k` next to the value that still rounds to it, if one does. In quarters
of a unit in the last place the value is `4 * significand`, the interval of reals that round to it
reaches 2 up, and 2 down or, above a power of two, 1 down; its ends belong to it if the
significand is even. -/
def onGrid? (significand : Nat) (exponent k : Int) : Option Decimal :=
  let (a, b) := ratio (exponent - 2) k
  let value := 4 * significand * a
  let low := if significand = Nat.pow 2 52 then 4 * significand - 1 else 4 * significand - 2
  let inside (d : Nat) : Bool :=
    if significand % 2 = 0 then low * a ≤ d * b && d * b ≤ (4 * significand + 2) * a
    else low * a < d * b && d * b < (4 * significand + 2) * a
  let below := value / b
  let above := below + 1
  match inside below, inside above with
  | true, true => some ⟨if 2 * (value - below * b) < b then below else above, k⟩
  | true, false => some ⟨below, k⟩
  | false, true => some ⟨above, k⟩
  | false, false => none

/-- Trailing zeros move into the exponent; `fuel` bounds their number. -/
def normalize (fuel : Nat) (d : Decimal) : Decimal :=
  match fuel with
  | 0 => d
  | fuel + 1 =>
    if d.digits ≠ 0 ∧ d.digits % 10 = 0 then normalize fuel ⟨d.digits / 10, d.exponent + 1⟩ else d

/-- The shortest decimal that rounds to the positive value `significand * 2 ^ exponent`. Seventeen
digits always suffice. -/
def shortest (significand : Nat) (exponent : Int) : Decimal :=
  let top := leadingExponent significand exponent
  let found := (List.range 17).findSome? fun (n : Nat) =>
    onGrid? significand exponent (top - (n : Int))
  normalize 20 (found.getD ⟨significand, 0⟩)

end Decimal

end HttpExchange
