import HttpExchange.Decimal.Shortest
import HttpExchange.Text.Numeral

/-! # Writing floating-point values

The digits are those of the shortest decimal that reads back. A style decides how they are laid
out: which values are written positionally and whether a whole number shows a fraction. -/

namespace HttpExchange.Decimal

/-- The free choices in writing a number. -/
structure Style where
  /-- The exponents of the first digit, from the first to below the second, that are written
  positionally; without bounds all are. -/
  positional : Option (Int × Int)
  /-- Whether a whole number ends in `.0`. -/
  showsFraction : Bool

namespace Style

/-- Always positional, and no fraction without need. -/
def plain : Style := ⟨none, false⟩

/-- Positional from a ten-thousandth to below ten to the sixteenth, always with a fraction. -/
def general : Style := ⟨some (-4, 16), true⟩

def positionally (s : Style) (digits : Text) (exponent : Int) : Text :=
  let point := (digits.length : Int) + exponent
  if point ≤ 0 then
    '0' :: '.' :: List.replicate (-point).toNat '0' ++ digits
  else if exponent < 0 then
    digits.take point.toNat ++ '.' :: digits.drop point.toNat
  else
    digits ++ List.replicate exponent.toNat '0' ++ (if s.showsFraction then ['.', '0'] else [])

/-- The first digit, the others behind a point, and the exponent of ten of the first. -/
def scientifically (digits : Text) (exponent : Int) : Text :=
  let lead := (digits.length : Int) + exponent - 1
  match digits with
  | [] => []
  | d :: [] => d :: 'e' :: Numeral.ofInt lead
  | d :: more => d :: '.' :: more ++ 'e' :: Numeral.ofInt lead

def layOut (s : Style) (d : Decimal) : Text :=
  let digits := Numeral.ofNat d.digits
  let lead := (digits.length : Int) + d.exponent - 1
  match s.positional with
  | none => s.positionally digits d.exponent
  | some (least, bound) =>
    if d.digits = 0 ∨ (least ≤ lead ∧ lead < bound) then s.positionally digits d.exponent
    else scientifically digits d.exponent

def render (s : Style) (x : Float) : Text :=
  let sign (negative : Bool) : Text := if negative then ['-'] else []
  match Binary64.ofFloat x with
  | .nan => "NaN".toList
  | .infinite negative => sign negative ++ "inf".toList
  | .finite negative 0 _ => sign negative ++ s.layOut ⟨0, 0⟩
  | .finite negative significand exponent =>
    sign negative ++ s.layOut (shortest significand exponent)

end Style

end HttpExchange.Decimal
