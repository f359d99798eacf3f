import HttpExchange.Json.Basic

/-! # Numbers

An integer of 64 bits is kept as it is; every other number becomes a floating-point value. Its
digits are collected into a significand of 64 bits and a power of ten, and the power is applied
in floating point, with the rounding of that one operation. -/

namespace HttpExchange.Json

inductive Number where
  | integer (value : Int)
  | float (value : Float)

namespace Number

/-- The value of a row of digits behind `significand`, as far as 64 bits hold it, and the number
of digits left over. -/
def collect (significand : Nat) : Bytes → Nat × Nat
  | [] => (significand, 0)
  | d :: digits =>
    let next := significand * 10 + (d.toNat - 48)
    if next < Nat.pow 2 64 then collect next digits else (significand, digits.length + 1)

/-- `x * 10 ^ exponent`, or none if it is too large. A power below the range is applied in steps;
four steps reach zero. -/
def scale : Nat → Float → Int → Option Float
  | 0, _, _ => some 0
  | steps + 1, x, exponent =>
    if exponent.natAbs ≤ 308 then
      let power := Float.ofScientific 1 false exponent.natAbs
      if 0 ≤ exponent then
        let scaled := x * power
        if scaled.isInf then none else some scaled
      else some (x / power)
    else if x == 0 then some x
    else if 0 ≤ exponent then none
    else scale steps (x / Float.ofScientific 1 false 308) (exponent + 308)

def ofParts (negative : Bool) (significand : Nat) (exponent : Int) : Except Fault Number :=
  match scale 5 significand.toUInt64.toFloat exponent with
  | none => .error .notJson
  | some x => .ok (.float (if negative then -x else x))

/-- An integer, if 64 bits hold it. Minus zero is a floating-point value. -/
def ofInteger (negative : Bool) (significand : Nat) : Number :=
  if !negative then .integer significand
  else if significand = 0 ∨ Nat.pow 2 63 < significand then .float (-significand.toUInt64.toFloat)
  else .integer (-(significand : Int))

/-- The exponent behind its mark. One past 32 bits makes the number zero or too large. -/
def readExponent (negative : Bool) (significand : Nat) (start : Int) (s : Bytes) :
    Except Fault (Number × Bytes) := do
  let (down, s) := match s with
    | b :: rest =>
      if b = octet '+' then (false, rest) else if b = octet '-' then (true, rest) else (false, s)
    | [] => (false, s)
  match s with
  | [] => .error .endOfInput
  | b :: _ =>
    if !isDigit b then .error .notJson
    else
      let digits := s.takeWhile isDigit
      let rest := s.dropWhile isDigit
      let size : Nat := digits.foldl (fun n d => n * 10 + (d.toNat - 48)) 0
      if size < Nat.pow 2 31 then
        let exponent := if down then start - size else start + size
        return (← ofParts negative significand exponent, rest)
      else if significand ≠ 0 ∧ !down then .error .notJson
      else return (.float (if negative then -0.0 else 0.0), rest)

/-- What follows the digits of a number, from the mark of the exponent on. -/
def readTail (negative : Bool) (significand : Nat) (exponent : Int) (s : Bytes)
    (whole : Option Number) : Except Fault (Number × Bytes) :=
  match s with
  | b :: rest =>
    if b = octet 'e' ∨ b = octet 'E' then readExponent negative significand exponent rest
    else match whole with
      | some n => .ok (n, s)
      | none => do return (← ofParts negative significand exponent, s)
  | [] =>
    match whole with
    | some n => .ok (n, s)
    | none => do return (← ofParts negative significand exponent, s)

/-- The fraction behind its point. It has at least one digit. -/
def readFraction (negative : Bool) (significand : Nat) (exponent : Int) (s : Bytes) :
    Except Fault (Number × Bytes) :=
  let digits := s.takeWhile isDigit
  let rest := s.dropWhile isDigit
  match digits, rest with
  | [], [] => .error .endOfInput
  | [], _ :: _ => .error .notJson
  | _ :: _, _ =>
    let (collected, left) := collect significand digits
    readTail negative collected (exponent - ((digits.length - left : Nat) : Int)) rest none

/-- A number behind its sign. A leading zero stands alone. -/
def read (negative : Bool) (s : Bytes) : Except Fault (Number × Bytes) :=
  match s with
  | [] => .error .endOfInput
  | b :: more =>
    if !isDigit b then .error .notJson
    else if b = octet '0' ∧ more.head?.any isDigit then .error .notJson
    else
      let digits := s.takeWhile isDigit
      let rest := s.dropWhile isDigit
      let (significand, left) := collect 0 digits
      match rest with
      | p :: behind =>
        if p = octet '.' then readFraction negative significand left behind
        else readTail negative significand left rest
          (if left = 0 then some (ofInteger negative significand) else none)
      | [] =>
        readTail negative significand left rest
          (if left = 0 then some (ofInteger negative significand) else none)

def toFloat : Number → Float
  | .float x => x
  | .integer z => if z < 0 then -z.natAbs.toUInt64.toFloat else z.natAbs.toUInt64.toFloat

/-- The octets behind a number that nobody wants: its form is checked and its size is not. Here a
digit missing at the end of input counts as any other digit missing. -/
def skip (s : Bytes) : Except Fault Bytes :=
  let digits := s.takeWhile isDigit
  let rest := s.dropWhile isDigit
  let exponent (s : Bytes) : Except Fault Bytes :=
    match s with
    | b :: behind =>
      if b = octet 'e' ∨ b = octet 'E' then
        let unsigned := match behind with
          | sign :: r => if sign = octet '+' ∨ sign = octet '-' then r else behind
          | [] => behind
        if unsigned.head?.any isDigit then .ok (unsigned.dropWhile isDigit) else .error .notJson
      else .ok s
    | [] => .ok s
  if digits.isEmpty ∨ (digits.head? = some (octet '0') ∧ 1 < digits.length) then .error .notJson
  else
    match rest with
    | p :: behind =>
      if p = octet '.' then
        if behind.head?.any isDigit then exponent (behind.dropWhile isDigit) else .error .notJson
      else exponent rest
    | [] => .ok rest

end Number

end HttpExchange.Json
