import HttpExchange.Text.Basic

/-! # Decimal numerals

A numeral is an optional sign and at least one ASCII digit, with nothing around it. A reader has a
range: a numeral outside it is refused, however it is spelt. -/

namespace HttpExchange.Numeral

/-- The number that a non-empty row of digits denotes. -/
def natural? (s : Text) : Option Nat :=
  if !s.isEmpty && s.all Char.isDigit then some (Nat.ofDigitChars 10 s 0) else none

/-- A number of `bits` bits; a plus sign may lead. -/
def unsigned? (bits : Nat) (s : Text) : Option Nat := do
  let n ← natural? (match s with
    | '+' :: digits => digits
    | digits => digits)
  if n < Nat.pow 2 bits then some n else none

/-- An integer of any size; a plus or a minus sign may lead. -/
def integer? (s : Text) : Option Int :=
  match s with
  | '-' :: digits => (natural? digits).map Int.negOfNat
  | '+' :: digits => (natural? digits).map Int.ofNat
  | digits => (natural? digits).map Int.ofNat

/-- An integer in the range of 64-bit signed words. -/
def signed? (s : Text) : Option Int64 :=
  (integer? s).bind fun z =>
    if -Nat.pow 2 63 ≤ z ∧ z < Nat.pow 2 63 then some (Int64.ofInt z) else none

def ofNat (n : Nat) : Text := Nat.toDigits 10 n

/-- The digits of a number, after a minus sign if it is negative. -/
def ofInt (z : Int) : Text := if z < 0 then '-' :: ofNat z.natAbs else ofNat z.natAbs

theorem ofNat_ne_nil (n : Nat) : ofNat n ≠ [] := Nat.toDigits_ne_nil

theorem isDigit_of_mem_ofNat {n : Nat} {c : Char} (h : c ∈ ofNat n) : c.isDigit = true :=
  Nat.isDigit_of_mem_toDigits (by decide) (by decide) h

/-- Reading undoes writing. -/
@[simp] theorem natural?_ofNat (n : Nat) : natural? (ofNat n) = some n := by
  rw [natural?, if_pos, ofNat, Nat.ofDigitChars_ten_toDigits]
  simp only [Bool.and_eq_true, Bool.not_eq_true', List.isEmpty_eq_false_iff, List.all_eq_true]
  exact ⟨ofNat_ne_nil n, fun _ => isDigit_of_mem_ofNat⟩

/-- The digits of a number begin with no sign. -/
theorem ofNat_ne_cons {n : Nat} {c : Char} {rest : Text} (hc : c.isDigit = false) :
    ofNat n ≠ c :: rest := by
  intro h
  have := isDigit_of_mem_ofNat (n := n) (c := c) (by simp [h])
  simp [hc] at this

/-- Every integer is read back. -/
@[simp] theorem integer?_ofInt (z : Int) : integer? (ofInt z) = some z := by
  unfold ofInt
  split
  · have hz : -((z.natAbs : Nat) : Int) = z := by omega
    rw [integer?, natural?_ofNat, Option.map_some, Int.negOfNat_eq, Int.ofNat_eq_natCast, hz]
  · have hz : ((z.natAbs : Nat) : Int) = z := by omega
    unfold integer?
    split
    · rename_i h
      exact absurd h (ofNat_ne_cons (by decide))
    · rename_i h
      exact absurd h (ofNat_ne_cons (by decide))
    · rw [natural?_ofNat, Option.map_some, Int.ofNat_eq_natCast, hz]

/-- Every 64-bit signed number is read back. -/
theorem signed?_ofInt (z : Int64) : signed? (ofInt z.toInt) = some z := by
  rw [signed?, integer?_ofInt, Option.bind_some, if_pos ⟨z.le_toInt, z.toInt_lt⟩,
    Int64.ofInt_toInt]

end HttpExchange.Numeral
