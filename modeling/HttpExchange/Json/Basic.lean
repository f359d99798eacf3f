import HttpExchange.Text.Utf8

/-! # Reading JSON from the left

A reader takes octets and gives what it read with the octets behind it. It stops at the first
fault, and the kind of fault depends on nothing behind that place. -/

namespace HttpExchange.Json

inductive Fault where
  /-- The octets end before the document does. -/
  | endOfInput
  /-- No document continues like this. -/
  | notJson
  /-- A document, as far as it was read, but not of the wanted shape. -/
  | mismatch
  deriving DecidableEq, Repr

/-- Reads a value at the front of octets and gives the octets behind it. -/
abbrev Reader (α : Type) : Type := Bytes → Except Fault (α × Bytes)

def isSpace (b : UInt8) : Bool := b == 32 || b == 9 || b == 10 || b == 13

/-- The octets from the next token on. -/
def skipSpace (s : Bytes) : Bytes := s.dropWhile isSpace

def octet (c : Char) : UInt8 := c.toNat.toUInt8

def isDigit (b : UInt8) : Bool := octet '0' ≤ b && b ≤ octet '9'

/-- The octets behind a word, which is compared octet by octet. -/
def expectWord : Bytes → Bytes → Except Fault Bytes
  | [], s => .ok s
  | _ :: _, [] => .error .endOfInput
  | w :: word, b :: s => if b = w then expectWord word s else .error .notJson

/-- The octets behind the colon between a name and its value. -/
def expectColon (s : Bytes) : Except Fault Bytes :=
  match skipSpace s with
  | [] => .error .endOfInput
  | b :: rest => if b = octet ':' then .ok rest else .error .notJson

/-- A whole document: nothing but white space may follow. -/
def document {α : Type} (read : Reader α) (s : Bytes) : Except Fault α := do
  let (a, rest) ← read s
  if (skipSpace rest).isEmpty then .ok a else .error .notJson

end HttpExchange.Json
