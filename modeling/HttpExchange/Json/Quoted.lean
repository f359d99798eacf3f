import HttpExchange.Json.Basic

/-! # Strings

A string stands between double quotes. Control characters must be escaped, an escape of a high
surrogate must be followed by one of a low surrogate, and the octets as a whole must be UTF-8,
which is judged at the closing quote. -/

namespace HttpExchange.Json.Quoted

def hexDigit? (b : UInt8) : Option Nat :=
  if octet '0' ≤ b ∧ b ≤ octet '9' then some (b.toNat - 48)
  else if octet 'a' ≤ b ∧ b ≤ octet 'f' then some (b.toNat - 87)
  else if octet 'A' ≤ b ∧ b ≤ octet 'F' then some (b.toNat - 55)
  else none

def readHex : Reader Nat
  | a :: b :: c :: d :: rest =>
    match hexDigit? a, hexDigit? b, hexDigit? c, hexDigit? d with
    | some a, some b, some c, some d => .ok (((a * 16 + b) * 16 + c) * 16 + d, rest)
    | _, _, _, _ => .error .notJson
  | _ => .error .endOfInput

/-- The low surrogate that has to follow a high one. -/
def readLow : Reader Nat
  | [] => .error .endOfInput
  | b :: rest =>
    if b ≠ octet '\\' then .error .notJson
    else match rest with
      | [] => .error .endOfInput
      | u :: rest =>
        if u ≠ octet 'u' then .error .notJson
        else do
          let (low, rest) ← readHex rest
          if 0xDC00 ≤ low ∧ low < 0xE000 then return (low, rest) else .error .notJson

/-- A character by its code units, each in four hexadecimal digits. -/
def readUnits (s : Bytes) : Except Fault (Bytes × Bytes) := do
  let (unit, rest) ← readHex s
  if 0xDC00 ≤ unit ∧ unit < 0xE000 then .error .notJson
  else if 0xD800 ≤ unit ∧ unit < 0xDC00 then
    let (low, rest) ← readLow rest
    return (Utf8.encodeScalar ((unit - 0xD800) * 1024 + (low - 0xDC00) + 0x10000), rest)
  else return (Utf8.encodeScalar unit, rest)

/-- The octet that a one-letter escape stands for. -/
def letter? (b : UInt8) : Option UInt8 :=
  if b = octet '"' ∨ b = octet '\\' ∨ b = octet '/' then some b
  else if b = octet 'b' then some 8
  else if b = octet 'f' then some 12
  else if b = octet 'n' then some 10
  else if b = octet 'r' then some 13
  else if b = octet 't' then some 9
  else none

def readEscape : Reader Bytes
  | [] => .error .endOfInput
  | b :: rest =>
    match letter? b with
    | some value => .ok ([value], rest)
    | none => if b = octet 'u' then readUnits rest else .error .notJson

/-- The octets up to the closing quote, escapes resolved by `escape`. Each step takes an octet, so
`fuel` beyond their number is never used up. -/
def readOctets (escape : Reader Bytes) : Nat → Bytes → Reader Bytes
  | 0, _, _ => .error .endOfInput
  | _ + 1, _, [] => .error .endOfInput
  | fuel + 1, taken, b :: rest =>
    if b = octet '"' then .ok (taken.reverse, rest)
    else if b = octet '\\' then do
      let (octets, rest) ← escape rest
      readOctets escape fuel (octets.reverse ++ taken) rest
    else if b < 32 then .error .notJson
    else readOctets escape fuel (b :: taken) rest

/-- A string behind its opening quote. -/
def read (s : Bytes) : Except Fault (Text × Bytes) := do
  let (octets, rest) ← readOctets readEscape (s.length + 1) [] s
  match Utf8.decode? octets with
  | some text => return (text, rest)
  | none => .error .notJson

/-- The octets behind an escape that nobody wants. -/
def skipEscape : Reader Bytes
  | [] => .error .endOfInput
  | b :: rest =>
    if (letter? b).isSome then .ok ([], rest)
    else if b = octet 'u' then do
      let (_, rest) ← readHex rest
      return ([], rest)
    else .error .notJson

/-- The octets behind a string that nobody wants. Surrogates and UTF-8 are not looked at. -/
def skip (s : Bytes) : Except Fault Bytes := do
  let (_, rest) ← readOctets skipEscape (s.length + 1) [] s
  return rest

end HttpExchange.Json.Quoted
