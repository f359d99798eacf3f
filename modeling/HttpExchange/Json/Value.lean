import HttpExchange.Decimal.Style
import HttpExchange.Json.Number
import HttpExchange.Json.Quoted
import HttpExchange.Json.Sequence

/-! # Values

A value of any shape, its reader, its writer, and the reader that only skips a value. Reading
admits a bounded nesting and skipping any. -/

namespace HttpExchange.Json

/-- A JSON value. Members keep the order of their first appearance. -/
inductive Value where
  | null
  | boolean (value : Bool)
  | number (value : Number)
  | text (value : Text)
  | list (elements : List Value)
  | object (members : List (Text × Value))

/-- How deep lists and objects may be nested. -/
def maxDepth : Nat := 127

/-- A member is set; one of the same name gives way in its place. -/
def setMember (name : Text) (value : Value) : List (Text × Value) → List (Text × Value)
  | [] => [(name, value)]
  | (n, v) :: rest =>
    if n = name then (n, value) :: rest else (n, v) :: setMember name value rest

namespace Value

/-- A value, with room for `depth` more levels of nesting. -/
def read (depth : Nat) (s : Bytes) : Except Fault (Value × Bytes) :=
  match skipSpace s with
  | [] => .error .endOfInput
  | b :: rest =>
    if b = octet 'n' then do
      return (.null, ← expectWord [117, 108, 108] rest)
    else if b = octet 't' then do
      return (.boolean true, ← expectWord [114, 117, 101] rest)
    else if b = octet 'f' then do
      return (.boolean false, ← expectWord [97, 108, 115, 101] rest)
    else if b = octet '-' then do
      let (n, rest) ← Number.read true rest
      return (.number n, rest)
    else if isDigit b then do
      let (n, rest) ← Number.read false (b :: rest)
      return (.number n, rest)
    else if b = octet '"' then do
      let (t, rest) ← Quoted.read rest
      return (.text t, rest)
    else if b = octet '[' then
      match depth with
      | 0 => .error .notJson
      | depth + 1 => do
        let element (taken : List Value) (s : Bytes) : Except Fault (List Value × Bytes) := do
          let (value, rest) ← read depth s
          return (value :: taken, rest)
        let (taken, rest) ← foldElements element (rest.length + 1) true [] rest
        return (.list taken.reverse, rest)
    else if b = octet '\x7b' then
      match depth with
      | 0 => .error .notJson
      | depth + 1 => do
        let member (taken : List (Text × Value)) (s : Bytes) :
            Except Fault (List (Text × Value) × Bytes) := do
          let (name, rest) ← Quoted.read s
          let (value, rest) ← read depth (← expectColon rest)
          return (setMember name value taken, rest)
        let (members, rest) ← foldMembers member (rest.length + 1) true [] rest
        return (.object members, rest)
    else .error .notJson

/-- The octets behind a value that nobody wants. Each level takes an octet, so `levels` beyond
their number is never used up. -/
def skip (levels : Nat) (s : Bytes) : Except Fault Bytes :=
  match skipSpace s with
  | [] => .error .endOfInput
  | b :: rest =>
    if b = octet 'n' then expectWord [117, 108, 108] rest
    else if b = octet 't' then expectWord [114, 117, 101] rest
    else if b = octet 'f' then expectWord [97, 108, 115, 101] rest
    else if b = octet '-' then Number.skip rest
    else if isDigit b then Number.skip (b :: rest)
    else if b = octet '"' then Quoted.skip rest
    else if b = octet '[' then
      match levels with
      | 0 => .error .endOfInput
      | levels + 1 => do
        let element (_ : Unit) (s : Bytes) : Except Fault (Unit × Bytes) := do
          return ((), ← skip levels s)
        let (_, rest) ← foldElements element (rest.length + 1) true () rest
        return rest
    else if b = octet '\x7b' then
      match levels with
      | 0 => .error .endOfInput
      | levels + 1 => do
        let member (_ : Unit) (s : Bytes) : Except Fault (Unit × Bytes) := do
          return ((), ← skip levels (← expectColon (← Quoted.skip s)))
        let (_, rest) ← foldMembers member (rest.length + 1) true () rest
        return rest
    else .error .notJson

/-- The fault of a value that is not of the wanted shape. A list or an object is refused at its
first octet, any other value after it was read. -/
def refuse (s : Bytes) : Fault :=
  match skipSpace s with
  | [] => .endOfInput
  | b :: _ =>
    if b = octet '[' ∨ b = octet '\x7b' then .mismatch
    else match read 0 s with
      | .error fault => fault
      | .ok _ => .mismatch

def renderChar (c : Char) : Text :=
  if c = '"' ∨ c = '\\' then ['\\', c]
  else if c.toNat < 32 then
    "\\u00".toList ++ (if c.toNat < 16 then ['0'] else []) ++ Nat.toDigits 16 c.toNat
  else [c]

def renderText (t : Text) : Text := '"' :: t.flatMap renderChar ++ ['"']

/-- The value as a document without white space. -/
def render : Value → Text
  | .null => "null".toList
  | .boolean value => if value then "true".toList else "false".toList
  | .number (.integer z) => Numeral.ofInt z
  | .number (.float x) => Decimal.Style.general.render x
  | .text t => renderText t
  | .list elements => '[' :: renderElements elements ++ [']']
  | .object members => '\x7b' :: renderMembers members ++ ['\x7d']
where
  /-- The elements of a list, with commas between them. -/
  renderElements : List Value → Text
    | [] => []
    | [value] => value.render
    | value :: rest => value.render ++ ',' :: renderElements rest
  /-- The members of an object, with commas between them. -/
  renderMembers : List (Text × Value) → Text
    | [] => []
    | [(name, value)] => renderText name ++ ':' :: value.render
    | (name, value) :: rest => renderText name ++ ':' :: value.render ++ ',' :: renderMembers rest

end Value

end HttpExchange.Json
