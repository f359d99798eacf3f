import HttpExchange.Json.Value

/-! # Records

A record is read from an object by the names of its fields or from a list by their order. Unknown
names are skipped and a repeated one is refused. A list may not be longer than the record. -/

namespace HttpExchange.Json

def readText (s : Bytes) : Except Fault (Text × Bytes) :=
  match skipSpace s with
  | [] => .error .endOfInput
  | b :: rest => if b = octet '"' then Quoted.read rest else .error (Value.refuse (b :: rest))

def readNumber (s : Bytes) : Except Fault (Number × Bytes) :=
  match skipSpace s with
  | [] => .error .endOfInput
  | b :: rest =>
    if b = octet '-' then Number.read true rest
    else if isDigit b then Number.read false (b :: rest)
    else .error (Value.refuse (b :: rest))

/-- The integer at the front, from `least` to below `bound`. -/
def readInteger (least bound : Int) (s : Bytes) : Except Fault (Int × Bytes) := do
  match ← readNumber s with
  | (.integer z, rest) => if least ≤ z ∧ z < bound then return (z, rest) else .error .mismatch
  | (.float _, _) => .error .mismatch

def readIntegers (s : Bytes) : Except Fault (List Int × Bytes) :=
  match skipSpace s with
  | [] => .error .endOfInput
  | b :: rest =>
    if b = octet '[' then do
      let element (taken : List Int) (s : Bytes) : Except Fault (List Int × Bytes) := do
        let (z, rest) ← readInteger (-Nat.pow 2 63) (Nat.pow 2 63) s
        return (z :: taken, rest)
      let (taken, rest) ← foldElements element (rest.length + 1) true [] rest
      return (taken.reverse, rest)
    else .error (Value.refuse (b :: rest))

/-- A field of a record `σ`: its name and how it is read into the record. -/
structure Field (σ : Type) where
  name : Text
  read : σ → Reader σ

namespace Record

variable {σ : Type}

/-- One member behind the quote of its name, with the names of the fields read before. -/
def readMember (fields : List (Field σ)) (state : σ × List Text) (s : Bytes) :
    Except Fault ((σ × List Text) × Bytes) := do
  let (name, rest) ← Quoted.read s
  match fields.find? fun field => field.name == name with
  | none => return (state, ← Value.skip rest.length (← expectColon rest))
  | some field =>
    if state.2.contains name then .error .mismatch
    else
      let (record, rest) ← field.read state.1 (← expectColon rest)
      return ((record, name :: state.2), rest)

/-- The elements of a list for the fields in order; the fields that are left over. -/
def readElements : List (Field σ) → Bool → σ → Reader (σ × List (Field σ))
  | [], _, record, s => .ok ((record, []), s)
  | field :: fields, first, record, s =>
    match skipSpace s with
    | [] => .error .endOfInput
    | b :: rest =>
      if b = octet ']' then .ok ((record, field :: fields), b :: rest)
      else if first then do
        let (record, rest) ← field.read record (b :: rest)
        readElements fields false record rest
      else if b = octet ',' then
        match skipSpace rest with
        | [] => .error .endOfInput
        | c :: rest =>
          if c = octet ']' then .error .notJson
          else do
            let (record, rest) ← field.read record (c :: rest)
            readElements fields false record rest
      else .error .notJson

/-- The record at the front. Fields that are missing keep what `initial` has for them, or are a
mismatch if all are required. -/
def read (fields : List (Field σ)) (required : Bool) (initial : σ) (s : Bytes) :
    Except Fault (σ × Bytes) :=
  match skipSpace s with
  | [] => .error .endOfInput
  | b :: rest =>
    if b = octet '[' then do
      let ((record, missing), rest) ← readElements fields true initial rest
      if required && !missing.isEmpty then .error .mismatch
      else return (record, ← closeList rest)
    else if b = octet '\x7b' then do
      let ((record, names), rest) ←
        foldMembers (readMember fields) (rest.length + 1) true (initial, []) rest
      if required && names.length < fields.length then .error .mismatch
      else return (record, rest)
    else .error (Value.refuse (b :: rest))

end Record

end HttpExchange.Json
