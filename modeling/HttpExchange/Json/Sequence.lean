import HttpExchange.Json.Basic

/-! # Lists and objects

The parts of a list are separated by commas and end at a bracket, those of an object at a brace; a
comma before the end is a fault. What is done with a part is left to the caller, who folds over
the parts. Every step takes an octet, so fuel beyond their number is never used up. -/

namespace HttpExchange.Json

variable {σ : Type}

/-- Folds over the elements of a list behind its opening bracket. -/
def foldElements (element : σ → Reader σ) : Nat → Bool → σ → Reader σ
  | 0, _, _, _ => .error .endOfInput
  | fuel + 1, first, state, s =>
    match skipSpace s with
    | [] => .error .endOfInput
    | b :: rest =>
      if b = octet ']' then .ok (state, rest)
      else if first then do
        let (state, rest) ← element state (b :: rest)
        foldElements element fuel false state rest
      else if b = octet ',' then
        match skipSpace rest with
        | [] => .error .endOfInput
        | c :: rest =>
          if c = octet ']' then .error .notJson
          else do
            let (state, rest) ← element state (c :: rest)
            foldElements element fuel false state rest
      else .error .notJson

/-- Folds over the members of an object behind its opening brace. The caller reads a member from
behind the quote that opens its name. -/
def foldMembers (member : σ → Reader σ) : Nat → Bool → σ → Reader σ
  | 0, _, _, _ => .error .endOfInput
  | fuel + 1, first, state, s =>
    match skipSpace s with
    | [] => .error .endOfInput
    | b :: rest =>
      if b = octet '\x7d' then .ok (state, rest)
      else if first then
        if b = octet '"' then do
          let (state, rest) ← member state rest
          foldMembers member fuel false state rest
        else .error .notJson
      else if b = octet ',' then
        match skipSpace rest with
        | [] => .error .endOfInput
        | c :: rest =>
          if c = octet '"' then do
            let (state, rest) ← member state rest
            foldMembers member fuel false state rest
          else .error .notJson
      else .error .notJson

/-- The octets behind the bracket that has to close a list here. -/
def closeList (s : Bytes) : Except Fault Bytes :=
  match skipSpace s with
  | [] => .error .endOfInput
  | b :: rest => if b = octet ']' then .ok rest else .error .notJson

end HttpExchange.Json
