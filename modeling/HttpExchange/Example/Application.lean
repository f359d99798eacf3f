import HttpExchange.Http.Request
import HttpExchange.Http.Response

/-! # An example application

A small application that uses every part of a response: cookies, documents, bodies of octets and
the end of a connection; and a record with one required field, as one would be read from a body. -/

namespace HttpExchange.Example

structure Account where
  name : Text
  deriving DecidableEq, Repr

def Account.read (s : Bytes) : Except Json.Fault (Account × Bytes) :=
  let name : Json.Field Account :=
    ⟨"name".toList, fun _ s => do
      let (text, rest) ← Json.readText s
      return (⟨text⟩, rest)⟩
  Json.Record.read [name] true ⟨[]⟩ s

def sessionCookie : Cookie :=
  (((Cookie.new "sid".toList "abc123".toList).withPath "/".toList).withHttpOnly true).withSameSite
    .lax

/-- The sum of the integers in the body, as a document. -/
def sum (r : Request) : Response :=
  match r.json Json.readIntegers with
  | .ok integers =>
    ((Response.new .ok).withHeader "Content-Type".toList "application/json".toList).withText
      (Numeral.ofInt (integers.foldr (· + ·) 0))
  | .error _ => Response.new .badRequest

def application (r : Request) : Response :=
  match r.method with
  | .get =>
    if r.path = "/login".toList then
      ((Response.new .ok).withCookie sessionCookie).withText "welcome".toList
    else if r.path = "/bye".toList then
      ((Response.new .ok).withKeepAlive false).withText "bye".toList
    else if r.path = "/none".toList then Response.new .noContent
    else (Response.new .ok).withText (r.path ++ '?' :: r.query?.getD [])
  | .post => if r.path = "/sum".toList then sum r else Response.new .methodNotAllowed
  | .put =>
    ((Response.new .ok).withHeader "X-Path".toList r.path).withBody r.payload
  | _ => Response.new .methodNotAllowed

end HttpExchange.Example
