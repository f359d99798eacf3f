import HttpExchange.Cookie.Basic
import HttpExchange.Http.Headers
import HttpExchange.Http.Status
import HttpExchange.Text.Utf8

/-! # Responses

A response is built up field by field and written with the fields that frame it: a content type if
there is a body and none was given, then the fate of the connection, then the length. -/

namespace HttpExchange

/-- A response that is still without its framing fields. -/
structure Response where
  status : Status
  headers : Headers
  body : Bytes
  keepAlive : Bool
  deriving DecidableEq, Repr

namespace Response

/-- No fields, no body, and the connection stays open. -/
def new (status : Status) : Response := ⟨status, .empty, [], true⟩

def withHeader (r : Response) (name value : Text) : Response :=
  { r with headers := r.headers.insert name value }

/-- One more cookie; one whose name is no token is not sent. -/
def withCookie (r : Response) (c : Cookie) : Response :=
  if c.hasValidName then r.withHeader "Set-Cookie".toList c.render else r

def withBody (r : Response) (body : Bytes) : Response := { r with body := body }

def withText (r : Response) (text : Text) : Response := r.withBody (Utf8.encode text)

/-- The response with or without an open connection behind it. -/
def withKeepAlive (r : Response) (keepAlive : Bool) : Response := { r with keepAlive := keepAlive }

/-- The fields with the two that are added in front of the length. -/
def framedHeaders (r : Response) : Headers :=
  let typed :=
    if !r.body.isEmpty && !r.headers.contains "content-type".toList then
      r.headers.insert "Content-Type".toList "text/plain; charset=utf-8".toList
    else r.headers
  typed.insert "Connection".toList (if r.keepAlive then "keep-alive" else "close").toList

def head (r : Response) : Text :=
  "HTTP/1.1 ".toList ++ r.status.render ++ "\r\n".toList ++ r.framedHeaders.render ++
    "Content-Length: ".toList ++ Numeral.ofNat r.body.length ++ "\r\n\r\n".toList

def toBytes (r : Response) : Bytes := Utf8.encode r.head ++ r.body

end Response

end HttpExchange
