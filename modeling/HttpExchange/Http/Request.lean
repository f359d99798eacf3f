import HttpExchange.Http.Headers
import HttpExchange.Http.Method
import HttpExchange.Json.Record

/-! # Requests

A request as it stands once every octet of it has arrived, and what can be asked of it. -/

namespace HttpExchange

structure Request where
  method : Method
  target : Text
  version : Text
  headers : Headers
  body : Option Bytes
  deriving DecidableEq, Repr

namespace Request

/-- The one protocol version that is spoken. -/
def http11 : Text := "HTTP/1.1".toList

/-- The target before its first question mark, or all of it. -/
def path (r : Request) : Text :=
  match Text.splitOnce? '?' r.target with
  | some (path, _) => path
  | none => r.target

def query? (r : Request) : Option Text := (Text.splitOnce? '?' r.target).map Prod.snd

/-- The length that the first `Content-Length` field announces, if it is a number. -/
def contentLength? (r : Request) : Option Nat :=
  (r.headers.get? "content-length".toList).bind Headers.bodyLength?

/-- Whether no `Connection` field asks for the connection to be closed. -/
def keepAlive (r : Request) : Bool :=
  !(r.headers.getAll "connection".toList).any fun value => value.trim.sameLetters "close".toList

/-- The octets of the body, none if there is no body. -/
def payload (r : Request) : Bytes := r.body.getD []

/-- The body as a document of the shape that `read` accepts. Without a body this is the empty
document, which is no document of any shape. -/
def json {α : Type} (read : Json.Reader α) (r : Request) : Except Json.Fault α :=
  Json.document read r.payload

end Request

end HttpExchange
