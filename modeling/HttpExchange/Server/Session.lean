import HttpExchange.Server.Connection

/-! # Sessions with a server

A session is a connection on a clock. What the peer sends is there at once and is read in pieces
of limited size; the time for a request runs from the opening of the connection or from the
response before it. -/

namespace HttpExchange.Server

/-- A connection, the clock in milliseconds, and the time at which the current request is due. -/
structure Session where
  connection : Connection
  now : Nat
  due : Nat
  deriving DecidableEq, Repr

inductive Step where
  | send (octets : Bytes)
  | advance (millis : Nat)
  | shutdown
  deriving DecidableEq, Repr

/-- The octets in pieces of at most `size`; `fuel` bounds their number. -/
def pieces (size : Nat) : Nat → Bytes → List Bytes
  | 0, _ => []
  | fuel + 1, b => if b.isEmpty then [] else b.take size :: pieces size fuel (b.drop size)

namespace Session

/-- The time is up if the clock has reached it. -/
def settle (limits : Limits) (app : Request → Response) (s : Session) : List Write × Session :=
  if s.due ≤ s.now then
    let (written, connection) := s.connection.step limits (fun _ => app) [] .expiry
    (written, { s with connection := connection })
  else ([], s)

def opened (limits : Limits) (app : Request → Response) : Session :=
  (settle limits app ⟨.opened, 0, limits.requestTimeoutMillis⟩).2

/-- One read; a response restarts the time. -/
def read (limits : Limits) (app : Request → Response) (s : Session) (octets : Bytes) :
    List Write × Session :=
  let (written, connection) := s.connection.step limits (fun _ => app) [] (.octets octets)
  (written,
    { s with
      connection := connection
      due := if written.isEmpty then s.due else s.now + limits.requestTimeoutMillis })

def readAll (limits : Limits) (app : Request → Response) :
    Session → List Bytes → List Write × Session
  | s, [] => ([], s)
  | s, b :: rest =>
    let (written, s) := s.read limits app b
    let (later, s) := readAll limits app s rest
    (written ++ later, s)

/-- What is written upon a step of the peer, until the server waits again. -/
def step (limits : Limits) (app : Request → Response) (s : Session) :
    Step → List Write × Session
  | .send octets =>
    let (written, s) :=
      readAll limits app s (pieces limits.readSize octets.length octets)
    let (later, s) := s.settle limits app
    (written ++ later, s)
  | .advance millis => settle limits app { s with now := s.now + millis }
  | .shutdown =>
    let (written, connection) := s.connection.step limits (fun _ => app) [] .endOfInput
    (written, { s with connection := connection })

end Session

end HttpExchange.Server
