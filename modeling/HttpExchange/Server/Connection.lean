import HttpExchange.Http.Assembly
import HttpExchange.Http.Response
import HttpExchange.Server.Limits

/-! # Connections

A connection takes what is read from the wire and says what to write. One request is read at a
time; octets behind it open the next one. A request that is malformed, too large or too slow is
rejected, and a rejection ends the connection. -/

namespace HttpExchange.Server

/-- What can happen while a request is read. -/
inductive Event where
  /-- Octets arrive, at least one. -/
  | octets (b : Bytes)
  /-- The peer has stopped sending. -/
  | endOfInput
  /-- Reading has failed. -/
  | failure
  /-- The time for the request is up. -/
  | expiry
  deriving DecidableEq, Repr

/-- What is written. -/
inductive Write where
  /-- The response to a request. -/
  | response (request : Request) (response : Response)
  /-- The response to what is no acceptable request. -/
  | rejection (response : Response)
  deriving DecidableEq, Repr

def Write.toBytes : Write → Bytes
  | response _ r => r.toBytes
  | rejection r => r.toBytes

def Write.request? : Write → Option Request
  | response r _ => some r
  | rejection _ => none

/-- A handler answers a request in the light of the requests that it was given before. Whatever else
an answer may depend on, what it turns out to be on one connection is a function of these. -/
abbrev Handler := List Request → Request → Response

/-- A connection reads a request, with the octets received for it counted, or is closed. -/
inductive Connection where
  | reading (assembly : Assembly) (received : Nat)
  | closed
  deriving DecidableEq, Repr

/-- What is written before anything else. -/
def Write.before (w : Write) (out : List Write × Connection) : List Write × Connection :=
  (w :: out.1, out.2)

inductive Rejection where
  | malformed
  | tooLarge
  | tooSlow
  deriving DecidableEq, Repr

/-- What is answered to such a request. -/
def Rejection.response : Rejection → Response
  | malformed => ((Response.new .badRequest).withText "Bad Request".toList).withKeepAlive false
  | tooLarge =>
    ((Response.new .payloadTooLarge).withText "Request entity too large".toList).withKeepAlive false
  | tooSlow =>
    ((Response.new .requestTimeout).withText "Request timeout".toList).withKeepAlive false

namespace Connection

def opened : Connection := reading .empty 0

/-- A rejection is written, and the connection ends. -/
def reject (r : Rejection) : List Write × Connection := ([.rejection r.response], closed)

/-- The response of the application, which cannot keep open what the peer asked to close. -/
def respond (app : Request → Response) (request : Request) : Response :=
  if request.keepAlive then app request else (app request).withKeepAlive false

/-- What follows when no request is finished: more octets are waited for, unless none can help. -/
def await (a : Assembly) (received : Nat) : List Write × Connection :=
  if a.isMalformed then reject .malformed else ([], reading a received)

/-- The octets behind a finished request, with one for the request itself. -/
def remaining (a : Assembly) : Nat := (a.finish?.map fun taken => taken.2.length + 1).getD 0

theorem remaining_feed_lt {a : Assembly} {r : Request} {rest : Bytes}
    (h : a.finish? = some (r, rest)) : remaining (Assembly.empty.feed rest) < remaining a := by
  unfold remaining
  rw [h]
  cases hnext : (Assembly.empty.feed rest).finish? with
  | none => exact Nat.succ_pos _
  | some taken => exact Nat.succ_lt_succ (Assembly.finish?_feed_empty_length_lt hnext)

/-- What follows from an assembly that has taken octets: every request that they finish is answered
before the octets behind it are looked at, up to the first whose response ends the connection. -/
def answer (handler : Handler) (past : List Request) (a : Assembly) (received : Nat) :
    List Write × Connection :=
  match _finished : a.finish? with
  | none => await a received
  | some (request, rest) =>
    let response := respond (handler past) request
    if response.keepAlive then
      Write.before (.response request response)
        (answer handler (past ++ [request]) (Assembly.empty.feed rest) rest.length)
    else ([.response request response], closed)
termination_by remaining a
decreasing_by exact remaining_feed_lt ‹_›

/-- What follows from a read. The ceiling is checked before the octets are looked at. -/
def read (limits : Limits) (handler : Handler) (past : List Request) (a : Assembly)
    (received : Nat) (octets : Bytes) : List Write × Connection :=
  let received := received + octets.length
  if limits.maxRequestBytes < received then reject .tooLarge
  else answer handler past (a.feed octets) received

/-- What is written upon an event, and the connection behind it. -/
def step (limits : Limits) (handler : Handler) (past : List Request) (c : Connection)
    (e : Event) : List Write × Connection :=
  match c with
  | closed => ([], closed)
  | reading a received =>
    match e with
    | .octets b => if b.isEmpty then ([], closed) else read limits handler past a received b
    | .endOfInput | .failure => ([], closed)
    | .expiry => if received = 0 then ([], closed) else reject .tooSlow

/-- The requests that were passed to the handler. -/
def answered (written : List Write) : List Request := written.filterMap Write.request?

/-- What is written upon events one after the other, and the connection behind them. -/
def serve (limits : Limits) (handler : Handler) :
    List Request → Connection → List Event → List Write × Connection
  | _, c, [] => ([], c)
  | past, c, e :: events =>
    let (written, c) := c.step limits handler past e
    let (later, c) := serve limits handler (past ++ answered written) c events
    (written ++ later, c)

/-- The same with an application that does not remember. -/
def run (limits : Limits) (app : Request → Response) (c : Connection) (events : List Event) :
    List Write × Connection :=
  serve limits (fun _ => app) [] c events

def isClosed : Connection → Bool
  | closed => true
  | reading .. => false

end Connection

end HttpExchange.Server
