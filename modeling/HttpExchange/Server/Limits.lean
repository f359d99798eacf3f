import HttpExchange.Json.Record

/-! # Limits of a connection

How many octets one request may take, how long it may take to arrive, and how many octets are read
at a time, with the document that gives these limits. -/

namespace HttpExchange.Server

/-- The limits of a connection. -/
structure Limits where
  maxRequestBytes : Nat
  requestTimeoutMillis : Nat
  initialBufferBytes : Nat
  deriving DecidableEq, Repr

namespace Limits

/-- Eight mebibytes in half a minute, read four kibibytes at a time. -/
def standard : Limits := ⟨8 * 1024 * 1024, 30000, 4096⟩

/-- How many octets one read takes at most; a buffer of no size grows before it is used. -/
def readSize (l : Limits) : Nat := if l.initialBufferBytes = 0 then 64 else l.initialBufferBytes

theorem readSize_pos (l : Limits) : 0 < l.readSize := by
  unfold readSize
  split <;> omega

def field (name : String) (set : Limits → Nat → Limits) : Json.Field Limits :=
  ⟨name.toList, fun limits s => do
    let (z, rest) ← Json.readInteger 0 (Nat.pow 2 64) s
    return (set limits z.toNat, rest)⟩

def fields : List (Json.Field Limits) :=
  [field "max_request_bytes" fun l n => { l with maxRequestBytes := n },
    field "request_timeout_ms" fun l n => { l with requestTimeoutMillis := n },
    field "initial_buffer_bytes" fun l n => { l with initialBufferBytes := n }]

/-- The limits that a document gives; those that it misses are standard. -/
def ofJson (document : Text) : Except Json.Fault Limits :=
  Json.document (Json.Record.read fields false standard) (Utf8.encode document)

end Limits

end HttpExchange.Server
