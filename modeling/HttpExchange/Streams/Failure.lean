import HttpExchange.Text.Numeral

/-! # Failures of exchanges

Why an exchange has no response, or could not be opened, and what is said of it. -/

namespace HttpExchange.Streams

/-- The kinds of faults that can end a connection. -/
inductive CauseKind where
  | connectionReset
  | connectionRefused
  | brokenPipe
  | unexpectedEof
  | timedOut
  | other
  deriving DecidableEq, Repr

def CauseKind.description : CauseKind → Text
  | connectionReset => "connection reset".toList
  | connectionRefused => "connection refused".toList
  | brokenPipe => "broken pipe".toList
  | unexpectedEof => "unexpected end of file".toList
  | timedOut => "timed out".toList
  | other => "other error".toList

/-- The fault that ended a connection. -/
structure Cause where
  kind : CauseKind
  text : Option Text
  deriving DecidableEq, Repr

def Cause.message (c : Cause) : Text := c.text.getD c.kind.description

/-- Why an exchange fails or cannot be opened. -/
inductive Failure where
  /-- The peer's settings are not known yet. -/
  | notReady
  /-- The peer's settings were waited for too long. -/
  | settingsTimeout
  /-- The connection has failed before. -/
  | closed
  /-- No identifier is left. -/
  | idsExhausted
  /-- The peer admits no further exchange at this time. -/
  | tooMany (max : UInt32)
  /-- The response was waited for too long. -/
  | timeout
  /-- The exchange was given up. -/
  | cancelled
  /-- The connection failed while the exchange was open. -/
  | connection (cause : Cause)
  deriving DecidableEq, Repr

def Failure.message : Failure → Text
  | notReady => "connection settings have not been received yet".toList
  | settingsTimeout => "timed out waiting for connection settings".toList
  | closed => "connection is closed".toList
  | idsExhausted => "stream ids exhausted on this connection".toList
  | tooMany max =>
    "peer allows at most ".toList ++ Numeral.ofNat max.toNat ++ " concurrent streams".toList
  | timeout => "timed out waiting for the response".toList
  | cancelled => "exchange was cancelled".toList
  | connection cause => "connection failed: ".toList ++ cause.message

end HttpExchange.Streams
