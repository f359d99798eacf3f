import HttpExchange.Text.Numeral
import HttpExchange.Text.Split

/-! # Addresses to listen on

An address is a host, a colon and a port. The host is four numbers between dots or the name of
the local host. -/

namespace HttpExchange.Server

inductive AddressFault where
  | noPort
  | badPort
  | unknownHost
  deriving DecidableEq, Repr

def AddressFault.message : AddressFault → Text
  | noPort => "invalid socket address".toList
  | badPort => "invalid port value".toList
  | unknownHost => "failed to lookup address information: Name or service not known".toList

/-- A host by its four numbers, and a port. -/
structure Address where
  host : List Nat
  port : Nat
  deriving DecidableEq, Repr

namespace Address

/-- A number of a host: up to three digits, without leading zeros, below 256. -/
def hostPart? (s : Text) : Option Nat := do
  let n ← Numeral.natural? s
  if n < 256 ∧ Numeral.ofNat n = s then some n else none

def host? (s : Text) : Option (List Nat) := do
  if s = "localhost".toList then return [127, 0, 0, 1]
  let parts ← (Text.splitAll '.' s).mapM hostPart?
  if parts.length = 4 then some parts else none

/-- The address that a text shows. The port is behind the last colon. -/
def parse (s : Text) : Except AddressFault Address :=
  match Text.splitOnce? ':' s.reverse with
  | none => .error .noPort
  | some (port, host) =>
    match Numeral.unsigned? 16 port.reverse with
    | none => .error .badPort
    | some port =>
      match host? host.reverse with
      | none => .error .unknownHost
      | some host => .ok ⟨host, port⟩

def renderHost (a : Address) : Text := List.intercalate ['.'] (a.host.map Numeral.ofNat)

def faultMessage (s : Text) (fault : AddressFault) : Text :=
  "failed to bind to ".toList ++ s ++ ": ".toList ++ fault.message

end Address

end HttpExchange.Server
