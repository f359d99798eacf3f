import HttpExchange.Text.Numeral

/-! # Response status -/

namespace HttpExchange

/-- The statuses that a server of this library can answer with. -/
inductive Status where
  | ok
  | noContent
  | badRequest
  | methodNotAllowed
  | requestTimeout
  | payloadTooLarge
  deriving DecidableEq, Repr

namespace Status

def code : Status → Nat
  | ok => 200
  | noContent => 204
  | badRequest => 400
  | methodNotAllowed => 405
  | requestTimeout => 408
  | payloadTooLarge => 413

def reason : Status → Text
  | ok => "OK".toList
  | noContent => "No Content".toList
  | badRequest => "Bad Request".toList
  | methodNotAllowed => "Method Not Allowed".toList
  | requestTimeout => "Request Timeout".toList
  | payloadTooLarge => "Payload Too Large".toList

def render (s : Status) : Text := Numeral.ofNat s.code ++ ' ' :: s.reason

theorem render_injective {s t : Status} (h : s.render = t.render) : s = t := by
  cases s <;> cases t <;> first | rfl | exact absurd h (by decide)

end Status

end HttpExchange
