import HttpExchange.Backoff.Policy

/-! # Retrying

An operation is run until it succeeds or a policy says to stop. The policy is asked once after
each failure and never after a success, and it is not reset. Time is counted in nanoseconds:
attempts take their duration, and delays pass in full. -/

namespace HttpExchange.Retry

open Backoff (Arithmetic Decision Policy)

/-- One run of the operation: how long it takes and how it ends. -/
structure Attempt (ε α : Type) where
  duration : Nat
  outcome : Except ε α

/-- A campaign: its result, the starts of its attempts, the time at its end, and the policy it
leaves behind. There is no result if it needs more attempts than were given. -/
structure Campaign (π ε α : Type) where
  result : Option (Except ε α)
  starts : List Nat
  finished : Nat
  policy : π

variable {π ε α : Type}

def nanos (millis : Nat) : Nat := millis * 1000000

/-- The campaign that starts at time `now` and whose attempts end as listed. -/
def run (next : Nat → π → Decision × π) (now : Nat) (policy : π) :
    List (Attempt ε α) → Campaign π ε α
  | [] => ⟨none, [], now, policy⟩
  | attempt :: later =>
    let ended := now + attempt.duration
    match attempt.outcome with
    | .ok value => ⟨some (.ok value), [now], ended, policy⟩
    | .error e =>
      match next ended policy with
      | (.stop, policy) => ⟨some (.error e), [now], ended, policy⟩
      | (.retry delay, policy) =>
        let rest := run next (ended + delay.nanos) policy later
        { rest with starts := now :: rest.starts }

/-- What a clock of 64 bits shows; it stands still at its end. -/
def clockReading (now : Nat) : UInt64 := UInt64.ofNat (min now (Nat.pow 2 64 - 1))

/-- How an exponential policy decides on such a clock. -/
def exponential {σ : Type} [Arithmetic α] (draw : σ → α × σ) (now : Nat) (p : Policy α σ) :
    Decision × Policy α σ := p.next draw (clockReading now)

/-- A policy that hands out listed delays, in milliseconds, and then stops, with the number of
times it was asked. -/
structure Script where
  delays : List UInt64
  asked : Nat

def Script.next (s : Script) : Decision × Script :=
  ((s.delays[s.asked]?).elim .stop fun millis => .retry (.ofMillis millis),
    { s with asked := s.asked + 1 })

/-- The list from its start. -/
def Script.reset (s : Script) : Script := { s with asked := 0 }

end HttpExchange.Retry
