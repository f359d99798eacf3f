import HttpExchange.Streams.Failure

/-! # The table of exchanges

Many requests share one connection, each under an identifier of its own. The table hands out the
identifiers once the peer's settings are known, keeps a mailbox for each exchange whose handle is
still held, and puts the response or the failure into it. What is in a mailbox stays. -/

namespace HttpExchange.Streams

/-- What the peer has announced. -/
structure PeerSettings where
  /-- How many exchanges the peer admits at a time, if it has said so. -/
  maxConcurrent : Option UInt32
  deriving DecidableEq, Repr

/-- Whether exchanges may be opened. -/
inductive Barrier where
  | pending
  | ready (settings : PeerSettings)
  | closed
  deriving DecidableEq, Repr

/-- What has come for an exchange. -/
inductive Mailbox (π : Type) where
  /-- Nothing yet. -/
  | waiting
  /-- A response or a failure. -/
  | filled (result : Except Failure π)
  /-- Nothing, and nothing can come any more. -/
  | severed

namespace Mailbox

variable {π : Type}

def isWaiting : Mailbox π → Bool
  | waiting => true
  | _ => false

/-- The mailbox after `state` comes; what has come before stays. -/
def put (m : Mailbox π) (state : Mailbox π) : Mailbox π := if m.isWaiting then state else m

theorem put_of_not_isWaiting {m : Mailbox π} (h : m.isWaiting = false) (state : Mailbox π) :
    m.put state = m := by simp [put, h]

end Mailbox

/-- All exchanges of a connection, the newest first, each with its mailbox. -/
structure Table (π : Type) where
  nextId : Nat
  exchanges : List (Nat × Mailbox π)
  closed : Bool
  barrier : Barrier

namespace Table

variable {π : Type}

/-- The first identifier; the one below it is reserved. -/
def firstId : Nat := 3

/-- The greatest identifier that a client may use. -/
def maxId : Nat := 0x7FFFFFFF

def empty : Table π := ⟨firstId, [], false, .pending⟩

/-- The identifiers of the exchanges that still wait. -/
def pending (t : Table π) : List Nat :=
  (t.exchanges.filter fun entry => entry.2.isWaiting).map Prod.fst

def pendingCount (t : Table π) : Nat := t.pending.length

/-- The mailbox of an exchange whose handle is held. -/
def mailbox? (t : Table π) (id : Nat) : Option (Mailbox π) := t.exchanges.lookup id

/-- The peer's settings arrive. Only the first time counts. -/
def settingsReceived (t : Table π) (settings : PeerSettings) : Table π :=
  match t.barrier with
  | .pending => { t with barrier := .ready settings }
  | _ => t

/-- Why no exchange can be opened now, if so. -/
def obstacle? (t : Table π) : Option Failure :=
  match t.barrier with
  | .pending => some .notReady
  | .closed => some .closed
  | .ready settings =>
    if t.closed then some .closed
    else match settings.maxConcurrent with
      | some max =>
        if max.toNat ≤ t.pendingCount then some (.tooMany max)
        else if maxId < t.nextId then some .idsExhausted else none
      | none => if maxId < t.nextId then some .idsExhausted else none

/-- A new exchange and its identifier. A failure changes nothing. -/
def allocate (t : Table π) : Except Failure (Nat × Table π) :=
  match t.obstacle? with
  | some failure => .error failure
  | none =>
    .ok (t.nextId,
      { t with nextId := t.nextId + 2, exchanges := (t.nextId, .waiting) :: t.exchanges })

/-- `state` comes for the exchange of an identifier. -/
def put (t : Table π) (id : Nat) (state : Mailbox π) : Table π :=
  { t with
    exchanges := t.exchanges.map fun entry =>
      if entry.1 = id then (entry.1, entry.2.put state) else entry }

def putAll (t : Table π) (state : Mailbox π) : Table π :=
  { t with exchanges := t.exchanges.map fun entry => (entry.1, entry.2.put state) }

def waits (t : Table π) (id : Nat) : Bool :=
  t.exchanges.any fun entry => entry.1 == id && entry.2.isWaiting

/-- The response of an exchange arrives; whether somebody waits for it. -/
def resolve (t : Table π) (id : Nat) (payload : π) : Bool × Table π :=
  (t.waits id, t.put id (.filled (.ok payload)))

/-- An exchange is given up; whether it was still waiting. -/
def cancel (t : Table π) (id : Nat) : Bool × Table π := (t.waits id, t.put id .severed)

/-- The connection fails, and with it all exchanges that still wait; their number. Only the first
time counts. -/
def failAll (t : Table π) (cause : Cause) : Nat × Table π :=
  if t.closed then (0, t)
  else
    (t.pendingCount,
      { t.putAll (.filled (.error (.connection cause))) with closed := true, barrier := .closed })

/-- The handle of an exchange is dropped, and its mailbox with it. -/
def release (t : Table π) (id : Nat) : Table π :=
  { t with exchanges := t.exchanges.filter fun entry => entry.1 != id }

/-- Nobody is left who could answer: nothing can come for the exchanges that still wait. -/
def sever (t : Table π) : Table π := t.putAll .severed

/-- What has come for a caller that waits for a response. -/
def received? (t : Table π) (id : Nat) : Option (Except Failure π) :=
  match t.mailbox? id with
  | some .waiting => none
  | some (.filled result) => some result
  | some .severed | none => some (.error .cancelled)

/-- One look of a caller that waits for a response, its time being up or not: what it gets, if
waiting ends, and the table without its handle. What has come wins over the time. -/
def poll (t : Table π) (id : Nat) (timeUp : Bool) : Option (Except Failure π × Table π) :=
  match t.received? id with
  | some result => some (result, t.release id)
  | none => if timeUp then some (.error .timeout, t.release id) else none

/-- One look of a caller that waits for the peer's settings, its time being up or not: what it
gets, if waiting ends. The table stays as it is. -/
def pollSettings (t : Table π) (timeUp : Bool) : Option (Except Failure PeerSettings) :=
  match t.barrier with
  | .ready settings => some (.ok settings)
  | .closed => some (.error .closed)
  | .pending => if timeUp then some (.error .settingsTimeout) else none

/-- What comes for one exchange changes no other. -/
theorem mailbox?_put (t : Table π) (id other : Nat) (state : Mailbox π) :
    (t.put id state).mailbox? other =
      (t.mailbox? other).map fun m => if other = id then m.put state else m := by
  unfold mailbox? put
  induction t.exchanges with
  | nil => rfl
  | cons entry entries ih =>
      obtain ⟨own, m⟩ := entry
      by_cases h : other = own
      · subst h
        by_cases hid : other = id <;> simp [hid]
      · have ho : (other == own) = false := by simpa using h
        by_cases hid : own = id
        · simp only [List.map_cons, hid, if_true, List.lookup_cons]
          rw [← hid, ho]
          simpa [hid] using ih
        · simp only [List.map_cons, hid, if_false, List.lookup_cons, ho]
          exact ih

theorem mailbox?_putAll (t : Table π) (id : Nat) (state : Mailbox π) :
    (t.putAll state).mailbox? id = (t.mailbox? id).map fun m => m.put state := by
  simp only [mailbox?, putAll]
  induction t.exchanges with
  | nil => rfl
  | cons entry entries ih =>
      obtain ⟨own, m⟩ := entry
      cases h : id == own <;> simp [List.lookup_cons, h, ih]

theorem mailbox?_release (t : Table π) (id other : Nat) :
    (t.release id).mailbox? other = if other = id then none else t.mailbox? other := by
  simp only [mailbox?, release]
  induction t.exchanges with
  | nil => simp
  | cons entry entries ih =>
      obtain ⟨own, m⟩ := entry
      by_cases ho : other = own
      · subst ho
        by_cases hid : other = id
        · simpa [hid] using ih
        · simp [hid]
      · have hne : (other == own) = false := by simpa using ho
        by_cases hid : own = id
        · simpa [hid, List.lookup_cons, hid ▸ hne] using ih
        · simpa [hid, List.lookup_cons, hne] using ih

end Table

def renderHandle (id : Nat) : Text :=
  "PendingStream \x7b id: ".toList ++ Numeral.ofNat id ++ " \x7d".toList

end HttpExchange.Streams
