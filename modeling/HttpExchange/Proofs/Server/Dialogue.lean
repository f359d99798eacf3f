import HttpExchange.Proofs.Server.Transcript
import Mathlib.Data.List.Induction

/-! # Dialogues

A dialogue is a connection with the log of all it does: what it reads, which requests it passes on
and what it writes, in that order. Its handler may remember, so that equal requests can have
different responses. A dialogue writes what the connection writes and leaves it where the connection
is left. -/

namespace HttpExchange.Server

/-- What a connection does, one thing after the other. -/
inductive Action where
  | read (e : Event)
  /-- A request is passed to the handler. -/
  | dispatch (r : Request)
  | write (w : Write)
  deriving DecidableEq, Repr

namespace Action

def event? : Action → Option Event
  | read e => some e
  | _ => none

def request? : Action → Option Request
  | dispatch r => some r
  | _ => none

def write? : Action → Option Write
  | write w => some w
  | _ => none

/-- The octets that an action takes from the wire. -/
def octets : Action → Bytes
  | read (.octets b) => b
  | _ => []

end Action

/-- What is done when something is written: a request is passed on right before its response. -/
def Write.actions : Write → List Action
  | response r w => [.dispatch r, .write (.response r w)]
  | rejection w => [.write (.rejection w)]

/-- A connection and all that it has done. -/
structure Dialogue where
  log : List Action
  connection : Connection
  deriving DecidableEq, Repr

namespace Dialogue

open Connection (answered reject respond serve)

/-! ## What a log tells -/

def events (log : List Action) : List Event := log.filterMap Action.event?

def dispatched (log : List Action) : List Request := log.filterMap Action.request?

def written (log : List Action) : List Write := log.filterMap Action.write?

def octets (log : List Action) : Bytes := log.flatMap Action.octets

/-! ## The run -/

/-- The log goes on with what is written, and the connection is left as it is then. -/
def tell (log : List Action) (out : List Write × Connection) : Dialogue :=
  ⟨log ++ out.1.flatMap Write.actions, out.2⟩

/-- What follows from an event; a closed connection does nothing more. -/
def step (limits : Limits) (handler : Handler) (d : Dialogue) (e : Event) : Dialogue :=
  match d.connection with
  | .closed => d
  | .reading a received =>
    tell (d.log ++ [.read e])
      (Connection.step limits handler (dispatched d.log) (.reading a received) e)

/-- The dialogue of a connection from its opening on. -/
def run (limits : Limits) (handler : Handler) (events : List Event) : Dialogue :=
  events.foldl (step limits handler) ⟨[], .opened⟩

theorem run_concat (limits : Limits) (handler : Handler) (events : List Event) (e : Event) :
    run limits handler (events ++ [e]) = (run limits handler events).step limits handler e := by
  simp [run]

/-- A request is passed on, and its response is written. -/
def exchange (handler : Handler) (log : List Action) (r : Request) : List Action :=
  [.dispatch r, .write (.response r (respond (handler (dispatched log)) r))]

@[simp] theorem written_append (log more : List Action) :
    written (log ++ more) = written log ++ written more := List.filterMap_append

@[simp] theorem events_append (log more : List Action) :
    events (log ++ more) = events log ++ events more := List.filterMap_append

@[simp] theorem dispatched_append (log more : List Action) :
    dispatched (log ++ more) = dispatched log ++ dispatched more := List.filterMap_append

theorem dispatched_read (log : List Action) (e : Event) :
    dispatched (log ++ [.read e]) = dispatched log := by
  rw [dispatched_append]
  exact List.append_nil _

@[simp] theorem octets_append (log more : List Action) :
    octets (log ++ more) = octets log ++ octets more := List.flatMap_append

theorem step_reading (limits : Limits) (handler : Handler) (log : List Action) (a : Assembly)
    (received : Nat) (e : Event) :
    step limits handler ⟨log, .reading a received⟩ e =
      tell (log ++ [.read e])
        (Connection.step limits handler (dispatched log) (.reading a received) e) := rfl

theorem tell_nil (log : List Action) (c : Connection) : tell log ([], c) = ⟨log, c⟩ := by
  rw [tell, List.flatMap_nil, List.append_nil]

/-- What was passed on before goes on with the request. -/
theorem tell_before (handler : Handler) (log : List Action) (r : Request)
    (out : List Write × Connection) :
    tell log (Write.before (.response r (respond (handler (dispatched log)) r)) out) =
      tell (log ++ exchange handler log r) out := by
  simp [tell, Write.before, Write.actions, exchange]

/-! ## The writing of a dialogue is that of the connection -/

/-- What a list of actions tells of each thing written, it tells of all of them. -/
theorem filterMap_actions {β : Type} {f : Action → Option β} {g : Write → Option β}
    (h : ∀ w : Write, w.actions.filterMap f = (g w).toList) (ws : List Write) :
    (ws.flatMap Write.actions).filterMap f = ws.filterMap g := by
  induction ws with
  | nil => rfl
  | cons w ws ih =>
      rw [List.flatMap_cons, List.filterMap_append, ih, h]
      cases hw : g w <;> simp [hw]

theorem written_actions (ws : List Write) : written (ws.flatMap Write.actions) = ws := by
  have hws := filterMap_actions (f := Action.write?) (g := some) (fun w => by cases w <;> rfl) ws
  exact hws.trans List.filterMap_some

theorem dispatched_actions (ws : List Write) :
    dispatched (ws.flatMap Write.actions) = answered ws :=
  filterMap_actions (fun w => by cases w <;> rfl) ws

theorem events_actions (ws : List Write) : events (ws.flatMap Write.actions) = [] := by
  have hws := filterMap_actions (f := Action.event?) (g := fun _ => none)
    (fun w => by cases w <;> rfl) ws
  exact hws.trans (List.filterMap_eq_nil_iff.mpr fun _ _ => rfl)

/-- What is written so far, and the connection. -/
def output (d : Dialogue) : List Write × Connection := (written d.log, d.connection)

variable {limits : Limits} {handler : Handler}

theorem output_step (d : Dialogue) (e : Event) :
    (d.step limits handler e).output =
      let out := d.connection.step limits handler (dispatched d.log) e
      (written d.log ++ out.1, out.2) := by
  rcases d with ⟨log, c⟩
  cases c with
  | closed => simp [step, Connection.step, output]
  | reading a received =>
      have hread : written [.read e] = [] := rfl
      simp only [step, tell, output, written_append, written_actions, hread, List.append_nil]

/-- The requests that were passed on are those that were answered. -/
theorem dispatched_step {d : Dialogue} (h : dispatched d.log = answered (written d.log))
    (e : Event) :
    dispatched (d.step limits handler e).log =
      answered (written (d.step limits handler e).log) := by
  rcases d with ⟨log, c⟩
  cases c with
  | closed => exact h
  | reading a received =>
      have hlog : dispatched log = answered (written log) := h
      have hwritten : written [.read e] = [] := rfl
      rw [step_reading, tell, dispatched_append, dispatched_read, dispatched_actions]
      simp only [written_append, written_actions, hwritten, List.append_nil,
        Connection.answered_append, hlog]

theorem dispatched_run (limits : Limits) (handler : Handler) (events : List Event) :
    dispatched (run limits handler events).log =
      answered (written (run limits handler events).log) := by
  induction events using List.reverseRecOn with
  | nil => rfl
  | append_singleton events e ih =>
      rw [run_concat]
      exact dispatched_step ih e

/-- A dialogue writes what the connection writes, whatever the handler. -/
theorem output_run (limits : Limits) (handler : Handler) (events : List Event) :
    (run limits handler events).output = serve limits handler [] .opened events := by
  induction events using List.reverseRecOn with
  | nil => rfl
  | append_singleton events e ih =>
      rw [run_concat, Connection.serve_append, ← ih, output_step, dispatched_run,
        Connection.resume, Connection.serve_cons, Connection.resume_nil]
      rfl

end Dialogue

end HttpExchange.Server
