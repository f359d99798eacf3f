import HttpExchange.Streams.Table

/-! # Sessions

A session is one caller of a table, with tasks that wait beside it, on a clock that stands still
while anything can run. A waiting task ends when its answer is there or its time is up; at the
same instant the answer wins. A task that waits for settings keeps the table alive, one that waits
for a response does not. When nobody keeps the table alive, nothing can come any more. -/

namespace HttpExchange.Streams

/-- What a task waits for. -/
inductive Goal where
  | response (id : Nat)
  | settings
  deriving DecidableEq, Repr

inductive Answer where
  | response (result : Except Failure Text)
  | settings (result : Except Failure PeerSettings)

inductive Ended where
  | answered (answer : Answer) (waited : Nat)
  | aborted

/-- A task that waits beside the caller, who may know it by a tag. -/
structure Task where
  tag : Option Text
  goal : Goal
  started : Nat
  deadline : Nat
  ended : Option Ended

/-- The table, the caller's hold on it and on exchanges, the tasks in the order of their start,
and the clock in milliseconds. -/
structure Session where
  table : Table Text
  /-- Whether the caller still holds the table. -/
  attached : Bool
  /-- The exchanges whose handles the caller holds, the newest first. -/
  held : List Nat
  tasks : List Task
  now : Nat
  settingsTimeout : Nat

namespace Session

/-- A fresh table, held by the caller alone. -/
def new (settingsTimeout : Nat) : Session := ⟨.empty, true, [], [], 0, settingsTimeout⟩

/-- Whether a task keeps the table alive. -/
def keepsAlive (task : Task) : Bool := task.ended.isNone && task.goal == .settings

/-- The table as it is when somebody keeps it alive, and severed otherwise. -/
def sweep (s : Session) : Session :=
  if s.attached || s.tasks.any keepsAlive then s else { s with table := s.table.sever }

/-- What waiting for a goal gives now, if it ends, and the table behind it. -/
def poll (s : Session) (goal : Goal) (deadline : Nat) : Option (Answer × Table Text) :=
  let timeUp := decide (deadline ≤ s.now)
  match goal with
  | .response id =>
    (s.table.poll id timeUp).map fun (result, table) => (.response result, table)
  | .settings => (s.table.pollSettings timeUp).map fun result => (.settings result, s.table)

/-- The first task whose waiting ends now has ended, if there is one. The first list holds the
tasks that were passed over, the last of them first. -/
def endOne (s : Session) : List Task → List Task → Option Session
  | _, [] => none
  | passed, task :: others =>
    match task.ended, s.poll task.goal task.deadline with
    | none, some (answer, table) =>
      let task := { task with ended := some (.answered answer (s.now - task.started)) }
      some { s with table := table, tasks := passed.reverse ++ task :: others }.sweep
    | _, _ => endOne s (task :: passed) others

/-- Tasks run until they block; `fuel` bounds the number of those that end. -/
def runTasks : Nat → Session → Session
  | 0, s => s
  | fuel + 1, s =>
    match s.endOne [] s.tasks with
    | some s => runTasks fuel s
    | none => s

/-- All tasks run until they block. -/
def settle (s : Session) : Session := runTasks s.tasks.length s

/-- The deadlines of the tasks that still wait. -/
def deadlines (s : Session) : List Nat :=
  (s.tasks.filter fun task => task.ended.isNone).map Task.deadline

/-- The clock moves to the first deadline, but not past `limit`. -/
def moveClock (s : Session) (limit : Nat) : Session :=
  { s with now := max s.now (s.deadlines.foldl min limit) }

/-- Enough moves of the clock to pass all deadlines. -/
def moves (s : Session) : Nat := s.tasks.length + 2

/-- The clock moves to `target`, and tasks whose time is up on the way end; `fuel` bounds the
moves. -/
def sleepUntil (target : Nat) : Nat → Session → Session
  | 0, s => s
  | fuel + 1, s =>
    let s := (s.moveClock target).settle
    if target ≤ s.now then s else sleepUntil target fuel s

/-- The caller waits for a goal; at each instant it looks before the tasks. The time waited comes
with what it gets; `fuel` bounds the moves of the clock. -/
def waitFor (goal : Goal) (started deadline : Nat) :
    Nat → Session → Option (Answer × Nat) × Session
  | 0, s => (none, s)
  | fuel + 1, s =>
    match s.poll goal deadline with
    | some (answer, table) => (some (answer, s.now - started), { s with table := table })
    | none =>
      let s := s.settle
      match s.poll goal deadline with
      | some (answer, table) => (some (answer, s.now - started), { s with table := table })
      | none => waitFor goal started deadline fuel (s.moveClock deadline)

def task? (s : Session) (tag : Text) : Option Task := s.tasks.find? fun task => task.tag == some tag

def modifyTask (s : Session) (tag : Text) (change : Task → Task) : Session :=
  { s with
    tasks := s.tasks.map fun task => if task.tag == some tag then change task else task }

/-- The clock moves on until the task of a tag has ended; `fuel` bounds the moves. -/
def joinTask (tag : Text) : Nat → Session → Option Ended × Session
  | 0, s => (none, s)
  | fuel + 1, s =>
    match s.task? tag with
    | none => (none, s)
    | some task =>
      match task.ended with
      | some ended => (some ended, s.modifyTask tag fun task => { task with tag := none })
      | none => joinTask tag fuel (s.moveClock task.deadline).settle

inductive Step where
  | settings (max : Option UInt32)
  | awaitSettings
  | spawnAwaitSettings (tag : Text)
  | allocate
  | allocateMany (count : Nat)
  | resolve (id : Nat) (payload : Text)
  | cancel (id : Nat)
  | failAll (cause : Cause)
  | wait (id timeout : Nat)
  | spawnWait (id timeout : Nat) (tag : Text)
  | join (tag : Text)
  | abort (tag : Text)
  | drop (id : Nat)
  | dropAll
  | dropTable
  | advance (millis : Nat)
  | state

inductive Reply where
  | nothing
  | flag (value : Bool)
  | count (value : Nat)
  | opened (result : Except Failure Nat)
  | openedMany (ids : List Nat) (stopped : Option Failure)
  | answered (answer : Answer) (waited : Nat)

/-- Up to `count` exchanges are opened, and the first failure ends it. The identifiers come with
the newest first. -/
def allocateMany : Nat → Session → List Nat → (List Nat × Option Failure) × Session
  | 0, s, ids => ((ids, none), s)
  | count + 1, s, ids =>
    match s.table.allocate with
    | .error failure => ((ids, some failure), s)
    | .ok (id, table) =>
      allocateMany count { s with table := table, held := id :: s.held } (id :: ids)

/-- A task starts to wait beside the caller. It takes over the tag. -/
def spawn (s : Session) (tag : Text) (goal : Goal) (timeout : Nat) : Session :=
  let s := s.modifyTask tag fun task => { task with tag := none }
  { s with tasks := s.tasks ++ [⟨some tag, goal, s.now, s.now + timeout, none⟩] }

/-- The handle of an exchange leaves the caller's hands. -/
def unhold (s : Session) (id : Nat) : Session := { s with held := s.held.filter (· != id) }

/-- The reply to a caller that has waited. -/
def replyTo : Option (Answer × Nat) → Reply
  | some (answer, waited) => .answered answer waited
  | none => .nothing

/-- The end of a task before its time. The handle that it held is dropped. -/
def abort (s : Session) (tag : Text) : Bool × Session :=
  match s.task? tag with
  | none => (false, s)
  | some task =>
    if task.ended.isSome then (false, s)
    else
      let s := s.modifyTask tag fun task => { task with ended := some .aborted }
      match task.goal with
      | .response id => (true, { s with table := s.table.release id })
      | .settings => (true, s.sweep)

def step (s : Session) : Step → Reply × Session
  | .settings max => (.nothing, { s with table := s.table.settingsReceived ⟨max⟩ })
  | .awaitSettings =>
    let (reply, s) := waitFor .settings s.now (s.now + s.settingsTimeout) s.moves s
    (replyTo reply, s)
  | .spawnAwaitSettings tag => (.nothing, s.spawn tag .settings s.settingsTimeout)
  | .allocate =>
    match s.table.allocate with
    | .error failure => (.opened (.error failure), s)
    | .ok (id, table) => (.opened (.ok id), { s with table := table, held := id :: s.held })
  | .allocateMany count =>
    let ((ids, stopped), s) := allocateMany count s []
    (.openedMany ids.reverse stopped, s)
  | .resolve id payload =>
    let (waited, table) := s.table.resolve id payload
    (.flag waited, { s with table := table })
  | .cancel id =>
    let (waited, table) := s.table.cancel id
    (.flag waited, { s with table := table })
  | .failAll cause =>
    let (failed, table) := s.table.failAll cause
    (.count failed, { s with table := table })
  | .wait id timeout =>
    let (reply, s) := waitFor (.response id) s.now (s.now + timeout) s.moves (s.unhold id)
    (replyTo reply, s)
  | .spawnWait id timeout tag => (.nothing, (s.unhold id).spawn tag (.response id) timeout)
  | .join tag =>
    match joinTask tag s.moves s with
    | (some (.answered answer waited), s) => (.answered answer waited, s)
    | (_, s) => (.nothing, s)
  | .abort tag =>
    let (aborted, s) := s.abort tag
    (.flag aborted, s)
  | .drop id =>
    if s.held.contains id then
      (.flag true, { s.unhold id with table := s.table.release id })
    else (.flag false, s)
  | .dropAll => (.nothing, { s with held := [], table := s.held.foldl Table.release s.table })
  | .dropTable => (.nothing, { s with attached := false }.sweep)
  | .advance millis => (.nothing, sleepUntil (s.now + millis) s.moves s)
  | .state => (.nothing, s)

/-- One step of the caller, after which all tasks run until they block. -/
def perform (s : Session) (step : Step) : Reply × Session :=
  let (reply, s) := s.step step
  (reply, s.settle)

end Session

end HttpExchange.Streams
