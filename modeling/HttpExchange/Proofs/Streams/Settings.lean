import HttpExchange.Proofs.Streams.Limit

/-! # The barrier of the settings

Callers wait for the peer's settings beside everything else that happens to a table. The barrier is
written once: the first settings open it, unless the connection has failed before, and a failure
shuts it for good. Whoever gets settings gets these, and whoever waits too long leaves no trace.
Main statement: `writeOnce_run`. -/

namespace HttpExchange.Streams

variable {π : Type}

/-! ## Accepted settings -/

theorem accepted?_cons (e : Event π) (events : List (Event π)) :
    accepted? (e :: events) = if e.isFailure then none else e.settings?.or (accepted? events) := by
  cases e <;> rfl

/-- What was accepted once stays so. -/
theorem accepted?_append_of_eq_some {events : List (Event π)} {settings : PeerSettings}
    (h : accepted? events = some settings) (later : List (Event π)) :
    accepted? (events ++ later) = some settings := by
  induction events with
  | nil => cases h
  | cons e events ih =>
      rw [accepted?_cons] at h
      rw [List.cons_append, accepted?_cons]
      cases hfailure : e.isFailure with
      | true => simp [hfailure] at h
      | false =>
          simp only [hfailure, Bool.false_eq_true, if_false] at h ⊢
          cases hsettings : e.settings? with
          | some first => simpa [hsettings] using h
          | none =>
              rw [hsettings, Option.none_or] at h
              exact ih h

namespace Barrier

/-- What a barrier can do: it opens once, and it shuts for good. -/
inductive Moves : Barrier → Barrier → Prop where
  | opens (settings : PeerSettings) : Moves .pending (.ready settings)
  | shuts (settings : PeerSettings) : Moves (.ready settings) .closed
  | fails : Moves .pending .closed

/-- The barrier of a fresh table behind events. -/
def behind (events : List (Event π)) : Barrier :=
  if events.any Event.isFailure then .closed else (accepted? events).elim .pending .ready

theorem after_cases (barrier : Barrier) (e : Event π) :
    barrier.after e = barrier ∨ barrier.Moves (barrier.after e) := by
  cases barrier with
  | closed => exact .inl rfl
  | ready settings =>
      cases e with
      | failAll cause => exact .inr (.shuts settings)
      | _ => exact .inl rfl
  | pending =>
      cases e with
      | settings settings => exact .inr (.opens settings)
      | failAll cause => exact .inr .fails
      | _ => exact .inl rfl

end Barrier

namespace Table

theorem pollSettings_eq_ok_iff {t : Table π} {timeUp : Bool} {settings : PeerSettings} :
    t.pollSettings timeUp = some (.ok settings) ↔ t.barrier = .ready settings := by
  rw [pollSettings]
  cases t.barrier <;> cases timeUp <;> simp

theorem pollSettings_eq_settingsTimeout_iff {t : Table π} {timeUp : Bool} :
    t.pollSettings timeUp = some (.error .settingsTimeout) ↔
      t.barrier = .pending ∧ timeUp = true := by
  rw [pollSettings]
  cases t.barrier <;> cases timeUp <;> simp

theorem barrier_run_empty (events : List (Event π)) :
    ((empty : Table π).run events).barrier = .behind events :=
  (sound_empty.barrier_run events).trans (Barrier.foldl_after_pending events)

theorem barrier_of_allocate {t opened : Table π} {id : Nat} (h : t.allocate = .ok (id, opened)) :
    t.closed = false ∧ ∃ settings, t.barrier = .ready settings := by
  have hfree := t.obstructed_obstacle?
  rw [(allocate_eq_ok_iff.mp h).1] at hfree
  cases hfree with
  | free hbarrier hopen _ _ => exact ⟨hopen, _, hbarrier⟩

end Table

/-! ## Callers that wait -/

/-- A table, the callers that wait for the peer's settings, and the answers that callers have got,
the newest first. -/
structure Lobby (π : Type) where
  table : Table π
  waiting : List Nat
  answered : List (Nat × Except Failure PeerSettings)

/-- What can happen in a lobby. -/
inductive Turn (π : Type) where
  /-- Something happens to the table. -/
  | event (e : Event π)
  /-- A caller begins to wait. -/
  | arrive (caller : Nat)
  /-- A caller that waits looks, its time being up or not. -/
  | look (caller : Nat) (timeUp : Bool)
  /-- A caller gives up waiting. -/
  | leave (caller : Nat)

/-- What a turn does to the table. -/
def Turn.event? : Turn π → Option (Event π)
  | .event e => some e
  | _ => none

/-- What has happened to the table. -/
def happened (turns : List (Turn π)) : List (Event π) := turns.filterMap Turn.event?

namespace Lobby

/-- A fresh connection, for which nobody waits. -/
def empty : Lobby π := ⟨.empty, [], []⟩

/-- A caller waits no longer. -/
def leave (l : Lobby π) (caller : Nat) : Lobby π :=
  { l with waiting := l.waiting.filter (· != caller) }

/-- A caller that waits looks, and leaves if there is an answer for it. -/
def look (l : Lobby π) (caller : Nat) (timeUp : Bool) : Lobby π :=
  if l.waiting.contains caller then
    match l.table.pollSettings timeUp with
    | some result => { l.leave caller with answered := (caller, result) :: l.answered }
    | none => l
  else l

/-- The lobby behind a turn. -/
def apply (l : Lobby π) : Turn π → Lobby π
  | .event e => { l with table := l.table.apply e }
  | .arrive caller => { l with waiting := caller :: l.waiting }
  | .look caller timeUp => l.look caller timeUp
  | .leave caller => l.leave caller

/-- The lobby behind turns. -/
def run (l : Lobby π) (turns : List (Turn π)) : Lobby π := turns.foldl apply l

/-- What the others see of a lobby. -/
def without (l : Lobby π) (caller : Nat) : Lobby π :=
  ⟨l.table, l.waiting.filter (· != caller), l.answered.filter (·.1 != caller)⟩

theorem run_cons (l : Lobby π) (turn : Turn π) (turns : List (Turn π)) :
    l.run (turn :: turns) = (l.apply turn).run turns := rfl

theorem run_append (l : Lobby π) (turns later : List (Turn π)) :
    l.run (turns ++ later) = (l.run turns).run later := List.foldl_append

theorem look_cases (l : Lobby π) (caller : Nat) (timeUp : Bool) :
    l.look caller timeUp = l ∨
      ∃ result, l.table.pollSettings timeUp = some result ∧ l.look caller timeUp =
        { l.leave caller with answered := (caller, result) :: l.answered } := by
  unfold look
  split
  · cases l.table.pollSettings timeUp with
    | none => exact .inl rfl
    | some result => exact .inr ⟨result, rfl, rfl⟩
  · exact .inl rfl

/-! ## The table -/

theorem table_apply (l : Lobby π) (turn : Turn π) :
    (l.apply turn).table = l.table.run turn.event?.toList := by
  cases turn with
  | look caller timeUp =>
      rcases l.look_cases caller timeUp with hsame | ⟨result, -, hlook⟩
      · rw [apply, hsame]
        rfl
      · rw [apply, hlook]
        rfl
  | event | arrive | leave => rfl

/-- Those who wait do not touch the table. -/
theorem table_run (l : Lobby π) (turns : List (Turn π)) :
    (l.run turns).table = l.table.run (happened turns) := by
  induction turns generalizing l with
  | nil => rfl
  | cons turn turns ih =>
      rw [run_cons, ih, table_apply, ← Table.run_append]
      cases turn <;> rfl

/-! ## The others -/

theorem without_without (l : Lobby π) (caller : Nat) :
    (l.without caller).without caller = l.without caller := by
  simp [without]

theorem without_look (l : Lobby π) (caller : Nat) (timeUp : Bool) :
    (l.look caller timeUp).without caller = l.without caller := by
  rcases l.look_cases caller timeUp with hsame | ⟨result, -, hlook⟩
  · rw [hsame]
  · rw [hlook]
    simp [without, leave]

theorem look_without (l : Lobby π) {caller other : Nat} (h : other ≠ caller) (timeUp : Bool) :
    (l.without caller).look other timeUp = (l.look other timeUp).without caller := by
  have hcontains : (l.without caller).waiting.contains other = l.waiting.contains other := by
    simp [without, h]
  have htable : (l.without caller).table = l.table := rfl
  unfold look
  rw [hcontains, htable]
  split
  · cases l.table.pollSettings timeUp with
    | none => rfl
    | some result => simp [without, leave, h, List.filter_filter, Bool.and_comm]
  · rfl

/-- The others see the same, whether a caller was there before the turn or not. -/
theorem without_apply (l : Lobby π) (caller : Nat) (turn : Turn π) :
    (l.apply turn).without caller = ((l.without caller).apply turn).without caller := by
  cases turn with
  | event e => simp [apply, without]
  | arrive other =>
      by_cases h : other = caller
      · simp [apply, without, h]
      · simp [apply, without, h]
  | look other timeUp =>
      by_cases h : other = caller
      · rw [apply, apply, h, without_look, without_look, without_without]
      · rw [apply, apply, look_without l h, without_without]
  | leave other => simp [apply, leave, without, List.filter_filter, Bool.and_comm]

theorem without_run (l : Lobby π) (caller : Nat) (turns : List (Turn π)) :
    (l.run turns).without caller = ((l.without caller).run turns).without caller := by
  induction turns generalizing l with
  | nil => exact (l.without_without caller).symm
  | cons turn turns ih =>
      rw [run_cons, run_cons, ih, without_apply, ← ih]

/-- Whatever a caller finds when it looks, nobody else ever notices. -/
theorem without_run_look (l : Lobby π) (caller : Nat) (timeUp : Bool) (later : List (Turn π)) :
    ((l.look caller timeUp).run later).without caller = (l.run later).without caller := by
  rw [without_run, without_look, ← without_run]

/-! ## Answers -/

/-- Whoever has got settings has got the accepted ones. -/
def Faithful (l : Lobby π) (events : List (Event π)) : Prop :=
  ∀ caller settings, (caller, .ok settings) ∈ l.answered → accepted? events = some settings

theorem look_of_mem {l : Lobby π} {caller : Nat} (hwaits : caller ∈ l.waiting) {timeUp : Bool}
    {result : Except Failure PeerSettings} (h : l.table.pollSettings timeUp = some result) :
    l.look caller timeUp =
      { l.leave caller with answered := (caller, result) :: l.answered } := by
  simp [look, hwaits, h]

theorem mem_answered_look {l : Lobby π} {settings : PeerSettings}
    (h : l.table.barrier = .ready settings) {caller : Nat} (hwaits : caller ∈ l.waiting)
    (timeUp : Bool) : (caller, .ok settings) ∈ (l.look caller timeUp).answered := by
  rw [look_of_mem hwaits (Table.pollSettings_eq_ok_iff.mpr h)]
  exact List.mem_cons_self

/-- An answer that was got is never taken back. -/
theorem answered_subset_apply (l : Lobby π) (turn : Turn π) :
    l.answered ⊆ (l.apply turn).answered := by
  cases turn with
  | look caller timeUp =>
      rcases l.look_cases caller timeUp with hsame | ⟨result, -, hlook⟩
      · rw [apply, hsame]
        exact fun _ hanswer => hanswer
      · rw [apply, hlook]
        exact fun _ hanswer => List.mem_cons_of_mem _ hanswer
  | event | arrive | leave => exact fun _ hanswer => hanswer

theorem answered_subset_run (l : Lobby π) (turns : List (Turn π)) :
    l.answered ⊆ (l.run turns).answered := by
  induction turns generalizing l with
  | nil => exact fun _ hanswer => hanswer
  | cons turn turns ih =>
      exact fun _ hanswer => ih (l.apply turn) (l.answered_subset_apply turn hanswer)

theorem Faithful.apply {l : Lobby π} {events : List (Event π)} (h : l.Faithful events)
    (htable : l.table = Table.empty.run events) (turn : Turn π) :
    (l.apply turn).Faithful (events ++ turn.event?.toList) := by
  intro caller settings hanswer
  cases turn with
  | event e => exact accepted?_append_of_eq_some (h caller settings hanswer) [e]
  | arrive other => exact accepted?_append_of_eq_some (h caller settings hanswer) []
  | leave other => exact accepted?_append_of_eq_some (h caller settings hanswer) []
  | look other timeUp =>
      apply accepted?_append_of_eq_some
      rcases l.look_cases other timeUp with hsame | ⟨result, hpoll, hlook⟩
      · rw [Lobby.apply, hsame] at hanswer
        exact h caller settings hanswer
      · rw [Lobby.apply, hlook] at hanswer
        rcases List.mem_cons.mp hanswer with hnew | hold
        · obtain ⟨-, rfl⟩ := Prod.mk.inj hnew
          rw [Table.pollSettings_eq_ok_iff, htable] at hpoll
          exact (Table.barrier_run_empty_eq_ready_iff.mp hpoll).1
        · exact h caller settings hold

theorem Faithful.run {l : Lobby π} {events : List (Event π)} (h : l.Faithful events)
    (htable : l.table = Table.empty.run events) (turns : List (Turn π)) :
    (l.run turns).Faithful (events ++ happened turns) := by
  induction turns generalizing l events with
  | nil =>
      rw [happened, List.filterMap_nil, List.append_nil]
      exact h
  | cons turn turns ih =>
      have hhappened : happened (turn :: turns) = turn.event?.toList ++ happened turns := by
        cases turn <;> rfl
      have hnext : (l.apply turn).table = Table.empty.run (events ++ turn.event?.toList) := by
        rw [table_apply, htable, Table.run_append]
      rw [hhappened, ← List.append_assoc]
      exact ih (h.apply htable turn) hnext

theorem faithful_empty : (empty : Lobby π).Faithful [] := fun _ _ hanswer => by cases hanswer

/-! ## The barrier -/

/-- The barrier of a lobby tells what has happened to the table, and it has no way back. Exchanges
are opened while it is open, and refused for the peer's limit only by the settings that opened it.
Who looks then gets these settings, as did all who have ever got any. Who has looked in vain for
too long has left the barrier and the others as they were, and the barrier will tell what happens
from there on. -/
structure WriteOnce (l : Lobby π) (events : List (Event π)) : Prop where
  barrier : l.table.barrier = .behind events
  moves : ∀ turn, (l.apply turn).table.barrier = l.table.barrier ∨
    l.table.barrier.Moves (l.apply turn).table.barrier
  opened : ∀ id opened, l.table.allocate = .ok (id, opened) → l.table.closed = false ∧
    ∃ settings, accepted? events = some settings ∧ l.table.barrier = .ready settings
  refused : ∀ max, l.table.allocate = .error (.tooMany max) → accepted? events = some ⟨some max⟩
  found : ∀ settings, l.table.barrier = .ready settings → ∀ caller ∈ l.waiting, ∀ timeUp,
    (caller, .ok settings) ∈ (l.look caller timeUp).answered
  faithful : l.Faithful events
  overdue : ∀ caller timeUp,
    (l.look caller timeUp).answered = (caller, .error .settingsTimeout) :: l.answered →
    (l.look caller timeUp).table = l.table ∧ ∀ later,
      ((l.look caller timeUp).run later).without caller = (l.run later).without caller ∧
      ((l.look caller timeUp).run later).table.barrier = .behind (happened later)

/-- A wait that ends for want of time ends before the barrier has moved. -/
theorem barrier_of_overdue {l : Lobby π} {caller : Nat} {timeUp : Bool}
    (h : (l.look caller timeUp).answered = (caller, .error .settingsTimeout) :: l.answered) :
    l.table.barrier = .pending := by
  rcases l.look_cases caller timeUp with hsame | ⟨result, hpoll, hlook⟩
  · rw [hsame] at h
    exact absurd h.symm (List.cons_ne_self _ _)
  · rw [hlook] at h
    obtain ⟨-, rfl⟩ := Prod.mk.inj (List.cons.inj h).1
    exact (Table.pollSettings_eq_settingsTimeout_iff.mp hpoll).1

theorem table_look (l : Lobby π) (caller : Nat) (timeUp : Bool) :
    (l.look caller timeUp).table = l.table :=
  l.table_apply (.look caller timeUp)

theorem moves_apply {l : Lobby π} (h : l.table.Sound) (turn : Turn π) :
    (l.apply turn).table.barrier = l.table.barrier ∨
      l.table.barrier.Moves (l.apply turn).table.barrier := by
  rw [table_apply]
  cases turn with
  | event e =>
      change (l.table.apply e).barrier = _ ∨ Barrier.Moves _ (l.table.apply e).barrier
      rw [h.barrier_apply]
      exact l.table.barrier.after_cases e
  | arrive | look | leave => exact .inl rfl

/-- Whatever turns come, in any order and number, the barrier is written once. -/
theorem writeOnce_run (turns : List (Turn π)) :
    (empty.run turns).WriteOnce (happened turns) := by
  have htable : (empty.run turns).table = Table.empty.run (happened turns) := table_run empty turns
  have hsound : (empty.run turns).table.Sound := htable ▸ Table.sound_empty.run (happened turns)
  refine ⟨?_, moves_apply hsound, ?_, ?_, ?_, ?_, ?_⟩
  · rw [htable, Table.barrier_run_empty]
  · intro id opened hopened
    obtain ⟨hopen, settings, hready⟩ := Table.barrier_of_allocate hopened
    refine ⟨hopen, settings, ?_, hready⟩
    rw [htable] at hready
    exact (Table.barrier_run_empty_eq_ready_iff.mp hready).1
  · intro max hmany
    rw [htable] at hmany
    exact (Table.allocate_eq_tooMany_iff.mp hmany).1
  · intro settings hready caller hwaits timeUp
    exact mem_answered_look hready hwaits timeUp
  · exact faithful_empty.run rfl turns
  · intro caller timeUp hlate
    refine ⟨table_look _ caller timeUp, ?_⟩
    intro later
    refine ⟨without_run_look _ caller timeUp later, ?_⟩
    rw [table_run, table_look, hsound.barrier_run, barrier_of_overdue hlate]
    exact Barrier.foldl_after_pending (happened later)

/-- One caller waits too long; the settings that come then are found by the other, and the ones
after these are not. -/
example :
    let l : Lobby Text := empty.run [.arrive 0, .arrive 1, .look 0 true,
      .event (.settings ⟨some 1⟩), .event (.settings ⟨none⟩), .look 1 true, .event .allocate]
    l.table.barrier = .ready ⟨some 1⟩ ∧ l.waiting = [] ∧
      l.answered = [(1, .ok ⟨some 1⟩), (0, .error .settingsTimeout)] ∧
      l.table.obstacle? = some (.tooMany 1) := by
  exact ⟨rfl, rfl, rfl, rfl⟩

end Lobby

end HttpExchange.Streams
