import HttpExchange.Proofs.Streams.Outcome

/-! # The failure of a connection

The first failure ends the exchanges that are open, all with the same cause, and leaves to the
others what they have got before. Behind it nothing is in flight and nothing can be opened or
answered, whatever happens. Main statement: `run_failAll`. -/

namespace HttpExchange.Streams

variable {π : Type}

namespace Event

/-- Whether the connection fails. -/
def isFailure : Event π → Bool
  | .failAll _ => true
  | _ => false

/-- Whether somebody waits for the exchange or drops its handle. -/
def touches (id : Nat) : Event π → Bool
  | .wait i _ | .drop i => i == id
  | _ => false

theorem eq_failAll_of_outcome? {id : Nat} {e : Event π} {cause : Cause}
    (h : e.outcome? id = some (.error (.connection cause))) : e = .failAll cause := by
  cases e with
  | failAll other => simpa [outcome?] using h
  | settings | allocate | drop => simp [outcome?] at h
  | resolve i payload => simp [outcome?] at h
  | cancel i => simp [outcome?] at h
  | wait i timeUp => simp [outcome?] at h
  | sever => simp [outcome?] at h

end Event

namespace Table

/-! ## The exchanges in flight -/

theorem mem_pending_iff {t : Table π} {id : Nat} : id ∈ t.pending ↔ t.waits id = true := by
  simp [pending, waits]

theorem Sound.nodup_pending {t : Table π} (h : t.Sound) : t.pending.Nodup :=
  h.distinct.sublist (List.filter_sublist.map Prod.fst)

theorem mem_pending_run_empty_iff {events : List (Event π)} {id : Nat} :
    id ∈ (empty.run events).pending ↔ Open id events :=
  mem_pending_iff.trans waits_run_empty_iff

/-! ## Closed tables -/

theorem closed_apply (t : Table π) (e : Event π) :
    (t.apply e).closed = (t.closed || e.isFailure) := by
  cases e with
  | settings settings =>
      rw [apply, settingsReceived]
      split <;> simp [Event.isFailure]
  | allocate =>
      cases h : t.obstacle? with
      | some failure => simp [apply_allocate_of_obstacle h, Event.isFailure]
      | none =>
          rw [apply_allocate_of_ok (allocate_eq_ok_iff.mpr ⟨h, rfl, rfl⟩)]
          simp [Event.isFailure]
  | failAll cause =>
      rw [apply_failAll]
      split <;> simp_all [Event.isFailure]
  | wait id timeUp =>
      rw [apply_wait]
      split <;> simp [Event.isFailure, release]
  | resolve | cancel | drop | sever =>
      simp [apply, resolve, cancel, release, sever, put, putAll, Event.isFailure]

theorem closed_run (t : Table π) (events : List (Event π)) :
    (t.run events).closed = (t.closed || events.any Event.isFailure) := by
  induction events generalizing t with
  | nil => simp [run]
  | cons e events ih =>
      have hrun : t.run (e :: events) = (t.apply e).run events := rfl
      rw [hrun, ih, closed_apply, List.any_cons, Bool.or_assoc]

/-- Nothing is in flight, and nothing can be opened or answered. -/
structure Shut (t : Table π) : Prop where
  pendingCount : t.pendingCount = 0
  closed : t.closed = true
  barrier : t.barrier = .closed
  settingsReceived : ∀ settings, t.settingsReceived settings = t
  allocate : t.allocate = .error .closed
  resolve : ∀ id payload, t.resolve id payload = (false, t)
  cancel : ∀ id, t.cancel id = (false, t)
  failAll : ∀ cause, t.failAll cause = (0, t)

theorem Sound.put_of_closed {t : Table π} (h : t.Sound) (hclosed : t.closed = true) (id : Nat)
    (state : Mailbox π) : t.put id state = t := by
  have hsame : ∀ entry ∈ t.exchanges,
      (if entry.1 = id then (entry.1, entry.2.put state) else entry) = entry := by
    intro entry hentry
    rw [Mailbox.put_of_not_isWaiting (h.idle hclosed entry hentry)]
    simp
  rw [Table.put, List.map_congr_left hsame, List.map_id']

theorem Sound.waits_of_closed {t : Table π} (h : t.Sound) (hclosed : t.closed = true) (id : Nat) :
    t.waits id = false := by
  rw [waits, List.any_eq_false]
  intro entry hentry
  simp [h.idle hclosed entry hentry]

theorem Sound.shut {t : Table π} (h : t.Sound) (hclosed : t.closed = true) : t.Shut := by
  have hbarrier := h.barrier hclosed
  refine ⟨?_, hclosed, hbarrier, ?_, ?_, ?_, ?_, ?_⟩
  · rw [Table.pendingCount, List.length_eq_zero_iff, List.eq_nil_iff_forall_not_mem]
    intro id hid
    simp [mem_pending_iff, h.waits_of_closed hclosed] at hid
  · simp [Table.settingsReceived, hbarrier]
  · simp [Table.allocate, obstacle?, hbarrier]
  · intro id payload
    rw [Table.resolve, h.waits_of_closed hclosed, h.put_of_closed hclosed]
  · intro id
    rw [Table.cancel, h.waits_of_closed hclosed, h.put_of_closed hclosed]
  · simp [Table.failAll, hclosed]

/-! ## What has come stays -/

/-- An exchange that has ended keeps its mailbox while nobody touches it. -/
theorem Sound.mailbox?_run_of_not_isWaiting {t : Table π} (h : t.Sound) {id : Nat} {m : Mailbox π}
    (hm : t.mailbox? id = some m) (hended : m.isWaiting = false) {later : List (Event π)}
    (hlater : ∀ e ∈ later, e.touches id = false) : (t.run later).mailbox? id = some m := by
  induction later generalizing t with
  | nil => exact hm
  | cons e later ih =>
      apply ih (h.apply e) _ fun e' he' => hlater e' (List.mem_cons_of_mem e he')
      rcases mailbox?_apply h id e with heq | ⟨-, opened, hopened⟩
      · have htouch := hlater e List.mem_cons_self
        rw [heq, hm, Option.bind_some]
        cases e <;> simp_all [Mailbox.after, Mailbox.put, Event.touches]
      · obtain ⟨-, hid, -⟩ := allocate_eq_ok_iff.mp hopened
        have hfresh := h.fresh (id, m) (mailbox?_mem hm)
        omega

theorem Mailbox.after_of_not_isWaiting {m left : Mailbox π} (hended : m.isWaiting = false)
    {id : Nat} {e : Event π} (h : m.after id e = some left) : left = m := by
  cases e <;> simp_all [Mailbox.after, Mailbox.put]

/-- Nothing new comes into a closed table. -/
theorem Sound.mailbox?_of_run_of_closed {t : Table π} (h : t.Sound) (hclosed : t.closed = true)
    {id : Nat} {m : Mailbox π} {later : List (Event π)}
    (hm : (t.run later).mailbox? id = some m) : t.mailbox? id = some m := by
  induction later generalizing t with
  | nil => exact hm
  | cons e later ih =>
      have hnext := ih (h.apply e) (by simp [closed_apply, hclosed]) hm
      rcases mailbox?_apply h id e with heq | ⟨-, opened, hopened⟩
      · rw [heq] at hnext
        obtain ⟨old, hold, hafter⟩ := Option.bind_eq_some_iff.mp hnext
        have hended := h.idle hclosed (id, old) (mailbox?_mem hold)
        rw [hold, Mailbox.after_of_not_isWaiting hended hafter]
      · rw [(h.shut hclosed).allocate] at hopened
        cases hopened

/-! ## The whole table -/

/-- Behind these events the exchange has ended with this result, and its handle is still held. -/
def Settled (id : Nat) (events : List (Event π)) (result : Except Failure π) : Prop :=
  ∃ before opened since, events = before ++ .allocate :: since ∧
    (empty.run before).allocate = .ok (id, opened) ∧ Held id since ∧
    since.findSome? (Event.outcome? id) = some result

theorem mailbox?_of_open {events : List (Event π)} {id : Nat} (h : Open id events) :
    (empty.run events).mailbox? id = some .waiting :=
  (waits_iff (sound_empty.run events)).mp (waits_run_empty_iff.mpr h)

theorem content?_of_mailbox?_run {events : List (Event π)} {id : Nat} {m : Mailbox π}
    {result : Except Failure π} (hm : (empty.run events).mailbox? id = some m)
    (hcontent : m.content? = some result) : Settled id events result := by
  obtain ⟨before, opened, since, rfl, hopened⟩ := exists_allocate_of_mailbox? hm
  rw [run_of_allocate hopened,
    (mailbox?_run_of_allocate (sound_empty.run before) hopened since).1] at hm
  rcases mailboxAfter_cases id since with ⟨m', hm', hheld, hfirst⟩ | ⟨hnone, -⟩
  · obtain rfl := Option.some.inj (hm'.symm.trans hm)
    exact ⟨before, opened, since, rfl, hopened, hheld, hfirst.symm.trans hcontent⟩
  · rw [hnone] at hm
    cases hm

theorem exists_mailbox?_of_settled {events : List (Event π)} {id : Nat}
    {result : Except Failure π} (h : Settled id events result) :
    ∃ m, (empty.run events).mailbox? id = some m ∧ m.content? = some result := by
  obtain ⟨before, opened, since, rfl, hopened, hheld, hfirst⟩ := h
  rw [run_of_allocate hopened,
    (mailbox?_run_of_allocate (sound_empty.run before) hopened since).1]
  rcases mailboxAfter_cases id since with ⟨m, hm, -, hcontent⟩ | ⟨-, hnot⟩
  · exact ⟨m, hm, hcontent.trans hfirst⟩
  · exact absurd hheld hnot

theorem not_settled_connection {events : List (Event π)} {id : Nat} {cause : Cause}
    (hfirst : ∀ e ∈ events, e.isFailure = false) :
    ¬ Settled id events (.error (.connection cause)) := by
  rintro ⟨before, opened, since, rfl, -, -, houtcome⟩
  obtain ⟨e, he, hcause⟩ := List.exists_of_findSome?_eq_some houtcome
  have hnot := hfirst e (by simp [he])
  rw [Event.eq_failAll_of_outcome? hcause] at hnot
  cases hnot

section

variable {before : List (Event π)} {cause : Cause} {id : Nat}

theorem closed_run_failAll (before : List (Event π)) (cause : Cause) :
    ((empty.run before).apply (.failAll cause)).closed = true := by
  simp [closed_apply, Event.isFailure]

theorem run_failAll_cons (before : List (Event π)) (cause : Cause) (later : List (Event π)) :
    empty.run (before ++ .failAll cause :: later) =
      ((empty.run before).apply (.failAll cause)).run later := run_append _ _ _

/-- What an exchange has got behind the failure, if somebody waits for it then. -/
theorem waited?_run_failAll {m : Mailbox π} (hm : (empty.run before).mailbox? id = some m)
    {later : List (Event π)} (hlater : ∀ e ∈ later, e.touches id = false) (timeUp : Bool) :
    (empty.run (before ++ .failAll cause :: later)).waited? id timeUp =
      m.content?.or (some (.error (.connection cause))) := by
  have hsound := sound_empty.run before
  have hfailed : ((empty.run before).apply (.failAll cause)).mailbox? id =
      some (m.put (.filled (.error (.connection cause)))) := by
    rw [apply, mailbox?_failAll hsound, hm, Option.map_some]
  have hended : (m.put (.filled (.error (.connection cause)))).isWaiting = false := by
    rw [isWaiting_put]
    exact Bool.and_false _
  have hkept := (hsound.apply (.failAll cause)).mailbox?_run_of_not_isWaiting hfailed hended hlater
  rw [run_failAll_cons, waited?_of_mailbox? hkept, Mailbox.content?_put]
  cases m.content? <;> simp [Mailbox.content?]

/-- Who gets the cause of the failure had an open exchange. -/
theorem open_of_waited?_run_failAll (hfirst : ∀ e ∈ before, e.isFailure = false)
    {later : List (Event π)} {timeUp : Bool} {other : Cause}
    (h : (empty.run (before ++ .failAll cause :: later)).waited? id timeUp =
      some (.error (.connection other))) : Open id before ∧ other = cause := by
  have hsound := sound_empty.run before
  have hclosed := closed_run_failAll before cause
  rw [run_failAll_cons] at h
  cases hm : (((empty.run before).apply (.failAll cause)).run later).mailbox? id with
  | none => simp [waited?, hm] at h
  | some m =>
      have hfailed := (hsound.apply (.failAll cause)).mailbox?_of_run_of_closed hclosed hm
      have hended := (hsound.apply _).idle hclosed (id, m) (mailbox?_mem hfailed)
      rw [apply, mailbox?_failAll hsound] at hfailed
      obtain ⟨old, hold, rfl⟩ := Option.map_eq_some_iff.mp hfailed
      rw [waited?_of_mailbox? hm, Mailbox.content?_put] at h
      cases hcontent : old.content? with
      | none =>
          cases old with
          | waiting =>
              refine ⟨waits_run_empty_iff.mp ((waits_iff hsound).mpr hold), ?_⟩
              simpa [Mailbox.content?, eq_comm] using h
          | filled | severed => cases hcontent
      | some result =>
          obtain rfl : result = .error (.connection other) := by simpa [hcontent] using h
          exact absurd (content?_of_mailbox?_run hold hcontent) (not_settled_connection hfirst)

/-- The first failure counts the exchanges that are open. Whatever happens behind it, each of them
gets the cause of the failure and no other exchange does, what other exchanges have got before
stays, and the table is shut. -/
theorem run_failAll (cause : Cause) (hfirst : ∀ e ∈ before, e.isFailure = false) :
    (∃ ids : List Nat, ids.Nodup ∧ (∀ id, id ∈ ids ↔ Open id before) ∧
        ((empty.run before).failAll cause).1 = ids.length) ∧
      ∀ later : List (Event π),
        (empty.run (before ++ .failAll cause :: later)).Shut ∧
        (∀ id timeUp, Open id before → (∀ e ∈ later, e.touches id = false) →
          (empty.run (before ++ .failAll cause :: later)).waited? id timeUp =
            some (.error (.connection cause))) ∧
        (∀ id timeUp other,
          (empty.run (before ++ .failAll cause :: later)).waited? id timeUp =
            some (.error (.connection other)) → Open id before ∧ other = cause) ∧
        ∀ id timeUp result, Settled id before result → (∀ e ∈ later, e.touches id = false) →
          (empty.run (before ++ .failAll cause :: later)).waited? id timeUp = some result := by
  have hsound := sound_empty.run before
  refine ⟨⟨(empty.run before).pending, hsound.nodup_pending, ?_, ?_⟩, ?_⟩
  · exact fun id => mem_pending_run_empty_iff
  · have hopen : (empty.run before).closed = false := by
      simpa [closed_run, empty] using hfirst
    simp [failAll, hopen, pendingCount]
  · intro later
    refine ⟨?_, ?_, ?_, ?_⟩
    · have hclosed : (empty.run (before ++ .failAll cause :: later)).closed = true := by
        simp [closed_run, Event.isFailure]
      exact (sound_empty.run _).shut hclosed
    · intro id timeUp hopen hlater
      rw [waited?_run_failAll (mailbox?_of_open hopen) hlater]
      rfl
    · intro id timeUp other h
      exact open_of_waited?_run_failAll hfirst h
    · intro id timeUp result hsettled hlater
      obtain ⟨m, hm, hcontent⟩ := exists_mailbox?_of_settled hsettled
      rw [waited?_run_failAll hm hlater, hcontent]
      rfl

/-- Of three exchanges the first has its response and the second is given up when the connection
fails; late settings, a further failure and a request for a fourth change nothing. -/
theorem run_failAll_three_exchanges :
    let before : List (Event Text) := [.settings ⟨none⟩, .allocate, .allocate, .allocate,
      .resolve 3 "first".toList, .cancel 5]
    let cause : Cause := ⟨.connectionReset, none⟩
    let later : List (Event Text) := [.settings ⟨some 1⟩, .allocate, .failAll ⟨.other, none⟩,
      .resolve 7 "late".toList, .wait 5 false]
    (∀ e ∈ before, e.isFailure = false) ∧
      (empty.run (before ++ .failAll cause :: later)).Shut ∧
      (empty.run (before ++ .failAll cause :: later)).waited? 7 false =
        some (.error (.connection cause)) ∧
      (empty.run (before ++ .failAll cause :: later)).waited? 3 false =
        some (.ok "first".toList) := by
  intro before cause later
  have hfirst : ∀ e ∈ before, e.isFailure = false := by simp [before, Event.isFailure]
  have hopen : Open 7 before := waits_run_empty_iff.mp (by decide)
  have hsettled : Settled 3 before (.ok "first".toList) :=
    content?_of_mailbox?_run (m := .filled (.ok "first".toList)) rfl rfl
  have huntouched : ∀ id ∈ [3, 7], ∀ e ∈ later, e.touches id = false := by
    simp [later, Event.touches]
  obtain ⟨hshut, hconnection, -, hkept⟩ := (run_failAll cause hfirst).2 later
  exact ⟨hfirst, hshut, hconnection 7 false hopen (huntouched 7 (by simp)),
    hkept 3 false _ hsettled (huntouched 3 (by simp))⟩

end

end Table

end HttpExchange.Streams
