import HttpExchange.Proofs.Streams.Closure
import HttpExchange.Proofs.Streams.Identifiers
import Mathlib.Data.Set.Card

/-! # The peer's limit

The pending exchanges of a table are the live ones, told by the events alone, and there are never
more of them than the settings admit that the table has accepted. Main statement:
`pending_run_of_held`. -/

namespace HttpExchange.Streams

variable {π : Type}

namespace Event

/-- The settings that an event brings. -/
def settings? : Event π → Option PeerSettings
  | .settings announced => some announced
  | _ => none

/-- Whether an event answers an exchange, gives it up or fails it. -/
def completes (id : Nat) : Event π → Bool
  | .resolve i _ | .cancel i => i == id
  | .failAll _ => true
  | _ => false

end Event

/-- The settings that are accepted: the first ones, unless the connection has failed before. -/
def accepted? (events : List (Event π)) : Option PeerSettings :=
  (events.takeWhile fun e => !e.isFailure).findSome? Event.settings?

/-! ## The barrier -/

namespace Barrier

/-- What an event makes of the barrier. -/
def after : Barrier → Event π → Barrier
  | .closed, _ | _, .failAll _ => .closed
  | .pending, .settings settings => .ready settings
  | barrier, _ => barrier

theorem foldl_after_closed (events : List (Event π)) : events.foldl after .closed = .closed := by
  induction events with
  | nil => rfl
  | cons e events ih => exact ih

theorem foldl_after_ready (settings : PeerSettings) (events : List (Event π)) :
    events.foldl after (.ready settings) =
      if events.any Event.isFailure then .closed else .ready settings := by
  induction events with
  | nil => rfl
  | cons e events ih =>
      cases e with
      | failAll cause => exact foldl_after_closed events
      | _ => exact ih

theorem foldl_after_pending (events : List (Event π)) :
    events.foldl after .pending =
      if events.any Event.isFailure then .closed
      else (accepted? events).elim .pending .ready := by
  induction events with
  | nil => rfl
  | cons e events ih =>
      cases e with
      | settings settings => exact foldl_after_ready settings events
      | failAll cause => exact foldl_after_closed events
      | _ => exact ih

/-- How many exchanges may wait behind the barrier. -/
def Admits (n : Nat) : Barrier → Prop
  | .pending | .closed => n = 0
  | .ready settings => ∀ max ∈ settings.maxConcurrent, n ≤ max.toNat

theorem Admits.of_le {barrier : Barrier} {m n : Nat} (h : barrier.Admits n) (hle : m ≤ n) :
    barrier.Admits m := by
  cases barrier with
  | pending => exact Nat.le_zero.mp (hle.trans (Nat.le_of_eq h))
  | closed => exact Nat.le_zero.mp (hle.trans (Nat.le_of_eq h))
  | ready settings => exact fun max hmax => hle.trans (h max hmax)

end Barrier

namespace Table

theorem Sound.barrier_apply {t : Table π} (h : t.Sound) (e : Event π) :
    (t.apply e).barrier = t.barrier.after e := by
  cases e with
  | settings settings =>
      rw [Table.apply, Table.settingsReceived]
      cases hbarrier : t.barrier <;> simp [hbarrier, Barrier.after]
  | allocate =>
      have hsame : (t.apply .allocate).barrier = t.barrier := by
        rcases allocate_cases t with ⟨failure, -, hsame⟩ | hok
        · rw [hsame]
        · rw [(allocate_eq_ok_iff.mp hok).2.2]
      rw [hsame]
      cases t.barrier <;> rfl
  | failAll cause =>
      rw [apply_failAll]
      split
      · rename_i hclosed
        rw [h.barrier hclosed]
        rfl
      · cases t.barrier <;> rfl
  | wait id timeUp =>
      have hsame : (t.apply (.wait id timeUp)).barrier = t.barrier := by
        rw [apply_wait]
        split <;> rfl
      rw [hsame]
      cases t.barrier <;> rfl
  | resolve | cancel | drop | sever =>
      change t.barrier = _
      cases t.barrier <;> rfl

theorem Sound.barrier_run {t : Table π} (h : t.Sound) (events : List (Event π)) :
    (t.run events).barrier = events.foldl Barrier.after t.barrier := by
  induction events generalizing t with
  | nil => rfl
  | cons e events ih => rw [run_cons, ih (h.apply e), h.barrier_apply e, List.foldl_cons]

theorem closed_run_empty (events : List (Event π)) :
    (empty.run events).closed = events.any Event.isFailure := by
  rw [closed_run]
  rfl

/-- The barrier is open exactly with the settings that were accepted, while the connection
lasts. -/
theorem barrier_run_empty_eq_ready_iff {events : List (Event π)} {settings : PeerSettings} :
    (empty.run events).barrier = .ready settings ↔
      accepted? events = some settings ∧ (empty.run events).closed = false := by
  have hbarrier := sound_empty.barrier_run events
  rw [hbarrier, closed_run_empty]
  change events.foldl Barrier.after .pending = _ ↔ _
  rw [Barrier.foldl_after_pending]
  cases events.any Event.isFailure with
  | true => simp
  | false => cases accepted? events <;> simp

/-! ## How many exchanges wait -/

theorem pendingCount_eq_countP (t : Table π) :
    t.pendingCount = t.exchanges.countP fun entry => entry.2.isWaiting := by
  rw [pendingCount, pending, List.length_map, List.countP_eq_length_filter]

/-- Where mailboxes change but none begins to wait, no more exchanges wait than before. -/
theorem countP_isWaiting_map_le (entries : List (Nat × Mailbox π))
    {change : Nat × Mailbox π → Nat × Mailbox π}
    (h : ∀ entry, (change entry).2.isWaiting = true → entry.2.isWaiting = true) :
    ((entries.map change).countP fun entry => entry.2.isWaiting) ≤
      entries.countP fun entry => entry.2.isWaiting := by
  rw [List.countP_map]
  exact List.countP_mono_left fun entry _ => h entry

theorem pendingCount_put_le (t : Table π) (id : Nat) (state : Mailbox π) :
    (t.put id state).pendingCount ≤ t.pendingCount := by
  rw [pendingCount_eq_countP, pendingCount_eq_countP]
  apply countP_isWaiting_map_le
  intro entry hwaiting
  split at hwaiting
  · rw [isWaiting_put, Bool.and_eq_true] at hwaiting
    exact hwaiting.1
  · exact hwaiting

theorem pendingCount_putAll_le (t : Table π) (state : Mailbox π) :
    (t.putAll state).pendingCount ≤ t.pendingCount := by
  rw [pendingCount_eq_countP, pendingCount_eq_countP]
  apply countP_isWaiting_map_le
  intro entry hwaiting
  rw [isWaiting_put, Bool.and_eq_true] at hwaiting
  exact hwaiting.1

theorem pendingCount_release_le (t : Table π) (id : Nat) :
    (t.release id).pendingCount ≤ t.pendingCount := by
  rw [pendingCount_eq_countP, pendingCount_eq_countP]
  exact List.filter_sublist.countP_le

theorem pendingCount_of_allocate {t opened : Table π} {id : Nat}
    (h : t.allocate = .ok (id, opened)) : opened.pendingCount = t.pendingCount + 1 := by
  obtain ⟨-, -, rfl⟩ := allocate_eq_ok_iff.mp h
  simp [pendingCount_eq_countP, Mailbox.isWaiting]

/-- The barrier goes on admitting the exchanges that wait: only an allocation adds one, and it finds
room for it. -/
theorem Sound.admits_apply {t : Table π} (h : t.Sound) (hadmits : t.barrier.Admits t.pendingCount)
    (e : Event π) : (t.apply e).barrier.Admits (t.apply e).pendingCount := by
  cases e with
  | settings settings =>
      have hexchanges : (t.settingsReceived settings).pendingCount = t.pendingCount := by
        rw [pendingCount_eq_countP, exchanges_settingsReceived, pendingCount_eq_countP]
      rw [h.barrier_apply, Table.apply, hexchanges]
      cases hbarrier : t.barrier with
      | pending =>
          rw [hbarrier] at hadmits
          intro max _
          exact (Nat.le_of_eq hadmits).trans (Nat.zero_le _)
      | ready | closed =>
          rw [hbarrier] at hadmits
          exact hadmits
  | allocate =>
      rcases allocate_cases t with ⟨failure, -, hsame⟩ | hok
      · rw [hsame]
        exact hadmits
      · have hfree := t.obstructed_obstacle?
        rw [(allocate_eq_ok_iff.mp hok).1] at hfree
        cases hfree with
        | free hbarrier _ hroom _ =>
            rw [h.barrier_apply, hbarrier, pendingCount_of_allocate hok]
            exact fun max hmax => hroom max hmax
  | failAll cause =>
      have hclosed : (t.apply (.failAll cause)).closed = true := by
        simp [closed_apply, Event.isFailure]
      have hshut := (h.apply (.failAll cause)).shut hclosed
      rw [hshut.barrier]
      exact hshut.pendingCount
  | resolve id payload => exact hadmits.of_le (pendingCount_put_le t id _)
  | cancel id => exact hadmits.of_le (pendingCount_put_le t id _)
  | wait id timeUp =>
      rw [apply_wait]
      split
      · exact hadmits.of_le (pendingCount_release_le t id)
      · exact hadmits
  | drop id => exact hadmits.of_le (pendingCount_release_le t id)
  | sever => exact hadmits.of_le (pendingCount_putAll_le t _)

theorem Sound.admits_run {t : Table π} (h : t.Sound) (hadmits : t.barrier.Admits t.pendingCount)
    (events : List (Event π)) : (t.run events).barrier.Admits (t.run events).pendingCount := by
  induction events generalizing t with
  | nil => exact hadmits
  | cons e events ih => exact ih (h.apply e) (h.admits_apply hadmits e)

theorem admits_run_empty (events : List (Event π)) :
    (empty.run events).barrier.Admits (empty.run events).pendingCount :=
  sound_empty.admits_run rfl events

theorem pendingCount_le_of_accepted? {events : List (Event π)} {max : UInt32}
    (h : accepted? events = some ⟨some max⟩) :
    ((empty : Table π).run events).pendingCount ≤ max.toNat := by
  cases hclosed : ((empty : Table π).run events).closed with
  | true =>
      rw [((sound_empty.run events).shut hclosed).pendingCount]
      exact Nat.zero_le _
  | false =>
      have hadmits := admits_run_empty events
      rw [barrier_run_empty_eq_ready_iff.mpr ⟨h, hclosed⟩] at hadmits
      exact hadmits max rfl

/-- The peer's limit refuses a new exchange when it is reached, and then only. -/
theorem allocate_eq_tooMany_iff {events : List (Event π)} {max : UInt32} :
    (empty.run events).allocate = .error (.tooMany max) ↔
      accepted? events = some ⟨some max⟩ ∧ (empty.run events).pendingCount = max.toNat ∧
        (empty.run events).closed = false := by
  rw [allocate_eq_error_iff]
  constructor
  · intro h
    have hfull := (empty.run events).obstructed_obstacle?
    rw [h] at hfull
    cases hfull with
    | tooMany hbarrier hopen hfull =>
        have haccepted := (barrier_run_empty_eq_ready_iff.mp hbarrier).1
        exact ⟨haccepted, (pendingCount_le_of_accepted? haccepted).antisymm hfull, hopen⟩
  · rintro ⟨haccepted, hcount, hopen⟩
    have hbarrier := barrier_run_empty_eq_ready_iff.mpr ⟨haccepted, hopen⟩
    simp [obstacle?, hbarrier, hopen, hcount]

/-! ## Live exchanges -/

/-- An exchange is live: it was opened, and since then it has been neither answered nor given up nor
failed, and its handle was neither dropped nor taken by a wait that has ended. -/
def Live (id : Nat) (events : List (Event π)) : Prop :=
  ∃ before opened since, events = before ++ .allocate :: since ∧
    (empty.run before).allocate = .ok (id, opened) ∧
    (∀ e ∈ since, e.completes id = false) ∧ Held id since

theorem outcome?_eq_none {id : Nat} {e : Event π} (hcompletes : e.completes id = false)
    (hsever : e ≠ .sever) (hwait : ¬ e = .wait id true) : e.outcome? id = none := by
  cases e with
  | resolve i payload => simpa [Event.outcome?, Event.completes] using hcompletes
  | cancel i => simpa [Event.outcome?, Event.completes] using hcompletes
  | failAll cause => cases hcompletes
  | wait i timeUp => simpa [Event.outcome?] using hwait
  | sever => exact absurd rfl hsever
  | settings | allocate | drop => rfl

theorem completes_eq_false {id : Nat} {e : Event π} (h : e.outcome? id = none) :
    e.completes id = false := by
  cases e with
  | resolve i payload => simpa [Event.outcome?, Event.completes] using h
  | cancel i => simpa [Event.outcome?, Event.completes] using h
  | failAll cause => cases h
  | settings | allocate | wait | drop | sever => rfl

/-- While the table is held, an exchange has no outcome exactly if nobody has completed it and its
handle is held. -/
theorem undecided_iff_held {id : Nat} {since : List (Event π)} (hsever : .sever ∉ since) :
    Undecided id since ↔ (∀ e ∈ since, e.completes id = false) ∧ Held id since := by
  constructor
  · intro h
    exact ⟨fun e he => completes_eq_false (h e he).1, held_of_undecided h⟩
  · intro h e he
    obtain ⟨done, rest, rfl⟩ := List.append_of_mem he
    have htakes : ¬ e.Takes id done := h.2 done e ⟨rest, by simp⟩
    constructor
    · apply outcome?_eq_none (h.1 e he)
      · rintro rfl
        exact hsever he
      · rintro rfl
        -- its own time is an outcome, so this wait has ended
        apply htakes
        refine ⟨rfl, ?_⟩
        simp [Event.outcome?]
    · rintro rfl
      exact htakes rfl

theorem live_iff_open {id : Nat} {events : List (Event π)} (hsever : .sever ∉ events) :
    Live id events ↔ Open id events := by
  have hsince : ∀ before since : List (Event π), events = before ++ .allocate :: since →
      .sever ∉ since := by
    rintro before since rfl hmem
    exact hsever (by simp [hmem])
  constructor
  · rintro ⟨before, opened, since, heq, hopened, hlive⟩
    exact ⟨before, opened, since, heq, hopened,
      (undecided_iff_held (hsince before since heq)).mpr hlive⟩
  · rintro ⟨before, opened, since, heq, hopened, hundecided⟩
    exact ⟨before, opened, since, heq, hopened,
      (undecided_iff_held (hsince before since heq)).mp hundecided⟩

/-- While the table is held, the pending exchanges are the live ones, and their number is counted.
They are never more than the accepted settings admit, and the limit refuses a new exchange exactly
when it is reached and the connection lasts. -/
theorem pending_run_of_held {events : List (Event π)} (hheld : .sever ∉ events) :
    let t : Table π := empty.run events
    (∀ id, id ∈ t.pending ↔ Live id events) ∧
      {id | Live id events}.encard = t.pendingCount ∧
      (∀ max, accepted? events = some ⟨some max⟩ → t.pendingCount ≤ max.toNat) ∧
      ∀ max, t.allocate = .error (.tooMany max) ↔
        accepted? events = some ⟨some max⟩ ∧ t.pendingCount = max.toNat ∧ t.closed = false := by
  intro t
  have hlive : ∀ id, id ∈ t.pending ↔ Live id events := by
    intro id
    rw [live_iff_open hheld]
    exact mem_pending_run_empty_iff
  refine ⟨hlive, ?_, ?_, ?_⟩
  · have hset : {id | Live id events} = (t.pending.toFinset : Set Nat) := by
      ext id
      simp [hlive]
    rw [hset, Set.encard_coe_eq_coe_finsetCard,
      List.toFinset_card_of_nodup (sound_empty.run events).nodup_pending]
    rfl
  · intro max haccepted
    exact pendingCount_le_of_accepted? haccepted
  · intro max
    exact allocate_eq_tooMany_iff

/-- With a limit of two, an exchange is refused while two are live, and the one that was given up
made room for another; the settings that come later do not count. -/
theorem pending_run_of_held_limit_two :
    let events : List (Event Text) := [.settings ⟨some 2⟩, .allocate, .allocate, .allocate,
      .settings ⟨none⟩, .resolve 3 "first".toList, .wait 3 false, .allocate]
    let t : Table Text := empty.run events
    .sever ∉ events ∧ t.pending = [7, 5] ∧ Live 5 events ∧ Live 7 events ∧ ¬ Live 3 events ∧
      {id | Live id events}.encard = 2 ∧ t.allocate = .error (.tooMany 2) := by
  intro events t
  have hheld : .sever ∉ events := by simp [events]
  have hpending : t.pending = [7, 5] := by decide
  obtain ⟨hlive, hcount, -, hrefused⟩ := pending_run_of_held hheld
  have hmem : ∀ id, Live id events ↔ id = 7 ∨ id = 5 := by
    intro id
    rw [← hlive, hpending]
    simp
  have htwo : t.pendingCount = 2 := by
    rw [pendingCount, hpending, List.length_cons, List.length_singleton]
  refine ⟨hheld, hpending, by simp [hmem], by simp [hmem], by simp [hmem], ?_, ?_⟩
  · rw [hcount, htwo]
    rfl
  · exact (hrefused 2).mpr ⟨by rfl, htwo, by rfl⟩

end Table

end HttpExchange.Streams
