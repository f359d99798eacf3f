import HttpExchange.Proofs.Streams.Run
import Mathlib.Data.List.Infix

/-! # The outcome of an exchange

Of all that can end an exchange, what comes first decides what its caller gets, and the caller gets
it once. Main statement: `waited?_run_of_allocate`. -/

namespace HttpExchange.Streams

variable {π : Type}

/-! ## One exchange -/

namespace Event

/-- What an event that ends an exchange lets its caller get. -/
def outcome? (id : Nat) : Event π → Option (Except Failure π)
  | .resolve i payload => if i = id then some (.ok payload) else none
  | .cancel i => if i = id then some (.error .cancelled) else none
  | .failAll cause => some (.error (.connection cause))
  | .wait i timeUp => if i = id ∧ timeUp = true then some (.error .timeout) else none
  | .sever => some (.error .cancelled)
  | .settings _ | .allocate | .drop _ => none

/-- Whether an event says anything of an exchange. -/
def concerns (id : Nat) : Event π → Bool
  | .resolve i _ | .cancel i | .wait i _ | .drop i => i == id
  | .failAll _ | .sever => true
  | .settings _ | .allocate => false

/-- Behind other events this one takes the handle of an exchange: it drops the handle, or it is a
wait that comes to its end. -/
def Takes (id : Nat) (done : List (Event π)) : Event π → Prop
  | .drop i => i = id
  | .wait i timeUp => i = id ∧ (done ++ [Event.wait i timeUp]).findSome? (outcome? id) ≠ none
  | _ => False

end Event

/-- The handle of an exchange has not been taken. -/
def Held (id : Nat) (events : List (Event π)) : Prop :=
  ∀ done e, done ++ [e] <+: events → ¬ Event.Takes id done e

/-- The mailbox of an exchange behind the events since it was opened. -/
def mailboxAfter (id : Nat) (events : List (Event π)) : Option (Mailbox π) :=
  events.foldl (fun m e => m.bind (·.after id e)) (some .waiting)

theorem mailboxAfter_concat (id : Nat) (events : List (Event π)) (e : Event π) :
    mailboxAfter id (events ++ [e]) = (mailboxAfter id events).bind (·.after id e) := by
  simp [mailboxAfter]

theorem held_nil (id : Nat) : Held id ([] : List (Event π)) := by
  intro done e h
  simp at h

theorem held_concat_iff {id : Nat} {events : List (Event π)} {e : Event π} :
    Held id (events ++ [e]) ↔ Held id events ∧ ¬ e.Takes id events := by
  simp only [Held, List.prefix_concat_iff]
  constructor
  · intro h
    exact ⟨fun done e' hp => h done e' (.inr hp), h events e (.inl rfl)⟩
  · intro h done e' hp
    rcases hp with heq | hp
    · obtain ⟨rfl, hlast⟩ := List.append_inj' heq rfl
      obtain rfl := List.singleton_inj.mp hlast
      exact h.2
    · exact h.1 done e' hp

theorem findSome?_concat (id : Nat) (events : List (Event π)) (e : Event π) :
    (events ++ [e]).findSome? (Event.outcome? id) =
      (events.findSome? (Event.outcome? id)).or (e.outcome? id) := by
  simp [List.findSome?_append]

/-- A mailbox that holds what came first does so behind the next event, unless that one takes it
away with the handle. -/
theorem after_cases {id : Nat} {events : List (Event π)} {m : Mailbox π}
    (hm : m.content? = events.findSome? (Event.outcome? id)) (e : Event π) :
    (∃ left, m.after id e = some left ∧ ¬ e.Takes id events ∧
        left.content? = (events ++ [e]).findSome? (Event.outcome? id)) ∨
      m.after id e = none ∧ e.Takes id events := by
  rw [findSome?_concat, ← hm]
  cases e with
  | settings settings => exact .inl ⟨m, rfl, not_false, by simp [Event.outcome?]⟩
  | allocate => exact .inl ⟨m, rfl, not_false, by simp [Event.outcome?]⟩
  | resolve i payload =>
      refine .inl ⟨_, rfl, not_false, ?_⟩
      by_cases hi : i = id
      · simp only [Event.outcome?, hi, if_true]
        exact Mailbox.content?_put m _
      · simp [Event.outcome?, hi]
  | cancel i =>
      refine .inl ⟨_, rfl, not_false, ?_⟩
      by_cases hi : i = id
      · simp only [Event.outcome?, hi, if_true]
        exact Mailbox.content?_put m _
      · simp [Event.outcome?, hi]
  | failAll cause => exact .inl ⟨_, rfl, not_false, Mailbox.content?_put m _⟩
  | wait i timeUp =>
      simp only [Event.Takes, findSome?_concat, ← hm, Mailbox.after, Event.outcome?]
      by_cases hi : i = id
      · cases hc : m.content? <;> cases timeUp <;> simp [hi, hc]
      · simp [hi]
  | drop i =>
      by_cases hi : i = id
      · exact .inr ⟨if_pos hi, hi⟩
      · exact .inl ⟨m, if_neg hi, hi, by simp [Event.outcome?]⟩
  | sever => exact .inl ⟨_, rfl, not_false, Mailbox.content?_put m _⟩

theorem mailboxAfter_cases (id : Nat) (events : List (Event π)) :
    (∃ m, mailboxAfter id events = some m ∧ Held id events ∧
        m.content? = events.findSome? (Event.outcome? id)) ∨
      mailboxAfter id events = none ∧ ¬ Held id events := by
  induction events using List.reverseRecOn with
  | nil => exact .inl ⟨.waiting, rfl, held_nil id, rfl⟩
  | append_singleton events e ih =>
      rw [mailboxAfter_concat, held_concat_iff]
      rcases ih with ⟨m, hm, hheld, hcontent⟩ | ⟨hm, hheld⟩
      · rw [hm, Option.bind_some]
        rcases after_cases hcontent e with ⟨left, hleft, htakes, hnext⟩ | ⟨hleft, htakes⟩
        · exact .inl ⟨left, hleft, ⟨hheld, htakes⟩, hnext⟩
        · exact .inr ⟨hleft, fun h => h.2 htakes⟩
      · exact .inr ⟨by rw [hm]; rfl, fun h => hheld h.1⟩

/-- Nothing has ended an exchange, and nobody has taken its handle. -/
def Undecided (id : Nat) (events : List (Event π)) : Prop :=
  ∀ e ∈ events, e.outcome? id = none ∧ e ≠ .drop id

theorem held_of_undecided {id : Nat} {events : List (Event π)} (h : Undecided id events) :
    Held id events := by
  intro done e hp htakes
  have hmem : ∀ e' ∈ done ++ [e], e'.outcome? id = none := fun e' he' => (h e' (hp.subset he')).1
  cases e with
  | drop i =>
      obtain rfl : i = id := htakes
      exact (h (.drop i) (hp.subset (by simp))).2 rfl
  | wait i timeUp => exact htakes.2 (List.findSome?_eq_none_iff.mpr hmem)
  | _ => exact htakes

theorem undecided_iff {id : Nat} {events : List (Event π)} :
    Undecided id events ↔ mailboxAfter id events = some .waiting := by
  constructor
  · intro h
    have hnone : events.findSome? (Event.outcome? id) = none :=
      List.findSome?_eq_none_iff.mpr fun e he => (h e he).1
    rcases mailboxAfter_cases id events with ⟨m, hm, -, hcontent⟩ | ⟨-, hheld⟩
    · rw [hnone] at hcontent
      cases m with
      | waiting => exact hm
      | filled | severed => cases hcontent
    · exact absurd (held_of_undecided h) hheld
  · intro h e he
    rcases mailboxAfter_cases id events with ⟨m, hm, hheld, hcontent⟩ | ⟨hm, -⟩
    · rw [h] at hm
      obtain rfl := Option.some.inj hm
      refine ⟨List.findSome?_eq_none_iff.mp hcontent.symm e he, ?_⟩
      rintro rfl
      obtain ⟨done, rest, rfl⟩ := List.append_of_mem he
      exact hheld done (.drop id) ⟨rest, by simp⟩ rfl
    · rw [h] at hm
      cases hm

/-- The mailbox of an exchange sees the events that concern the exchange and no others. -/
theorem mailboxAfter_filter (id : Nat) (events : List (Event π)) :
    mailboxAfter id (events.filter (Event.concerns id)) = mailboxAfter id events := by
  induction events using List.reverseRecOn with
  | nil => rfl
  | append_singleton events e ih =>
      rw [List.filter_append, mailboxAfter_concat, ← ih]
      cases he : e.concerns id with
      | true => simp [he, mailboxAfter_concat]
      | false =>
          have hafter : ∀ m : Mailbox π, m.after id e = some m := by
            intro m
            cases e <;> simp_all [Event.concerns, Mailbox.after]
          simp [he, hafter]

namespace Table

theorem mailbox?_run_of_allocate {t opened : Table π} {id : Nat} (h : t.Sound)
    (hopened : t.allocate = .ok (id, opened)) (events : List (Event π)) :
    (opened.run events).mailbox? id = mailboxAfter id events ∧
      id < (opened.run events).nextId := by
  induction events using List.reverseRecOn with
  | nil =>
      obtain ⟨-, hid, hnext⟩ := allocate_eq_ok_iff.mp hopened
      refine ⟨?_, ?_⟩
      · simp [run, mailboxAfter, mailbox?_of_allocate hopened]
      · simp only [run, List.foldl_nil, hnext]
        omega
  | append_singleton events e ih =>
      have hsound := (h.of_allocate hopened).run events
      rw [run_concat, mailboxAfter_concat]
      refine ⟨?_, ih.2.trans_le (nextId_le_apply _ e)⟩
      rcases mailbox?_apply hsound id e with heq | ⟨-, again, hagain⟩
      · rw [heq, ih.1]
      · obtain ⟨-, hid, -⟩ := allocate_eq_ok_iff.mp hagain
        omega

/-- What a wait gets at one look. It takes the handle of the exchange, so without that there is
no wait. -/
def waited? (t : Table π) (id : Nat) (timeUp : Bool) : Option (Except Failure π) :=
  if (t.mailbox? id).isSome then (t.poll id timeUp).map Prod.fst else none

theorem waited?_of_mailbox? {t : Table π} {id : Nat} {m : Mailbox π}
    (h : t.mailbox? id = some m) (timeUp : Bool) :
    t.waited? id timeUp = m.content?.or (if timeUp then some (.error .timeout) else none) := by
  rw [waited?, h, Option.isSome_some, if_pos rfl, poll, received?_of_mailbox? h]
  cases m.content? <;> cases timeUp <;> rfl

theorem waited?_congr {t s : Table π} {id : Nat} (h : t.mailbox? id = s.mailbox? id)
    (timeUp : Bool) : t.waited? id timeUp = s.waited? id timeUp := by
  cases hm : s.mailbox? id with
  | none => simp [waited?, h, hm]
  | some m => rw [waited?_of_mailbox? (h.trans hm), waited?_of_mailbox? hm]

theorem put_comm (t : Table π) {id other : Nat} (h : id ≠ other) (state next : Mailbox π) :
    (t.put id state).put other next = (t.put other next).put id state := by
  simp only [put, List.map_map, mk.injEq, true_and, and_true]
  apply List.map_congr_left
  intro entry _
  by_cases hid : entry.1 = id
  · simp [hid, h]
  · by_cases hother : entry.1 = other <;> simp [hid, hother, h.symm]

theorem waits_put_of_ne (t : Table π) {id other : Nat} (h : id ≠ other) (state : Mailbox π) :
    (t.put id state).waits other = t.waits other := by
  simp only [waits, put, List.any_map]
  congr 1
  funext entry
  by_cases hid : entry.1 = id
  · have hne : (id == other) = false := by simpa using h
    simp [hid, hne]
  · simp [hid]

/-- Responses to different exchanges may come in either order. -/
theorem resolve_comm (t : Table π) {id other : Nat} (h : id ≠ other) (payload next : π) :
    ((t.resolve id payload).2.resolve other next).2 =
        ((t.resolve other next).2.resolve id payload).2 ∧
      ((t.resolve id payload).2.resolve other next).1 = (t.resolve other next).1 :=
  ⟨put_comm t h _ _, waits_put_of_ne t h _⟩

/-! ## The whole table -/

/-- Behind these events an exchange is open: it was opened, and since then nothing has ended it and
its handle has not been dropped. -/
def Open (id : Nat) (events : List (Event π)) : Prop :=
  ∃ before opened since, events = before ++ .allocate :: since ∧
    (empty.run before).allocate = .ok (id, opened) ∧ Undecided id since

theorem run_of_allocate {t opened : Table π} {id : Nat} {before : List (Event π)}
    (h : (t.run before).allocate = .ok (id, opened)) (since : List (Event π)) :
    t.run (before ++ .allocate :: since) = opened.run since := by
  rw [run_append]
  change ((t.run before).apply .allocate).run since = _
  rw [apply_allocate_of_ok h]

/-- Whoever holds a handle has opened the exchange. -/
theorem exists_allocate_of_mailbox? {events : List (Event π)} {id : Nat} {m : Mailbox π}
    (h : (empty.run events).mailbox? id = some m) :
    ∃ before opened since, events = before ++ .allocate :: since ∧
      (empty.run before).allocate = .ok (id, opened) := by
  induction events using List.reverseRecOn generalizing m with
  | nil => cases h
  | append_singleton events e ih =>
      rw [run_concat] at h
      rcases mailbox?_apply (sound_empty.run events) id e with heq | ⟨rfl, opened, hopened⟩
      · rw [heq] at h
        obtain ⟨old, hold, -⟩ := Option.bind_eq_some_iff.mp h
        obtain ⟨before, opened, since, rfl, hopened⟩ := ih hold
        exact ⟨before, opened, since ++ [e], by simp, hopened⟩
      · exact ⟨events, opened, [], rfl, hopened⟩

theorem waits_run_empty_iff {events : List (Event π)} {id : Nat} :
    (empty.run events).waits id = true ↔ Open id events := by
  rw [waits_iff (sound_empty.run events)]
  constructor
  · intro h
    obtain ⟨before, opened, since, rfl, hopened⟩ := exists_allocate_of_mailbox? h
    refine ⟨before, opened, since, rfl, hopened, undecided_iff.mpr ?_⟩
    rw [← h, run_of_allocate hopened]
    exact (mailbox?_run_of_allocate (sound_empty.run before) hopened since).1.symm
  · rintro ⟨before, opened, since, rfl, hopened, hundecided⟩
    rw [run_of_allocate hopened, ← undecided_iff.mp hundecided]
    exact (mailbox?_run_of_allocate (sound_empty.run before) hopened since).1

section

variable {before : List (Event π)} {opened : Table π} {id : Nat}

/-- While the handle is held, a wait gets what came first, its own time included. -/
theorem waited?_run_of_held (h : (empty.run before).allocate = .ok (id, opened))
    {events : List (Event π)} (hheld : Held id events) (timeUp : Bool) :
    (opened.run events).waited? id timeUp =
      (events ++ [Event.wait id timeUp]).findSome? (Event.outcome? id) := by
  have hmailbox := (mailbox?_run_of_allocate (sound_empty.run before) h events).1
  rcases mailboxAfter_cases id events with ⟨m, hm, -, hcontent⟩ | ⟨-, hnot⟩
  · rw [waited?_of_mailbox? (hmailbox.trans hm), findSome?_concat, hcontent]
    simp [Event.outcome?]
  · exact absurd hheld hnot

theorem waited?_run_of_not_held (h : (empty.run before).allocate = .ok (id, opened))
    {events : List (Event π)} (hheld : ¬ Held id events) (timeUp : Bool) :
    (opened.run events).waited? id timeUp = none := by
  have hmailbox := (mailbox?_run_of_allocate (sound_empty.run before) h events).1
  rcases mailboxAfter_cases id events with ⟨-, -, hyes, -⟩ | ⟨hm, -⟩
  · exact absurd hyes hheld
  · simp [waited?, hmailbox, hm]

theorem held_of_waited?_eq_some (h : (empty.run before).allocate = .ok (id, opened))
    {events : List (Event π)} {timeUp : Bool} {result : Except Failure π}
    (hresult : (opened.run events).waited? id timeUp = some result) : Held id events := by
  by_contra hheld
  rw [waited?_run_of_not_held h hheld] at hresult
  cases hresult

/-- What a wait has got was got with the handle, which then is gone. -/
theorem not_held_of_waited?_eq_some (h : (empty.run before).allocate = .ok (id, opened))
    {events : List (Event π)} {timeUp : Bool} {result : Except Failure π}
    (hresult : (opened.run events).waited? id timeUp = some result) (later : List (Event π)) :
    ¬ Held id (events ++ .wait id timeUp :: later) := by
  have hheld := held_of_waited?_eq_some h hresult
  rw [waited?_run_of_held h hheld] at hresult
  intro hlater
  apply hlater events (.wait id timeUp) ⟨later, by simp⟩
  exact ⟨rfl, by rw [hresult]; simp⟩

/-- What comes first decides. A wait that holds the handle gets the first thing that has ended the
exchange, its own time included, and only one wait gets it; what concerns other exchanges has no
part in it, so responses may come in any order; and a response or a cancellation finds somebody
waiting exactly while the exchange is open. -/
theorem waited?_run_of_allocate (h : (empty.run before).allocate = .ok (id, opened)) :
    (∀ events timeUp, Held id events →
        (opened.run events).waited? id timeUp =
          (events ++ [Event.wait id timeUp]).findSome? (Event.outcome? id)) ∧
      (∀ events timeUp, ¬ Held id events → (opened.run events).waited? id timeUp = none) ∧
      (∀ events timeUp result later again,
        (opened.run events).waited? id timeUp = some result →
          (opened.run (events ++ .wait id timeUp :: later)).waited? id again = none) ∧
      (∀ events others, events.filter (Event.concerns id) = others.filter (Event.concerns id) →
        ∀ timeUp, (opened.run events).waited? id timeUp = (opened.run others).waited? id timeUp) ∧
      (∀ (t : Table π) other payload next, id ≠ other →
        ((t.resolve id payload).2.resolve other next).2 =
            ((t.resolve other next).2.resolve id payload).2 ∧
          ((t.resolve id payload).2.resolve other next).1 = (t.resolve other next).1) ∧
      ∀ (events : List (Event π)) own payload,
        (((empty.run events).resolve own payload).1 = true ↔ Open own events) ∧
          (((empty.run events).cancel own).1 = true ↔ Open own events) := by
  refine ⟨?_, ?_, ?_, ?_, ?_, ?_⟩
  · intro events timeUp hheld
    exact waited?_run_of_held h hheld timeUp
  · intro events timeUp hheld
    exact waited?_run_of_not_held h hheld timeUp
  · intro events timeUp result later again hresult
    exact waited?_run_of_not_held h (not_held_of_waited?_eq_some h hresult later) again
  · intro events others hsame timeUp
    have hmailbox : (opened.run events).mailbox? id = (opened.run others).mailbox? id := by
      rw [(mailbox?_run_of_allocate (sound_empty.run before) h events).1,
        (mailbox?_run_of_allocate (sound_empty.run before) h others).1,
        ← mailboxAfter_filter, hsame, mailboxAfter_filter]
    exact waited?_congr hmailbox timeUp
  · intro t other payload next hne
    exact resolve_comm t hne payload next
  · intro events own payload
    exact ⟨waits_run_empty_iff, waits_run_empty_iff⟩

/-- The second exchange of two gets its own response, though the connection fails before anybody
looks. -/
theorem waited?_run_second_exchange :
    let before : List (Event Text) := [.settings ⟨none⟩, .allocate]
    let opened := empty.run (before ++ [.allocate])
    let start : List (Event Text) := [.resolve 3 "first".toList, .wait 5 false]
    let events := start ++ [.resolve 5 "second".toList] ++ [.failAll ⟨.connectionReset, none⟩]
    (empty.run before).allocate = .ok (5, opened) ∧ Held 5 events ∧
      (opened.run events).waited? 5 true = some (.ok "second".toList) := by
  intro before opened start events
  have hopened : (empty.run before).allocate = .ok (5, opened) := rfl
  have hstart : Held 5 start := held_of_undecided (by simp [start, Undecided, Event.outcome?])
  have hresponse : Held 5 (start ++ [.resolve 5 "second".toList]) :=
    held_concat_iff.mpr ⟨hstart, not_false⟩
  have hheld : Held 5 events := held_concat_iff.mpr ⟨hresponse, not_false⟩
  exact ⟨hopened, hheld, (waited?_run_of_allocate hopened).1 events true hheld⟩

end

end Table

end HttpExchange.Streams
