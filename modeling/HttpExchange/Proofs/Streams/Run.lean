import HttpExchange.Streams.Table
import Mathlib.Data.List.Nodup

/-! # Runs of a table

Everything that can happen to a table, one thing after the other, and what holds of the table at
any time. -/

namespace HttpExchange.Streams

/-- What can happen to a table. -/
inductive Event (π : Type) where
  | settings (settings : PeerSettings)
  | allocate
  | resolve (id : Nat) (payload : π)
  | cancel (id : Nat)
  | failAll (cause : Cause)
  /-- A caller that waits for a response looks, its time being up or not. -/
  | wait (id : Nat) (timeUp : Bool)
  /-- The handle of an exchange is dropped. -/
  | drop (id : Nat)
  /-- The last hold on the table is dropped. -/
  | sever

variable {π : Type}

namespace Table

/-- The table behind an event. -/
def apply (t : Table π) : Event π → Table π
  | .settings settings => t.settingsReceived settings
  | .allocate => match t.allocate with
    | .ok (_, opened) => opened
    | .error _ => t
  | .resolve id payload => (t.resolve id payload).2
  | .cancel id => (t.cancel id).2
  | .failAll cause => (t.failAll cause).2
  | .wait id timeUp => match t.poll id timeUp with
    | some (_, left) => left
    | none => t
  | .drop id => t.release id
  | .sever => t.sever

/-- The table behind events. -/
def run (t : Table π) (events : List (Event π)) : Table π := events.foldl apply t

theorem run_append (t : Table π) (events more : List (Event π)) :
    t.run (events ++ more) = (t.run events).run more := List.foldl_append

theorem run_concat (t : Table π) (events : List (Event π)) (e : Event π) :
    t.run (events ++ [e]) = (t.run events).apply e := run_append t events [e]

/-! ## What an event does -/

theorem allocate_eq_ok_iff {t opened : Table π} {id : Nat} :
    t.allocate = .ok (id, opened) ↔
      t.obstacle? = none ∧ id = t.nextId ∧
        opened = ⟨t.nextId + 2, (t.nextId, .waiting) :: t.exchanges, t.closed, t.barrier⟩ := by
  rw [allocate]
  cases h : t.obstacle? with
  | some failure => simp
  | none =>
      simp only [Except.ok.injEq, Prod.mk.injEq, true_and]
      exact and_congr eq_comm eq_comm

theorem apply_allocate_of_ok {t opened : Table π} {id : Nat}
    (h : t.allocate = .ok (id, opened)) : t.apply .allocate = opened := by
  simp only [apply, h]

theorem apply_allocate_of_obstacle {t : Table π} {failure : Failure}
    (h : t.obstacle? = some failure) : t.apply .allocate = t := by
  simp only [apply, allocate, h]

/-- A wait that comes to an end takes the mailbox with it. -/
theorem apply_wait (t : Table π) (id : Nat) (timeUp : Bool) :
    t.apply (.wait id timeUp) =
      if (t.received? id).isSome || timeUp then t.release id else t := by
  simp only [apply, poll]
  cases t.received? id with
  | some result => simp
  | none => cases timeUp <;> simp

theorem apply_failAll (t : Table π) (cause : Cause) :
    t.apply (.failAll cause) =
      if t.closed then t
      else ⟨t.nextId, (t.putAll (.filled (.error (.connection cause)))).exchanges, true, .closed⟩ := by
  simp only [apply, failAll]
  split <;> rfl

/-! ## What holds at any time -/

/-- Identifiers are handed out once each, and a closed table stays closed and has nobody waiting
in it. -/
structure Sound (t : Table π) : Prop where
  fresh : ∀ entry ∈ t.exchanges, entry.1 < t.nextId
  distinct : (t.exchanges.map Prod.fst).Nodup
  barrier : t.closed = true → t.barrier = .closed
  idle : t.closed = true → ∀ entry ∈ t.exchanges, entry.2.isWaiting = false

theorem sound_empty : (empty : Table π).Sound :=
  ⟨by simp [empty], by simp [empty], by simp [empty], by simp [empty]⟩

theorem Sound.settingsReceived {t : Table π} (h : t.Sound) (settings : PeerSettings) :
    (t.settingsReceived settings).Sound := by
  rw [Table.settingsReceived]
  split
  · rename_i hpending
    have hopen : t.closed ≠ true := fun hclosed => by simp [h.barrier hclosed] at hpending
    exact ⟨h.fresh, h.distinct, fun hclosed => absurd hclosed hopen, h.idle⟩
  · exact h

theorem closed_of_obstacle?_eq_none {t : Table π} (h : t.obstacle? = none) : t.closed = false := by
  cases hclosed : t.closed with
  | false => rfl
  | true => cases hb : t.barrier <;> simp [obstacle?, hb, hclosed] at h

theorem Sound.of_allocate {t opened : Table π} {id : Nat} (h : t.Sound)
    (hopened : t.allocate = .ok (id, opened)) : opened.Sound := by
  obtain ⟨hnone, rfl, rfl⟩ := allocate_eq_ok_iff.mp hopened
  have hclosed := closed_of_obstacle?_eq_none hnone
  refine ⟨?_, ?_, by simp [hclosed], by simp [hclosed]⟩
  · intro entry hentry
    rcases List.mem_cons.mp hentry with rfl | hentry
    · simp
    · have := h.fresh entry hentry
      simp only
      omega
  · rw [List.map_cons, List.nodup_cons]
    refine ⟨?_, h.distinct⟩
    intro hmem
    obtain ⟨entry, hentry, heq⟩ := List.mem_map.mp hmem
    have := h.fresh entry hentry
    omega

/-- Mailboxes may change if those that do not wait stay so. -/
theorem Sound.map {t : Table π} (h : t.Sound) (change : Nat → Mailbox π → Mailbox π)
    (hchange : ∀ id m, m.isWaiting = false → (change id m).isWaiting = false) :
    Sound { t with
      exchanges := t.exchanges.map fun entry => (entry.1, change entry.1 entry.2) } := by
  refine ⟨?_, ?_, h.barrier, ?_⟩
  · intro entry hentry
    obtain ⟨old, hold, rfl⟩ := List.mem_map.mp hentry
    exact h.fresh old hold
  · simpa [List.map_map, Function.comp_def] using h.distinct
  · intro hclosed entry hentry
    obtain ⟨old, hold, rfl⟩ := List.mem_map.mp hentry
    exact hchange _ _ (h.idle hclosed old hold)

theorem isWaiting_put (m state : Mailbox π) :
    (m.put state).isWaiting = (m.isWaiting && state.isWaiting) := by
  cases h : m.isWaiting <;> simp [Mailbox.put, h]

theorem Sound.put {t : Table π} (h : t.Sound) (id : Nat) (state : Mailbox π) :
    (t.put id state).Sound := by
  have hput : t.put id state = { t with
      exchanges := t.exchanges.map fun entry =>
        (entry.1, if entry.1 = id then entry.2.put state else entry.2) } := by
    rw [Table.put]
    congr 2
    funext entry
    split <;> rfl
  rw [hput]
  apply h.map fun own m => if own = id then m.put state else m
  intro own m hm
  split
  · rw [isWaiting_put, hm, Bool.false_and]
  · exact hm

theorem Sound.putAll {t : Table π} (h : t.Sound) (state : Mailbox π) : (t.putAll state).Sound :=
  h.map (fun _ m => m.put state) fun _ m hm => by rw [isWaiting_put, hm, Bool.false_and]

theorem Sound.failAll {t : Table π} (h : t.Sound) (cause : Cause) : (t.failAll cause).2.Sound := by
  rw [Table.failAll]
  split
  · exact h
  · have hput := h.putAll (.filled (.error (.connection cause)))
    refine ⟨hput.fresh, hput.distinct, fun _ => rfl, ?_⟩
    intro _ entry hentry
    obtain ⟨old, -, rfl⟩ := List.mem_map.mp hentry
    rw [isWaiting_put]
    exact Bool.and_false _

theorem Sound.release {t : Table π} (h : t.Sound) (id : Nat) : (t.release id).Sound := by
  have hsub : (t.release id).exchanges.Sublist t.exchanges := List.filter_sublist
  refine ⟨fun entry hentry => h.fresh entry (hsub.subset hentry),
    h.distinct.sublist (hsub.map Prod.fst), h.barrier,
    fun hclosed entry hentry => h.idle hclosed entry (hsub.subset hentry)⟩

theorem Sound.apply {t : Table π} (h : t.Sound) (e : Event π) : (t.apply e).Sound := by
  cases e with
  | settings settings => exact h.settingsReceived settings
  | allocate =>
      cases hobstacle : t.obstacle? with
      | some failure =>
          rw [apply_allocate_of_obstacle hobstacle]
          exact h
      | none =>
          have hok := allocate_eq_ok_iff.mpr ⟨hobstacle, rfl, rfl⟩
          rw [apply_allocate_of_ok hok]
          exact h.of_allocate hok
  | resolve id payload => exact h.put id _
  | cancel id => exact h.put id _
  | failAll cause => exact h.failAll cause
  | wait id timeUp =>
      rw [apply_wait]
      split
      · exact h.release id
      · exact h
  | drop id => exact h.release id
  | sever => exact h.putAll _

theorem Sound.run {t : Table π} (h : t.Sound) (events : List (Event π)) :
    (t.run events).Sound := by
  induction events generalizing t with
  | nil => exact h
  | cons e events ih => exact ih (h.apply e)

end Table

/-! ## One mailbox -/

/-- What a caller finds in a mailbox. -/
def Mailbox.content? : Mailbox π → Option (Except Failure π)
  | waiting => none
  | filled result => some result
  | severed => some (.error .cancelled)

/-- What an event leaves of the mailbox of an exchange. -/
def Mailbox.after (m : Mailbox π) (id : Nat) : Event π → Option (Mailbox π)
  | .settings _ | .allocate => some m
  | .resolve i payload => some (if i = id then m.put (.filled (.ok payload)) else m)
  | .cancel i => some (if i = id then m.put .severed else m)
  | .failAll cause => some (m.put (.filled (.error (.connection cause))))
  | .wait i timeUp => if i = id ∧ (m.content?.isSome || timeUp) = true then none else some m
  | .drop i => if i = id then none else some m
  | .sever => some (m.put .severed)

theorem Mailbox.content?_put (m state : Mailbox π) :
    (m.put state).content? = m.content?.or state.content? := by
  cases m <;> simp [put, isWaiting, content?]

namespace Table

theorem received?_of_mailbox? {t : Table π} {id : Nat} {m : Mailbox π}
    (h : t.mailbox? id = some m) : t.received? id = m.content? := by
  cases m <;> simp [received?, h, Mailbox.content?]

theorem mailbox?_of_allocate {t opened : Table π} {id : Nat} (h : t.allocate = .ok (id, opened))
    (other : Nat) :
    opened.mailbox? other = if other = id then some .waiting else t.mailbox? other := by
  obtain ⟨-, rfl, rfl⟩ := allocate_eq_ok_iff.mp h
  by_cases hid : other = t.nextId
  · simp [mailbox?, hid]
  · have hne : (other == t.nextId) = false := by simpa using hid
    simp [mailbox?, List.lookup_cons, hne, hid]

theorem exchanges_settingsReceived (t : Table π) (settings : PeerSettings) :
    (t.settingsReceived settings).exchanges = t.exchanges := by
  rw [settingsReceived]
  split <;> rfl

theorem mailbox?_mem {t : Table π} {id : Nat} {m : Mailbox π} (h : t.mailbox? id = some m) :
    (id, m) ∈ t.exchanges := by
  rw [mailbox?, List.lookup_eq_some_iff] at h
  obtain ⟨front, behind, heq, -⟩ := h
  simp [heq]

theorem mailbox?_eq_some_iff {t : Table π} (h : t.Sound) {id : Nat} {m : Mailbox π} :
    t.mailbox? id = some m ↔ (id, m) ∈ t.exchanges := by
  refine ⟨mailbox?_mem, ?_⟩
  intro hmem
  obtain ⟨front, behind, heq⟩ := List.append_of_mem hmem
  rw [mailbox?, List.lookup_eq_some_iff]
  refine ⟨front, behind, heq, ?_⟩
  intro entry hentry
  have hdistinct := h.distinct
  rw [heq, List.map_append, List.nodup_append] at hdistinct
  have hne := hdistinct.2.2 entry.1 (List.mem_map_of_mem hentry) id (by simp)
  simpa using hne.symm

theorem waits_iff {t : Table π} (h : t.Sound) {id : Nat} :
    t.waits id = true ↔ t.mailbox? id = some .waiting := by
  rw [mailbox?_eq_some_iff h, waits, List.any_eq_true]
  constructor
  · rintro ⟨⟨own, m⟩, hentry, hboth⟩
    obtain ⟨rfl, hm⟩ : own = id ∧ m.isWaiting = true := by simpa using hboth
    cases m with
    | waiting => exact hentry
    | filled | severed => cases hm
  · intro hentry
    exact ⟨_, hentry, by simp [Mailbox.isWaiting]⟩

theorem mailbox?_failAll {t : Table π} (h : t.Sound) (cause : Cause) (id : Nat) :
    (t.failAll cause).2.mailbox? id =
      (t.mailbox? id).map fun m => m.put (.filled (.error (.connection cause))) := by
  rw [failAll]
  split
  · rename_i hclosed
    cases hm : t.mailbox? id with
    | none => rfl
    | some m =>
        have hidle := h.idle hclosed (id, m) (mailbox?_mem hm)
        rw [Option.map_some, Mailbox.put_of_not_isWaiting hidle]
  · exact mailbox?_putAll t id _

theorem mailbox?_wait (t : Table π) (id : Nat) (timeUp : Bool) (other : Nat) :
    (t.apply (.wait id timeUp)).mailbox? other =
      (t.mailbox? other).bind (·.after other (.wait id timeUp)) := by
  rw [apply_wait]
  by_cases hid : id = other
  · subst hid
    cases hm : t.mailbox? id with
    | none => split <;> simp [mailbox?_release, hm]
    | some m =>
        rw [received?_of_mailbox? hm]
        split
        · rename_i hend
          simp only [Option.bind_some, Mailbox.after, hend, and_self, if_true, mailbox?_release]
        · rename_i hend
          rw [Option.bind_some, Mailbox.after, if_neg fun hand => hend hand.2, hm]
  · have hkeep : (t.release id).mailbox? other = t.mailbox? other := by
      simp [mailbox?_release, Ne.symm hid]
    split <;> simp [Mailbox.after, hid, hkeep]

/-- An event acts on the mailbox of an exchange, or it opens the exchange. -/
theorem mailbox?_apply {t : Table π} (h : t.Sound) (id : Nat) (e : Event π) :
    (t.apply e).mailbox? id = (t.mailbox? id).bind (·.after id e) ∨
      e = .allocate ∧ ∃ opened, t.allocate = .ok (id, opened) := by
  cases e with
  | settings settings =>
      left
      simp only [mailbox?, apply, exchanges_settingsReceived]
      exact (Option.bind_fun_some _).symm
  | allocate =>
      cases hobstacle : t.obstacle? with
      | some failure =>
          left
          simp [apply_allocate_of_obstacle hobstacle, Mailbox.after]
      | none =>
          have hok := allocate_eq_ok_iff.mpr ⟨hobstacle, rfl, rfl⟩
          by_cases hid : id = t.nextId
          · right
            exact ⟨rfl, _, hid ▸ hok⟩
          · left
            rw [apply_allocate_of_ok hok, mailbox?_of_allocate hok, if_neg hid]
            simp [Mailbox.after]
  | resolve i payload =>
      left
      simp only [apply, resolve, mailbox?_put, Mailbox.after, eq_comm (a := id)]
      exact Option.map_eq_bind
  | cancel i =>
      left
      simp only [apply, cancel, mailbox?_put, Mailbox.after, eq_comm (a := id)]
      exact Option.map_eq_bind
  | failAll cause =>
      left
      rw [apply, mailbox?_failAll h]
      exact Option.map_eq_bind
  | wait i timeUp =>
      left
      exact mailbox?_wait t i timeUp id
  | drop i =>
      left
      simp only [apply, mailbox?_release, Mailbox.after]
      cases t.mailbox? id <;> simp [eq_comm]
  | sever =>
      left
      rw [apply, sever, mailbox?_putAll]
      exact Option.map_eq_bind

theorem nextId_le_apply (t : Table π) (e : Event π) : t.nextId ≤ (t.apply e).nextId := by
  cases e with
  | settings settings =>
      rw [apply, settingsReceived]
      split <;> exact Nat.le_refl _
  | allocate =>
      cases hobstacle : t.obstacle? with
      | some failure => exact Nat.le_of_eq (by rw [apply_allocate_of_obstacle hobstacle])
      | none =>
          rw [apply_allocate_of_ok (allocate_eq_ok_iff.mpr ⟨hobstacle, rfl, rfl⟩)]
          exact Nat.le_add_right _ _
  | failAll cause =>
      rw [apply_failAll]
      split <;> exact Nat.le_refl _
  | wait id timeUp =>
      rw [apply_wait]
      split <;> exact Nat.le_refl _
  | resolve | cancel | drop | sever => exact Nat.le_refl _

end Table

end HttpExchange.Streams
