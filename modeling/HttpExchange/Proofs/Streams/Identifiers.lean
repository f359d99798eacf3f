import HttpExchange.Proofs.Streams.Run
import Mathlib.Algebra.Group.Nat.Defs

/-! # The identifiers of exchanges

A table hands out the odd numbers from the first identifier on, in their order, until none is left
that a client may use. An exchange that is in the table has one of them, and an allocation that
fails costs none. Main statement: `issued_run`. -/

namespace HttpExchange.Streams.Table

variable {π : Type}

/-- The identifier that an event hands out. -/
def issued? (t : Table π) : Event π → Option Nat
  | .allocate => match t.allocate with
    | .ok (id, _) => some id
    | .error _ => none
  | _ => none

/-- The identifiers that events hand out, in their order. -/
def issued (t : Table π) : List (Event π) → List Nat
  | [] => []
  | e :: events => (t.issued? e).toList ++ (t.apply e).issued events

/-- The identifiers of all exchanges whose handles are held. -/
def ids (t : Table π) : List Nat := t.exchanges.map Prod.fst

/-! ## One event -/

theorem issued?_allocate_of_ok {t opened : Table π} {id : Nat}
    (h : t.allocate = .ok (id, opened)) : t.issued? .allocate = some id := by
  simp only [issued?, h]

theorem issued?_allocate_of_error {t : Table π} {failure : Failure}
    (h : t.allocate = .error failure) : t.issued? .allocate = none := by
  simp only [issued?, h]

theorem allocate_eq_error_iff {t : Table π} {failure : Failure} :
    t.allocate = .error failure ↔ t.obstacle? = some failure := by
  rw [allocate]
  cases t.obstacle? with
  | none => simp
  | some other => simp

/-- An allocation hands out the next identifier, or there is an obstacle. -/
theorem allocate_cases (t : Table π) :
    (∃ failure, t.allocate = .error failure ∧ t.apply .allocate = t) ∨
      t.allocate = .ok (t.nextId, t.apply .allocate) := by
  cases h : t.obstacle? with
  | some failure =>
      exact .inl ⟨failure, allocate_eq_error_iff.mpr h, apply_allocate_of_obstacle h⟩
  | none =>
      have hok := allocate_eq_ok_iff.mpr ⟨h, rfl, rfl⟩
      exact .inr (by rw [apply_allocate_of_ok hok, hok])

/-- What stands in the way of a new exchange, the first of several reasons. -/
inductive Obstructed (t : Table π) : Option Failure → Prop where
  | notReady (hbarrier : t.barrier = .pending) : Obstructed t (some .notReady)
  | closed (hclosed : t.barrier = .closed ∨ t.closed = true) : Obstructed t (some .closed)
  | tooMany {max : UInt32} (hbarrier : t.barrier = .ready ⟨some max⟩) (hopen : t.closed = false)
      (hfull : max.toNat ≤ t.pendingCount) : Obstructed t (some (.tooMany max))
  | idsExhausted (hused : maxId < t.nextId) : Obstructed t (some .idsExhausted)
  | free {settings : PeerSettings} (hbarrier : t.barrier = .ready settings)
      (hopen : t.closed = false)
      (hroom : ∀ max ∈ settings.maxConcurrent, t.pendingCount < max.toNat)
      (hleft : t.nextId ≤ maxId) : Obstructed t none

theorem obstructed_obstacle? (t : Table π) : t.Obstructed t.obstacle? := by
  unfold obstacle?
  split
  · rename_i hbarrier
    exact .notReady hbarrier
  · rename_i hbarrier
    exact .closed (.inl hbarrier)
  · rename_i settings hbarrier
    rcases settings with ⟨limit⟩
    cases hclosed : t.closed with
    | true => exact .closed (.inr hclosed)
    | false =>
        simp only [Bool.false_eq_true, if_false]
        split
        · rename_i max
          split
          · rename_i hfull
            exact .tooMany hbarrier hclosed hfull
          · rename_i hroom
            split
            · rename_i hused
              exact .idsExhausted hused
            · rename_i hleft
              exact .free hbarrier hclosed (by simpa using hroom) (Nat.le_of_not_lt hleft)
        · split
          · rename_i hused
            exact .idsExhausted hused
          · rename_i hleft
            exact .free hbarrier hclosed (by simp) (Nat.le_of_not_lt hleft)

theorem nextId_le_of_allocate {t opened : Table π} {id : Nat}
    (h : t.allocate = .ok (id, opened)) : t.nextId ≤ maxId := by
  have hfree := t.obstructed_obstacle?
  rw [(allocate_eq_ok_iff.mp h).1] at hfree
  cases hfree with
  | free _ _ _ hleft => exact hleft

theorem lt_nextId_of_idsExhausted {t : Table π} (h : t.allocate = .error .idsExhausted) :
    maxId < t.nextId := by
  have hused := t.obstructed_obstacle?
  rw [allocate_eq_error_iff.mp h] at hused
  cases hused with
  | idsExhausted hused => exact hused

theorem nextId_apply (t : Table π) (e : Event π) :
    (t.apply e).nextId = t.nextId + 2 * (t.issued? e).toList.length := by
  cases e with
  | settings settings =>
      rw [apply, settingsReceived]
      split <;> rfl
  | allocate =>
      rcases allocate_cases t with ⟨failure, herror, hsame⟩ | hok
      · rw [hsame, issued?_allocate_of_error herror]
        rfl
      · obtain ⟨-, -, hopened⟩ := allocate_eq_ok_iff.mp hok
        rw [hopened, issued?_allocate_of_ok hok]
        rfl
  | failAll cause =>
      rw [apply_failAll]
      split <;> rfl
  | wait id timeUp =>
      rw [apply_wait]
      split <;> rfl
  | resolve | cancel | drop | sever => rfl

theorem issued?_eq_nextId {t : Table π} {e : Event π} {id : Nat} (h : t.issued? e = some id) :
    id = t.nextId ∧ t.nextId ≤ maxId := by
  cases e with
  | allocate =>
      rcases allocate_cases t with ⟨failure, herror, -⟩ | hok
      · rw [issued?_allocate_of_error herror] at h
        cases h
      · rw [issued?_allocate_of_ok hok] at h
        exact ⟨(Option.some.inj h).symm, nextId_le_of_allocate hok⟩
  | _ => cases h

/-- No event brings an exchange into the table but the one that hands out its identifier. -/
theorem ids_apply_sublist (t : Table π) (e : Event π) :
    (t.apply e).ids.Sublist ((t.issued? e).toList ++ t.ids) := by
  have hrelease : ∀ id, (t.release id).ids.Sublist t.ids := by
    intro id
    exact List.filter_sublist.map Prod.fst
  have hputAll : ∀ state, (t.putAll state).ids = t.ids := by
    intro state
    simp [ids, putAll, Function.comp_def]
  have hput : ∀ id state, (t.put id state).ids = t.ids := by
    intro id state
    rw [ids, put, List.map_map]
    apply List.map_congr_left
    intro entry _
    simp only [Function.comp_apply]
    split <;> rfl
  cases e with
  | settings settings =>
      rw [apply, ids, exchanges_settingsReceived]
      exact List.Sublist.refl _
  | allocate =>
      rcases allocate_cases t with ⟨failure, herror, hsame⟩ | hok
      · rw [hsame, issued?_allocate_of_error herror]
        exact List.Sublist.refl _
      · obtain ⟨-, -, hopened⟩ := allocate_eq_ok_iff.mp hok
        rw [hopened, issued?_allocate_of_ok hok]
        exact List.Sublist.refl _
  | resolve id payload => exact (hput id _).symm ▸ List.Sublist.refl _
  | cancel id => exact (hput id _).symm ▸ List.Sublist.refl _
  | failAll cause =>
      rw [apply_failAll]
      split
      · exact List.Sublist.refl _
      · exact (hputAll _).symm ▸ List.Sublist.refl _
  | wait id timeUp =>
      rw [apply_wait]
      split
      · exact hrelease id
      · exact List.Sublist.refl _
  | drop id => exact hrelease id
  | sever => exact (hputAll _).symm ▸ List.Sublist.refl _

/-! ## Any number of events -/

theorem run_cons (t : Table π) (e : Event π) (events : List (Event π)) :
    t.run (e :: events) = (t.apply e).run events := rfl

theorem nextId_run (t : Table π) (events : List (Event π)) :
    (t.run events).nextId = t.nextId + 2 * (t.issued events).length := by
  induction events generalizing t with
  | nil => rfl
  | cons e events ih =>
      rw [run_cons, ih, nextId_apply, issued, List.length_append]
      omega

/-- From the next identifier on every second number is handed out, and none is skipped. -/
theorem issued_eq_range' (t : Table π) (events : List (Event π)) :
    t.issued events = List.range' t.nextId (t.issued events).length 2 := by
  induction events generalizing t with
  | nil => rfl
  | cons e events ih =>
      have hnext := nextId_apply t e
      rw [issued]
      cases hid : t.issued? e with
      | none =>
          rw [hid] at hnext
          simpa [hnext] using ih (t.apply e)
      | some id =>
          rw [hid] at hnext
          obtain ⟨rfl, -⟩ := issued?_eq_nextId hid
          have hrest := ih (t.apply e)
          rw [hnext] at hrest
          simpa [List.range'_succ] using hrest

theorem le_maxId_of_mem_issued {t : Table π} {events : List (Event π)} {id : Nat}
    (h : id ∈ t.issued events) : id ≤ maxId := by
  induction events generalizing t with
  | nil => cases h
  | cons e events ih =>
      rcases List.mem_append.mp h with h | h
      · obtain ⟨rfl, hle⟩ := issued?_eq_nextId (Option.mem_toList.mp h)
        exact hle
      · exact ih h

theorem mem_ids_run {t : Table π} {events : List (Event π)} {id : Nat}
    (h : id ∈ (t.run events).ids) : id ∈ t.issued events ++ t.ids := by
  induction events generalizing t with
  | nil => exact h
  | cons e events ih =>
      have hrest := ih h
      have hfirst := (ids_apply_sublist t e).subset (a := id)
      simp only [issued, List.mem_append] at hrest hfirst ⊢
      tauto

/-- What has been handed out, and so what is still held, is odd and below the next identifier. -/
theorem mem_issued_empty {events : List (Event π)} {id : Nat}
    (h : id ∈ (empty : Table π).issued events) :
    id % 2 = 1 ∧ firstId ≤ id ∧ id < (empty.run events).nextId := by
  rw [issued_eq_range', List.mem_range'] at h
  rw [nextId_run]
  obtain ⟨k, hk, rfl⟩ := h
  simp only [empty, firstId] at hk ⊢
  omega

theorem pending_subset_ids (t : Table π) : t.pending ⊆ t.ids :=
  (List.filter_sublist.map Prod.fst).subset

/-- The identifiers above the greatest one are never reached: the next identifier passes it by two
at most. -/
theorem nextId_run_empty_le (events : List (Event π)) :
    ((empty : Table π).run events).nextId ≤ maxId + 2 := by
  rw [nextId_run]
  cases hn : ((empty : Table π).issued events).length with
  | zero =>
      change firstId + 2 * 0 ≤ maxId + 2
      decide
  | succ n =>
      have hlast : firstId + 2 * n ∈ (empty : Table π).issued events := by
        rw [issued_eq_range', hn, List.mem_range']
        exact ⟨n, Nat.lt_succ_self n, rfl⟩
      have hle := le_maxId_of_mem_issued hlast
      simp only [empty]
      omega

theorem issued_concat (t : Table π) (events : List (Event π)) (e : Event π) :
    t.issued (events ++ [e]) = t.issued events ++ ((t.run events).issued? e).toList := by
  induction events generalizing t with
  | nil => simp [issued, run]
  | cons first events ih => rw [List.cons_append, issued, issued, ih, run_cons, List.append_assoc]

/-- The identifiers are the odd numbers from 3 to 2^31 - 1, each handed out once and in their order.
The next one is settled by how many there were and stays within a word of 32 bits, and a pending
exchange has one of those before it. A failure to open an exchange changes nothing, so the
identifier goes to the next one that can be opened, and if it is for want of identifiers then all
of them have been used. -/
theorem issued_run (events : List (Event π)) :
    let t : Table π := empty.run events
    let given := (empty : Table π).issued events
    (∀ k id, given[k]? = some id → id = 3 + 2 * k ∧ id ≤ 2 ^ 31 - 1) ∧
      (t.nextId = 3 + 2 * given.length ∧ t.nextId % 2 = 1 ∧ t.nextId < 2 ^ 32) ∧
      (∀ id ∈ t.pending, id ∈ given ∧ id % 2 = 1 ∧ 3 ≤ id ∧ id < t.nextId) ∧
      (∀ id opened, t.allocate = .ok (id, opened) →
        id = 3 + 2 * given.length ∧ empty.issued (events ++ [.allocate]) = given ++ [id] ∧
          opened.nextId = (UInt32.ofNat t.nextId + 2).toNat) ∧
      ∀ failure, t.allocate = .error failure →
        t.apply .allocate = t ∧ empty.issued (events ++ [.allocate]) = given ∧
          (failure = .idsExhausted → given.length = 2 ^ 30 - 1) := by
  intro t given
  have hnext : t.nextId = 3 + 2 * given.length := nextId_run empty events
  have hbound : t.nextId ≤ maxId + 2 := nextId_run_empty_le events
  have hgreatest : maxId = 2 ^ 31 - 1 := rfl
  refine ⟨?_, ⟨hnext, by omega, by omega⟩, ?_, ?_, ?_⟩
  · intro k id hid
    have hle := le_maxId_of_mem_issued (List.mem_of_getElem? hid)
    refine ⟨?_, hgreatest ▸ hle⟩
    change ((empty : Table π).issued events)[k]? = some id at hid
    rw [issued_eq_range', List.getElem?_eq_some_iff] at hid
    obtain ⟨hk, rfl⟩ := hid
    exact List.getElem_range' hk
  · intro id hid
    have hgiven : id ∈ given ++ (empty : Table π).ids := mem_ids_run (pending_subset_ids t hid)
    rw [show (empty : Table π).ids = [] from rfl, List.append_nil] at hgiven
    exact ⟨hgiven, mem_issued_empty hgiven⟩
  · intro id opened hok
    obtain ⟨-, hid, hopened⟩ := allocate_eq_ok_iff.mp hok
    have hle := nextId_le_of_allocate hok
    refine ⟨hid.trans hnext, ?_, ?_⟩
    · rw [issued_concat, issued?_allocate_of_ok hok]
      rfl
    · rw [hopened, UInt32.toNat_add, UInt32.toNat_ofNat']
      change t.nextId + 2 = (t.nextId % 2 ^ 32 + 2) % 2 ^ 32
      omega
  · intro failure herror
    have hobstacle := allocate_eq_error_iff.mp herror
    refine ⟨apply_allocate_of_obstacle hobstacle, ?_, ?_⟩
    · rw [issued_concat, issued?_allocate_of_error herror]
      exact List.append_nil _
    · intro hfailure
      have hlt := lt_nextId_of_idsExhausted (hfailure ▸ herror)
      omega

/-! ## Until none is left -/

/-- Without a limit of the peer every allocation succeeds while identifiers are left. -/
theorem run_replicate_allocate {t : Table π} (hbarrier : t.barrier = .ready ⟨none⟩)
    (hclosed : t.closed = false) {n : Nat} (hn : t.nextId + 2 * n ≤ maxId + 2) :
    (t.run (List.replicate n .allocate)).barrier = .ready ⟨none⟩ ∧
      (t.run (List.replicate n .allocate)).closed = false ∧
      (t.run (List.replicate n .allocate)).nextId = t.nextId + 2 * n := by
  induction n with
  | zero => exact ⟨hbarrier, hclosed, rfl⟩
  | succ n ih =>
      obtain ⟨hb, hc, hnext⟩ := ih (by omega)
      have hnone : (t.run (List.replicate n .allocate)).obstacle? = none := by
        have hle : ¬ maxId < (t.run (List.replicate n .allocate)).nextId := by omega
        simp [obstacle?, hb, hc, hle]
      rw [List.replicate_succ', run_concat,
        apply_allocate_of_ok (allocate_eq_ok_iff.mpr ⟨hnone, rfl, rfl⟩)]
      refine ⟨hb, hc, ?_⟩
      change (t.run (List.replicate n .allocate)).nextId + 2 = _
      omega

/-- All identifiers can be handed out: the last one is 2^31 - 1, and behind it there is none. -/
theorem issued_run_until_exhausted :
    let events : List (Event Text) := .settings ⟨none⟩ :: List.replicate (2 ^ 30 - 1) .allocate
    let t : Table Text := empty.run events
    (empty.issued events).length = 2 ^ 30 - 1 ∧ t.nextId = 2 ^ 31 + 1 ∧
      t.allocate = .error .idsExhausted ∧ t.apply .allocate = t := by
  -- the number is kept a variable, as the list is too long to be looked at
  suffices hall : ∀ n, n = 2 ^ 30 - 1 →
      let events : List (Event Text) := .settings ⟨none⟩ :: List.replicate n .allocate
      let t : Table Text := empty.run events
      (empty.issued events).length = n ∧ t.nextId = 2 ^ 31 + 1 ∧
        t.allocate = .error .idsExhausted ∧ t.apply .allocate = t from hall _ rfl
  intro n hn events t
  let ready : Table Text := empty.apply (.settings ⟨none⟩)
  have hsome : ready.nextId + 2 * n ≤ maxId + 2 := by
    change 3 + 2 * n ≤ 2 ^ 31 - 1 + 2
    omega
  obtain ⟨hbarrier, hclosed, hnext⟩ :
      t.barrier = .ready ⟨none⟩ ∧ t.closed = false ∧ t.nextId = 3 + 2 * n :=
    run_replicate_allocate (t := ready) rfl rfl hsome
  have hexhausted : t.allocate = .error .idsExhausted := by
    have hlt : maxId < t.nextId := by
      change 2 ^ 31 - 1 < t.nextId
      omega
    rw [allocate_eq_error_iff]
    simp [obstacle?, hbarrier, hclosed, hlt]
  obtain ⟨-, -, -, -, hfailed⟩ := issued_run events
  obtain ⟨hsame, -, hall⟩ := hfailed _ hexhausted
  exact ⟨(hall rfl).trans hn.symm, by omega, hexhausted, hsame⟩

end HttpExchange.Streams.Table
