import HttpExchange.Retry
import Mathlib.Algebra.BigOperators.Group.Finset.Basic
import Mathlib.Order.Bounds.Defs

/-! # The course of a campaign

A policy and an operation, whatever they are, decide when each attempt starts and how the policy
answers each failure. The campaign is what lies up to the first attempt that succeeds or that the
policy stops behind, and nothing of what would follow. What a policy was asked shows in its state,
so a policy that keeps a list of its consultations shows how often and when it was asked. -/

namespace HttpExchange

/-- The nanoseconds that pass before the next attempt. -/
def Backoff.Decision.nanos : Backoff.Decision → ℕ
  | retry delay => delay.nanos
  | stop => 0

namespace Retry

open Backoff (Decision)

/-- One question to a policy: when it was asked, and what it decided. -/
structure Consultation where
  time : ℕ
  decision : Decision
  deriving DecidableEq, Repr

variable {π ε α : Type}

/-- The policy behind consultations, one after the other. -/
def after (next : ℕ → π → Decision × π) (policy : π) (asked : List Consultation) : π :=
  asked.foldl (fun p c => (next c.time p).2) policy

theorem after_concat (next : ℕ → π → Decision × π) (policy : π) (asked : List Consultation)
    (c : Consultation) :
    after next policy (asked ++ [c]) = (next c.time (after next policy asked)).2 := by
  rw [after, List.foldl_append]
  rfl

/-- A policy that decides like another one and keeps a list of its consultations. -/
def recording (next : ℕ → π → Decision × π) (now : ℕ) (p : π × List Consultation) :
    Decision × (π × List Consultation) :=
  let (decision, policy) := next now p.1
  (decision, policy, p.2 ++ [⟨now, decision⟩])

/-- The attempt gives no value. -/
def Attempt.fails (a : Attempt ε α) : Bool :=
  match a.outcome with
  | .ok _ => false
  | .error _ => true

/-! ## Attempts, one after the other -/

section Run

variable {next : ℕ → π → Decision × π} {now : ℕ} {policy left : π} {a : Attempt ε α}
  {attempts : List (Attempt ε α)}

/-- A success is the last attempt, and the policy is not asked. -/
theorem run_cons_of_ok (h : a.fails = false) :
    run next now policy (a :: attempts) =
      ⟨some a.outcome, [now], now + a.duration, policy⟩ := by
  cases houtcome : a.outcome with
  | ok value => simp only [run, houtcome]
  | error e => simp [Attempt.fails, houtcome] at h

/-- A failure that the policy stops behind is the last attempt. -/
theorem run_cons_of_stop (h : a.fails = true)
    (hstop : next (now + a.duration) policy = (.stop, left)) :
    run next now policy (a :: attempts) =
      ⟨some a.outcome, [now], now + a.duration, left⟩ := by
  cases houtcome : a.outcome with
  | ok value => simp [Attempt.fails, houtcome] at h
  | error e => simp only [run, houtcome, hstop]

theorem run_cons_of_retry (h : a.fails = true) {delay : Backoff.Delay}
    (hretry : next (now + a.duration) policy = (.retry delay, left)) :
    run next now policy (a :: attempts) =
      let rest := run next (now + a.duration + delay.nanos) left attempts
      { rest with starts := now :: rest.starts } := by
  cases houtcome : a.outcome with
  | ok value => simp [Attempt.fails, houtcome] at h
  | error e => simp only [run, houtcome, hretry]

/-- A campaign that has a result does not look at more attempts. One that has none goes on with
them where it stands. -/
theorem run_append (next : ℕ → π → Decision × π) (now : ℕ) (policy : π)
    (attempts more : List (Attempt ε α)) :
    run next now policy (attempts ++ more) =
      let c := run next now policy attempts
      if c.result.isSome then c
      else
        let rest := run next c.finished c.policy more
        { rest with starts := c.starts ++ rest.starts } := by
  induction attempts generalizing now policy with
  | nil => rfl
  | cons a attempts ih =>
      rw [List.cons_append]
      cases hfails : a.fails with
      | false => simp [run_cons_of_ok hfails]
      | true =>
          rcases hnext : next (now + a.duration) policy with ⟨delay | _, left⟩
          · simp only [run_cons_of_retry hfails hnext, ih]
            split <;> simp
          · simp [run_cons_of_stop hfails hnext]

end Run

/-! ## The plan of a campaign -/

/-- All that decides a campaign: the policy and its state, the time of the first attempt, and how
the operation goes at each attempt. -/
structure Plan (π ε α : Type) where
  next : ℕ → π → Decision × π
  begun : ℕ
  policy : π
  operation : ℕ → Attempt ε α

namespace Plan

variable (s : Plan π ε α)

/-- The campaign, if it may have `n` attempts. -/
def campaign (n : ℕ) : Campaign π ε α :=
  run s.next s.begun s.policy ((List.range n).map s.operation)

/-- The start of an attempt and the state of the policy then, if all before it fail and are tried
again. -/
def before : ℕ → ℕ × π
  | 0 => (s.begun, s.policy)
  | i + 1 =>
    let ended := (before i).1 + (s.operation i).duration
    let (decision, policy) := s.next ended (before i).2
    (ended + decision.nanos, policy)

def start (i : ℕ) : ℕ := (s.before i).1

def state (i : ℕ) : π := (s.before i).2

def ended (i : ℕ) : ℕ := s.start i + (s.operation i).duration

/-- The decision behind an attempt that fails. -/
def decision (i : ℕ) : Decision := (s.next (s.ended i) (s.state i)).1

def consultation (i : ℕ) : Consultation := ⟨s.ended i, s.decision i⟩

/-- The attempt succeeds, or the policy stops behind it. -/
def Last (i : ℕ) : Prop := (∃ value, (s.operation i).outcome = .ok value) ∨ s.decision i = .stop

/-- What the policy is asked in a campaign of `n` attempts: one question for each failure. -/
def asked (n : ℕ) : List Consultation :=
  ((List.range n).filter fun i => (s.operation i).fails).map s.consultation

/-- The plan with a list of the consultations. -/
def recorded : Plan (π × List Consultation) ε α :=
  ⟨recording s.next, s.begun, (s.policy, []), s.operation⟩

/-! ## Times and states -/

theorem start_succ (i : ℕ) : s.start (i + 1) = s.ended i + (s.decision i).nanos := rfl

theorem state_succ (i : ℕ) : s.state (i + 1) = (s.next (s.ended i) (s.state i)).2 := rfl

theorem next_ended (i : ℕ) :
    s.next (s.ended i) (s.state i) = (s.decision i, s.state (i + 1)) := rfl

theorem start_eq_sum (i : ℕ) : s.start i = s.begun +
    ∑ j ∈ Finset.range i, ((s.operation j).duration + (s.decision j).nanos) := by
  induction i with
  | zero => rfl
  | succ i ih => rw [start_succ, ended, ih, Finset.sum_range_succ, Nat.add_assoc, Nat.add_assoc]

theorem state_eq_after (i : ℕ) :
    s.state i = after s.next s.policy ((List.range i).map s.consultation) := by
  induction i with
  | zero => rfl
  | succ i ih =>
      rw [List.range_succ, List.map_append, List.map_singleton, after_concat, ← ih]
      rfl

/-! ## The last attempt -/

variable {s} {i k n : ℕ}

theorem fails_of_not_last (h : ¬ s.Last i) : (s.operation i).fails = true := by
  cases houtcome : (s.operation i).outcome with
  | ok value => exact absurd (.inl ⟨value, houtcome⟩) h
  | error e => simp only [Attempt.fails, houtcome]

theorem exists_retry_of_not_last (h : ¬ s.Last i) : ∃ delay, s.decision i = .retry delay := by
  cases hdecision : s.decision i with
  | retry delay => exact ⟨delay, rfl⟩
  | stop => exact absurd (.inr hdecision) h

/-- As long as no attempt is the last, the policy is asked behind each. -/
theorem asked_of_unfinished (h : ∀ i < n, ¬ s.Last i) :
    s.asked n = (List.range n).map s.consultation := by
  rw [asked, List.filter_eq_self.mpr]
  intro i hi
  exact fails_of_not_last (h i (List.mem_range.mp hi))

theorem asked_succ_of_unfinished (h : ∀ i < k, ¬ s.Last i) : s.asked (k + 1) =
    (List.range (if (s.operation k).fails then k + 1 else k)).map s.consultation := by
  have hbefore := asked_of_unfinished h
  rw [asked] at hbefore
  rw [asked, List.range_succ, List.filter_append, List.map_append, hbefore]
  cases hfails : (s.operation k).fails with
  | false => simp [hfails]
  | true => simp [hfails, List.range_succ]

/-- As long as a campaign has no result, one more attempt is made where it stands. -/
theorem campaign_succ (h : s.campaign n = ⟨none, (List.range n).map s.start, s.start n, s.state n⟩) :
    s.campaign (n + 1) =
      let rest := run s.next (s.start n) (s.state n) [s.operation n]
      { rest with starts := (List.range n).map s.start ++ rest.starts } := by
  rw [campaign] at h
  rw [campaign, List.range_succ, List.map_append, List.map_singleton, run_append, h]
  rfl

/-- A campaign without a last attempt stands where the next attempt starts. -/
theorem campaign_of_unfinished (h : ∀ i < n, ¬ s.Last i) :
    s.campaign n = ⟨none, (List.range n).map s.start, s.start n, s.state n⟩ := by
  induction n with
  | zero => rfl
  | succ n ih =>
      have hlast := h n (Nat.lt_succ_self n)
      obtain ⟨delay, hretry⟩ := exists_retry_of_not_last hlast
      have hnext : s.next (s.ended n) (s.state n) = (.retry delay, s.state (n + 1)) := by
        rw [next_ended, hretry]
      have hstart : s.ended n + delay.nanos = s.start (n + 1) := by
        rw [start_succ, hretry]
        rfl
      rw [campaign_succ (ih fun i hi => h i (Nat.lt_succ_of_lt hi)),
        run_cons_of_retry (fails_of_not_last hlast) hnext, ← ended, hstart, List.range_succ,
        List.map_append]
      rfl

theorem unfinished_of_isLeast (h : IsLeast {i | s.Last i} k) : ∀ i < k, ¬ s.Last i :=
  fun _ hi hlast => absurd (h.2 hlast) (not_le.mpr hi)

/-- The first attempt that can be the last one is: its outcome is the result, and no more attempt
is made. -/
theorem campaign_of_isLeast (h : IsLeast {i | s.Last i} k) (hn : k < n) :
    s.campaign n = ⟨some (s.operation k).outcome, (List.range (k + 1)).map s.start, s.ended k,
      s.state (if (s.operation k).fails then k + 1 else k)⟩ := by
  have hcampaign : s.campaign (k + 1) = ⟨some (s.operation k).outcome,
      (List.range (k + 1)).map s.start, s.ended k,
      s.state (if (s.operation k).fails then k + 1 else k)⟩ := by
    rw [campaign_succ (campaign_of_unfinished (unfinished_of_isLeast h)), List.range_succ,
      List.map_append]
    cases hfails : (s.operation k).fails with
    | false =>
        rw [run_cons_of_ok hfails]
        rfl
    | true =>
        have hstop : s.decision k = .stop := by
          rcases h.1 with ⟨value, hvalue⟩ | hstop
          · simp [Attempt.fails, hvalue] at hfails
          · exact hstop
        have hnext : s.next (s.ended k) (s.state k) = (.stop, s.state (k + 1)) := by
          rw [next_ended, hstop]
        rw [run_cons_of_stop hfails hnext]
        rfl
  -- a campaign with a result does not look at the attempts behind it
  obtain ⟨m, rfl⟩ := Nat.exists_eq_add_of_le (Nat.succ_le_of_lt hn)
  rw [campaign] at hcampaign
  rw [campaign, List.range_add, List.map_append, run_append, hcampaign]
  rfl

/-! ## The consultations -/

theorem recorded_before (s : Plan π ε α) (i : ℕ) :
    s.recorded.before i = (s.start i, s.state i, (List.range i).map s.consultation) := by
  induction i with
  | zero => rfl
  | succ i ih =>
      have hlist : (List.range (i + 1)).map s.consultation =
          (List.range i).map s.consultation ++ [s.consultation i] := by
        rw [List.range_succ, List.map_append, List.map_singleton]
      rw [hlist, before, ih]
      rfl

theorem recorded_decision (s : Plan π ε α) (i : ℕ) : s.recorded.decision i = s.decision i := by
  rw [decision, ended, start, state, recorded_before]
  rfl

theorem recorded_last (s : Plan π ε α) (i : ℕ) : s.recorded.Last i ↔ s.Last i := by
  rw [Last, Last, recorded_decision]
  rfl

theorem recorded_state (s : Plan π ε α) (i : ℕ) :
    s.recorded.state i = (s.state i, (List.range i).map s.consultation) := by
  rw [state, recorded_before]

/-! ## The campaign -/

/-- The campaign of at most `n` attempts makes the first `made` of them, each at its time. The
policy is asked once behind each of these that fails and is left as that leaves it. -/
structure Follows (s : Plan π ε α) (n made : ℕ) (result : Option (Except ε α)) (finished : ℕ) :
    Prop where
  result : (s.campaign n).result = result
  starts : (s.campaign n).starts = (List.range made).map s.start
  finished : (s.campaign n).finished = finished
  consulted : (s.recorded.campaign n).policy = ((s.campaign n).policy, s.asked made)
  policy : (s.campaign n).policy = after s.next s.policy (s.asked made)

theorem follows_of_unfinished (h : ∀ i < n, ¬ s.Last i) : s.Follows n n none (s.start n) := by
  have hcampaign := campaign_of_unfinished h
  have hrecorded := campaign_of_unfinished (s := s.recorded) fun i hi hlast =>
    h i hi ((s.recorded_last i).mp hlast)
  refine ⟨?_, ?_, ?_, ?_, ?_⟩
  · rw [hcampaign]
  · rw [hcampaign]
  · rw [hcampaign]
  · rw [hrecorded, hcampaign, asked_of_unfinished h, recorded_state]
  · rw [hcampaign, asked_of_unfinished h, ← state_eq_after]

theorem follows_of_isLeast (h : IsLeast {i | s.Last i} k) (hn : k < n) :
    s.Follows n (k + 1) (some (s.operation k).outcome) (s.ended k) := by
  have hlast : {i | s.recorded.Last i} = {i | s.Last i} := Set.ext s.recorded_last
  have hcampaign := campaign_of_isLeast h hn
  have hrecorded := campaign_of_isLeast (s := s.recorded) (by rwa [hlast]) hn
  have hasked := asked_succ_of_unfinished (unfinished_of_isLeast h)
  refine ⟨?_, ?_, ?_, ?_, ?_⟩
  · rw [hcampaign]
  · rw [hcampaign]
  · rw [hcampaign]
  · rw [hrecorded, hcampaign, hasked, recorded_state]
    rfl
  · rw [hcampaign, hasked, ← state_eq_after]

/-- Attempts and consultations alternate, and each attempt starts when the delay handed out behind
the one before it has passed. They go on as long as none can be the last, and end with the first
one that can: its outcome is the result. -/
theorem campaign_follows (s : Plan π ε α) :
    s.start 0 = s.begun ∧
      (∀ i, s.start (i + 1) = s.ended i + (s.decision i).nanos) ∧
      (∀ i, s.ended i = s.begun + ∑ j ∈ Finset.range (i + 1), (s.operation j).duration +
        ∑ j ∈ Finset.range i, (s.decision j).nanos) ∧
      (∀ n, (∀ i < n, ¬ s.Last i) → s.Follows n n none (s.start n)) ∧
      ∀ k, IsLeast {i | s.Last i} k → ∀ n > k,
        s.Follows n (k + 1) (some (s.operation k).outcome) (s.ended k) := by
  refine ⟨rfl, s.start_succ, ?_, fun n h => follows_of_unfinished h,
    fun k h n hn => follows_of_isLeast h hn⟩
  intro i
  rw [ended, start_eq_sum, Finset.sum_add_distrib, Finset.sum_range_succ _ i]
  omega

/-- A policy hands out a delay of 10, then one of zero, and would stop behind a third failure. The
third attempt fails in one campaign, so its error is the result, and it succeeds in the other, so
the policy is not asked about it. -/
theorem campaign_follows_two_delays :
    let next (_ asked : ℕ) : Decision × ℕ :=
      (if asked < 2 then .retry ⟨10 - 10 * asked⟩ else .stop, asked + 1)
    let s (third : Except ℕ ℕ) : Plan ℕ ℕ ℕ :=
      ⟨next, 7, 0, fun i => ⟨3, if i = 2 then third else .error i⟩⟩
    let stopped := (s (.error 2)).campaign 9
    let succeeded := (s (.ok 5)).campaign 9
    (IsLeast {i | (s (.error 2)).Last i} 2 ∧ IsLeast {i | (s (.ok 5)).Last i} 2) ∧
      (stopped.result = some (.error 2) ∧ succeeded.result = some (.ok 5)) ∧
      (stopped.starts = [7, 20, 23] ∧ succeeded.starts = [7, 20, 23]) ∧
      (stopped.finished = 26 ∧ succeeded.finished = 26) ∧
      stopped.policy = 3 ∧ succeeded.policy = 2 := by
  intro next s stopped succeeded
  have hleast (third : Except ℕ ℕ) : IsLeast {i | (s third).Last i} 2 := by
    refine ⟨.inr rfl, ?_⟩
    intro i hi
    match i, hi with
    | 0, hi => rcases hi with ⟨_, hvalue⟩ | hstop <;> contradiction
    | 1, hi => rcases hi with ⟨_, hvalue⟩ | hstop <;> contradiction
    | i + 2, _ => exact Nat.le_add_left 2 i
  have hstopped := (campaign_follows (s (.error 2))).2.2.2.2 2 (hleast _) 9 (by decide)
  have hsucceeded := (campaign_follows (s (.ok 5))).2.2.2.2 2 (hleast _) 9 (by decide)
  exact ⟨⟨hleast _, hleast _⟩, ⟨hstopped.result, hsucceeded.result⟩,
    ⟨hstopped.starts, hsucceeded.starts⟩, ⟨hstopped.finished, hsucceeded.finished⟩,
    hstopped.policy, hsucceeded.policy⟩

end Plan

end Retry

end HttpExchange
