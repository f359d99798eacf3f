import HttpExchange.Proofs.Backoff.Interval
import HttpExchange.Proofs.Backoff.Jitter
import HttpExchange.Proofs.Least
import HttpExchange.Proofs.Retry.Course

/-! # The end of a campaign

An operation that always fails is not tried for ever. No delay is shorter than a millisecond, so
time goes on with every attempt, and the policy stops once its time has passed. Until then each
delay is bounded by the greatest interval, and so is the start of the attempt behind it. -/

namespace HttpExchange.Retry

open Backoff (Arithmetic Config Decision Delay Exact Policy jitter jitter?)

variable {σ ε α : Type} {config : Config Exact} {begun t : ℕ} {p : Policy Exact σ}
  {draw : σ → Exact × σ}

/-! ## The clock -/

theorem nanos_add (a b : ℕ) : nanos (a + b) = nanos a + nanos b := Nat.add_mul a b _

theorem toNat_clockReading (t : ℕ) : (clockReading t).toNat = min t (2 ^ 64 - 1) := by
  have hlt : min t (2 ^ 64 - 1) < 2 ^ 64 := (Nat.min_le_right t _).trans_lt (by norm_num)
  rw [clockReading, UInt64.toNat_ofNat']
  exact Nat.mod_eq_of_lt hlt

/-- The longest delay that the parameters allow, in milliseconds. -/
def longestDelay (config : Config Exact) : ℕ :=
  ⌊config.maxInterval.toNat * (1 + config.randomizationFactor.value)⌋₊

/-- A policy in the campaign that began at this time. -/
structure Underway (config : Config Exact) (begun : ℕ) (p : Policy Exact σ) : Prop where
  sound : p.Sound
  config_eq : p.config = config
  started : p.started.toNat = begun

theorem underway_of_fresh (hvalid : config.Valid) (hbegun : begun ≤ 2 ^ 64 - 1)
    (h : p.Fresh config (clockReading begun)) : Underway config begun p := by
  obtain ⟨source, rfl⟩ := h.exists_eq_start
  refine ⟨Policy.sound_start (Config.valid_iff_sound.mp hvalid) source _, rfl, ?_⟩
  show (clockReading begun).toNat = begun
  rw [toNat_clockReading, Nat.min_eq_left hbegun]

namespace Underway

theorem next (h : Underway config begun p) (draw : σ → Exact × σ) (t : ℕ) :
    Underway config begun (exponential draw t p).2 := by
  have hsound := h.sound.next draw (clockReading t)
  rcases p.next_cases draw (clockReading t) with ⟨-, hnext⟩ | ⟨-, hnext⟩ <;>
    rw [hnext] at hsound <;> rw [exponential, hnext]
  · exact h
  · exact ⟨hsound, h.config_eq, h.started⟩

/-- The time of the policy is over exactly when it has passed on a clock that does not stand still
before. -/
theorem maxElapsed_lt_iff (h : Underway config begun p)
    (hclock : begun + nanos (config.maxElapsed.toNat + 1) ≤ 2 ^ 64 - 1) (t : ℕ) :
    p.config.maxElapsed.toNat < p.elapsedMillis (clockReading t) ↔
      begun + nanos (config.maxElapsed.toNat + 1) ≤ t := by
  rw [Policy.elapsedMillis, toNat_clockReading, h.started, h.config_eq]
  unfold nanos at *
  omega

theorem decision_eq_stop_iff (h : Underway config begun p) (draw : σ → Exact × σ)
    (hclock : begun + nanos (config.maxElapsed.toNat + 1) ≤ 2 ^ 64 - 1) (t : ℕ) :
    (exponential draw t p).1 = .stop ↔ begun + nanos (config.maxElapsed.toNat + 1) ≤ t := by
  rw [← h.maxElapsed_lt_iff hclock]
  exact p.decision_eq_stop_iff draw (clockReading t)

/-- A delay is at least a millisecond, and at most the longest. -/
theorem nanos_mem (h : Underway config begun p) {delay : Delay}
    (hretry : (exponential draw t p).1 = .retry delay) :
    nanos 1 ≤ delay.nanos ∧ delay.nanos ≤ nanos (longestDelay config) := by
  have hpos := h.sound.config.initial_pos.trans_le h.sound.initial_le
  have hfactor := h.sound.config
  rcases p.next_cases draw (clockReading t) with ⟨-, hnext⟩ | ⟨-, hnext⟩
  · simp [exponential, hnext] at hretry
  · rw [exponential, hnext] at hretry
    obtain rfl := Decision.retry.inj hretry
    have hleast := Backoff.one_le_jitter hfactor.factor_nonneg hfactor.factor_lt_one
      (draw p.source).1 hpos
    have hmost := Backoff.jitter_le hfactor.factor_nonneg hfactor.factor_lt_one.le
      (draw p.source).1 h.sound.le_max
    rw [h.config_eq] at hmost
    rw [h.config_eq] at hleast ⊢
    exact ⟨Nat.mul_le_mul_right _ hleast, Nat.mul_le_mul_right _ hmost⟩

end Underway

/-! ## The attempts -/

/-- An exponential policy at the beginning of its campaign, whose clock shows the time until the
policy's time has passed, and an operation that always fails. -/
structure Futile (s : Plan (Policy Exact σ) ε α) (draw : σ → Exact × σ) (config : Config Exact) :
    Prop where
  next_eq : s.next = exponential draw
  fails : ∀ i, (s.operation i).fails = true
  underway : Underway config s.begun s.policy
  clock : s.begun + nanos (config.maxElapsed.toNat + 1) ≤ 2 ^ 64 - 1

namespace Futile

variable {s : Plan (Policy Exact σ) ε α} {i : ℕ} (h : Futile s draw config)

include h

theorem underway_state (i : ℕ) : Underway config s.begun (s.state i) := by
  induction i with
  | zero => exact h.underway
  | succ i ih =>
      rw [Plan.state_succ, h.next_eq]
      exact ih.next draw _

theorem decision_eq (i : ℕ) : s.decision i = (exponential draw (s.ended i) (s.state i)).1 := by
  rw [Plan.decision, h.next_eq]

/-- An attempt is the last exactly when it ends after the policy's time. -/
theorem last_iff (i : ℕ) :
    s.Last i ↔ s.begun + nanos (config.maxElapsed.toNat + 1) ≤ s.ended i := by
  rw [← (h.underway_state i).decision_eq_stop_iff draw h.clock, ← h.decision_eq]
  constructor
  · rintro (⟨value, hvalue⟩ | hstop)
    · have hfails := h.fails i
      simp [Attempt.fails, hvalue] at hfails
    · exact hstop
  · exact .inr

theorem exists_delay (hlast : ¬ s.Last i) : ∃ delay : Delay,
    s.start (i + 1) = s.ended i + delay.nanos ∧
      nanos 1 ≤ delay.nanos ∧ delay.nanos ≤ nanos (longestDelay config) := by
  obtain ⟨delay, hretry⟩ := Plan.exists_retry_of_not_last hlast
  refine ⟨delay, ?_, ?_⟩
  · rw [Plan.start_succ, hretry, Decision.nanos]
  · rw [h.decision_eq] at hretry
    exact (h.underway_state i).nanos_mem hretry

/-- As long as no attempt is the last, a millisecond passes with each. -/
theorem le_start (hunfinished : ∀ j < i, ¬ s.Last j) : s.begun + nanos i ≤ s.start i := by
  induction i with
  | zero =>
      rw [nanos, Nat.zero_mul]
      exact le_rfl
  | succ i ih =>
      have hbefore := ih fun j hj => hunfinished j (Nat.lt_succ_of_lt hj)
      obtain ⟨delay, hstart, hdelay, -⟩ := h.exists_delay (hunfinished i (Nat.lt_succ_self i))
      calc s.begun + nanos (i + 1) = s.begun + nanos i + nanos 1 := by rw [nanos_add, Nat.add_assoc]
        _ ≤ s.ended i + delay.nanos :=
          Nat.add_le_add (hbefore.trans (Nat.le_add_right _ _)) hdelay
        _ = s.start (i + 1) := hstart.symm

/-- An attempt that is not the last ends in time, and the next one starts at most the longest delay
after that. -/
theorem start_succ_lt (hlast : ¬ s.Last i) :
    s.start (i + 1) < s.begun + nanos (config.maxElapsed.toNat + 1 + longestDelay config) := by
  have hended := not_le.mp ((h.last_iff i).not.mp hlast)
  obtain ⟨delay, hstart, -, hdelay⟩ := h.exists_delay hlast
  rw [hstart, nanos_add, ← Nat.add_assoc]
  exact Nat.add_lt_add_of_lt_of_le hended hdelay

/-- Once each millisecond has had its attempt, the policy stops. -/
theorem exists_isLeast : ∃ k ≤ config.maxElapsed.toNat + 1, IsLeast {i | s.Last i} k := by
  refine exists_isLeast_le _ fun hunfinished => (h.last_iff _).mpr ?_
  exact (h.le_start hunfinished).trans (Nat.le_add_right _ _)

end Futile

/-- An exponential policy whose clock shows the time, and an operation that fails at every attempt,
with these durations and errors. -/
def failing (draw : σ → Exact × σ) (begun : ℕ) (p : Policy Exact σ) (duration : ℕ → ℕ)
    (error : ℕ → ε) : Plan (Policy Exact σ) ε α :=
  ⟨exponential draw, begun, p, fun i => ⟨duration i, .error (error i)⟩⟩

/-- An operation that always fails is tried at most once for each millisecond that the policy
allows and twice more, however long it takes and whatever is drawn. The campaign ends with the last
error, and each attempt but the first starts before the policy's time and the longest delay behind
it have passed. -/
theorem failing_campaign_ends (draw : σ → Exact × σ) (hvalid : config.Valid)
    (hclock : begun + nanos (config.maxElapsed.toNat + 1) ≤ 2 ^ 64 - 1)
    (hfresh : p.Fresh config (clockReading begun)) (duration : ℕ → ℕ) (error : ℕ → ε) :
    let s : Plan (Policy Exact σ) ε α := failing draw begun p duration error
    (∃ k < config.maxElapsed.toNat + 2, ∀ n > k,
        (s.campaign n).result = some (.error (error k)) ∧ (s.campaign n).starts.length = k + 1 ∧
          ∀ t ∈ (s.campaign n).starts.tail,
            t < begun + nanos (config.maxElapsed.toNat + 1 +
              ⌊config.maxInterval.toNat * (1 + config.randomizationFactor.value)⌋₊)) ∧
      ∀ random interval, jitter? config.randomizationFactor random interval =
        some (jitter config.randomizationFactor random interval) := by
  intro s
  have hsound := Config.valid_iff_sound.mp hvalid
  have hunderway := underway_of_fresh hvalid ((Nat.le_add_right _ _).trans hclock) hfresh
  have hfutile : Futile s draw config := ⟨rfl, fun _ => rfl, hunderway, hclock⟩
  obtain ⟨k, hk, hleast⟩ := hfutile.exists_isLeast
  refine ⟨⟨k, Nat.lt_succ_of_le hk, ?_⟩, Backoff.jitter?_eq_some hsound.factor_nonneg⟩
  intro n hn
  rw [Plan.campaign_of_isLeast hleast hn]
  refine ⟨rfl, by simp, ?_⟩
  intro t ht
  rw [List.range_succ_eq_map, List.map_cons, List.tail_cons, List.map_map] at ht
  obtain ⟨i, hi, rfl⟩ := List.mem_map.mp ht
  have hlast := Plan.unfinished_of_isLeast hleast i (List.mem_range.mp hi)
  exact hfutile.start_succ_lt hlast

/-- Every delay is a millisecond and the attempts take no time, so the third millisecond is the
first that is too late: four attempts are made, as many as there can be. -/
theorem failing_campaign_ends_after_four :
    let config : Config Exact := ⟨1, ⟨1⟩, ⟨9 / 10⟩, 1, 2⟩
    let draw : ℕ → Exact × ℕ := fun n => (⟨1 - 1 / (n + 2)⟩, n + 1)
    let old : Policy Exact ℕ := ⟨config, 1, 77, 3⟩
    let s : Plan (Policy Exact ℕ) ℕ Unit :=
      failing draw 5 (old.reset (clockReading 5)) (fun _ => 0) id
    config.Valid ∧ (old.reset (clockReading 5)).Fresh config (clockReading 5) ∧
      (s.campaign 9).result = some (.error 3) ∧ (s.campaign 9).starts.length = 4 ∧
      ∀ t ∈ (s.campaign 9).starts.tail, t < 4000005 := by
  intro config draw old s
  have hvalid : config.Valid := Config.valid_iff_sound.mpr
    ⟨by decide, by norm_num [config], by norm_num [config], by norm_num [config], by decide⟩
  have hfresh : (old.reset (clockReading 5)).Fresh config (clockReading 5) := .reset rfl
  have hlength : (s.campaign 9).starts.length = 4 := by decide +kernel
  have hbound : 5 + nanos (config.maxElapsed.toNat + 1 +
      ⌊config.maxInterval.toNat * (1 + config.randomizationFactor.value)⌋₊) = 4000005 := by
    decide +kernel
  obtain ⟨⟨k, hk, hends⟩, -⟩ :=
    failing_campaign_ends draw hvalid (by decide) hfresh (fun _ => 0) (id : ℕ → ℕ) (α := Unit)
  obtain ⟨hresult, hcount, hstarts⟩ := hends 9 (hk.trans (by decide))
  obtain rfl : k = 3 := Nat.succ_injective (hcount.symm.trans hlength)
  rw [hbound] at hstarts
  exact ⟨hvalid, hfresh, hresult, hlength, hstarts⟩

end HttpExchange.Retry
