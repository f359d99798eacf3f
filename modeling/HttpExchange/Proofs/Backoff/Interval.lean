import HttpExchange.Proofs.Backoff.Rounding
import HttpExchange.Proofs.Backoff.Run

/-! # The interval of a policy

With each delay that is handed out the interval becomes a multiple of what it was, cut to whole
milliseconds, until it reaches the ceiling, where it stays. Neither rounding nor cutting ever takes
it back, and no product leaves the range of its numbers. -/

namespace HttpExchange.Backoff

variable {ρ : Rounding} {σ : Type}

/-! ## Valid parameters -/

namespace Config

variable {c : Config (Rounded ρ)}

/-- What valid parameters promise. -/
structure Sound (c : Config (Rounded ρ)) : Prop where
  initial_pos : 0 < c.initialInterval.toNat
  factor_nonneg : 0 ≤ c.randomizationFactor.value
  factor_lt_one : c.randomizationFactor.value < 1
  one_le_multiplier : 1 ≤ c.multiplier.value
  initial_le_max : c.initialInterval.toNat ≤ c.maxInterval.toNat

theorem valid_iff {α : Type} [Arithmetic α] {c : Config α} :
    c.Valid ↔ c.initialInterval ≠ 0 ∧
      (Arithmetic.le (Arithmetic.ofWord 0) c.randomizationFactor &&
        Arithmetic.lt c.randomizationFactor (Arithmetic.ofWord 1)) = true ∧
      (Arithmetic.le (Arithmetic.ofWord 1) c.multiplier &&
        Arithmetic.isFinite c.multiplier) = true ∧ ¬ c.maxInterval < c.initialInterval := by
  rw [Valid, validate]
  generalize (Arithmetic.le (Arithmetic.ofWord 0) c.randomizationFactor &&
    Arithmetic.lt c.randomizationFactor (Arithmetic.ofWord 1)) = inRange
  generalize (Arithmetic.le (Arithmetic.ofWord 1) c.multiplier &&
    Arithmetic.isFinite c.multiplier) = grows
  cases inRange <;> cases grows <;> split_ifs <;> simp_all

theorem valid_iff_sound : c.Valid ↔ c.Sound := by
  have hpos : c.initialInterval ≠ 0 ↔ 0 < c.initialInterval.toNat := by
    rw [ne_eq, ← UInt32.toNat_inj, UInt32.toNat_zero, Nat.pos_iff_ne_zero]
  have hfactor : (Arithmetic.le (Arithmetic.ofWord 0) c.randomizationFactor &&
      Arithmetic.lt c.randomizationFactor (Arithmetic.ofWord 1)) = true ↔
      0 ≤ c.randomizationFactor.value ∧ c.randomizationFactor.value < 1 := by simp
  have hmultiplier : (Arithmetic.le (Arithmetic.ofWord 1) c.multiplier &&
      Arithmetic.isFinite c.multiplier) = true ↔ 1 ≤ c.multiplier.value := by simp
  have hmax : ¬ c.maxInterval < c.initialInterval ↔
      c.initialInterval.toNat ≤ c.maxInterval.toNat := by
    rw [UInt32.lt_iff_toNat_lt, not_lt]
  rw [valid_iff, hpos, hfactor, hmultiplier, hmax]
  constructor
  · rintro ⟨hinitial, ⟨hzero, hone⟩, hgrows, hordered⟩
    exact ⟨hinitial, hzero, hone, hgrows, hordered⟩
  · rintro ⟨hinitial, hzero, hone, hgrows, hordered⟩
    exact ⟨hinitial, ⟨hzero, hone⟩, hgrows, hordered⟩

/-- The interval after an interval of `x` milliseconds, in unbounded numbers. -/
def grown (c : Config (Rounded ρ)) (x : ℕ) : ℕ :=
  if (c.maxInterval.toNat : ℚ) ≤ ρ.round (x * c.multiplier.value) then c.maxInterval.toNat
  else ⌊ρ.round (x * c.multiplier.value)⌋₊

theorem grown_le_max (c : Config (Rounded ρ)) (x : ℕ) : c.grown x ≤ c.maxInterval.toNat := by
  rw [grown]
  split
  · exact le_rfl
  · rename_i hlt
    exact Nat.floor_le_of_le (not_le.mp hlt).le

/-- Neither rounding nor cutting to whole milliseconds undoes the growth. -/
theorem Sound.le_grown (h : c.Sound) {x : ℕ} (hx : x ≤ c.maxInterval.toNat) : x ≤ c.grown x := by
  have hword : x ≤ 2 ^ 53 := hx.trans (c.maxInterval.toNat_lt.le.trans (by norm_num))
  have hproduct : (x : ℚ) ≤ x * c.multiplier.value :=
    le_mul_of_one_le_right (Nat.cast_nonneg x) h.one_le_multiplier
  rw [grown]
  split
  · exact hx
  · exact Nat.le_floor (ρ.natCast_le_round hword hproduct)

end Config

namespace Policy

variable {config : Config (Rounded ρ)} {source : σ} {now : UInt64} {p : Policy (Rounded ρ) σ}

/-! ## One delay -/

/-- The interval grows as in unbounded numbers: a product below the ceiling has a whole part of 32
bits, however large the multiplier. -/
theorem toNat_grow (config : Config (Rounded ρ)) (interval : UInt32) :
    (grow config interval).toNat = config.grown interval.toNat := by
  let product : Rounded ρ := Arithmetic.ofWord interval * config.multiplier
  have hvalue : product.value = ρ.round (interval.toNat * config.multiplier.value) := rfl
  have hgrow : grow config interval =
      if Arithmetic.le (Arithmetic.ofWord config.maxInterval) product then config.maxInterval
      else (Arithmetic.toWord product).toUInt32 := rfl
  have hle : Arithmetic.le (Arithmetic.ofWord config.maxInterval) product = true ↔
      (config.maxInterval.toNat : ℚ) ≤ product.value := Rounded.le_iff
  have hmax := config.maxInterval.toNat_lt
  rw [hgrow, Config.grown, ← hvalue]
  by_cases h : (config.maxInterval.toNat : ℚ) ≤ product.value
  · rw [if_pos (hle.mpr h), if_pos h]
  · have hlt : product.value < 2 ^ 32 := (not_le.mp h).trans (by exact_mod_cast hmax)
    have hword : (Arithmetic.toWord product).toNat = ⌊product.value⌋₊ :=
      Rounded.toNat_toWord (hlt.trans (by norm_num))
    have hfloor : ⌊product.value⌋₊ < 2 ^ 32 :=
      (Nat.floor_lt' (by norm_num)).mpr (by exact_mod_cast hlt)
    rw [if_neg (mt hle.mp h), if_neg h, UInt64.toNat_toUInt32, hword, Nat.mod_eq_of_lt hfloor]

/-! ## Any calls -/

/-- The interval of a policy with valid parameters stays between the initial one and the
ceiling. -/
structure Sound (p : Policy (Rounded ρ) σ) : Prop where
  config : p.config.Sound
  initial_le : p.config.initialInterval.toNat ≤ p.interval.toNat
  le_max : p.interval.toNat ≤ p.config.maxInterval.toNat

theorem sound_start (h : config.Sound) (source : σ) (now : UInt64) :
    (start config source now).Sound :=
  ⟨h, le_rfl, h.initial_le_max⟩

theorem Sound.reset (h : p.Sound) (now : UInt64) : (p.reset now).Sound :=
  ⟨h.config, le_rfl, h.config.initial_le_max⟩

variable (draw : σ → Rounded ρ × σ)

theorem Sound.le_interval_next (h : p.Sound) (now : UInt64) :
    p.interval.toNat ≤ (p.next draw now).2.interval.toNat := by
  rcases p.next_cases draw now with ⟨-, hnext⟩ | ⟨-, hnext⟩
  · rw [hnext]
  · rw [hnext, toNat_grow]
    exact h.config.le_grown h.le_max

theorem Sound.next (h : p.Sound) (now : UInt64) : (p.next draw now).2.Sound := by
  have hle := h.le_interval_next draw now
  rcases p.next_cases draw now with ⟨-, hnext⟩ | ⟨-, hnext⟩
  · rw [hnext]
    exact h
  · rw [hnext] at hle ⊢
    refine ⟨h.config, h.initial_le.trans hle, ?_⟩
    rw [toNat_grow]
    exact p.config.grown_le_max _

theorem Sound.apply (h : p.Sound) (call : Call) : (p.apply draw call).Sound := by
  cases call with
  | next now => exact h.next draw now
  | reset now => exact h.reset now

theorem Sound.run (h : p.Sound) (calls : List Call) : (p.run draw calls).Sound := by
  induction calls generalizing p with
  | nil => exact h
  | cons call calls ih => exact ih (h.apply draw call)

/-- Without a reset the interval never decreases. -/
theorem Sound.le_interval_run (h : p.Sound) {calls : List Call}
    (hcalls : ∀ call ∈ calls, call.continues = true) :
    p.interval.toNat ≤ (p.run draw calls).interval.toNat := by
  induction calls generalizing p with
  | nil => exact le_rfl
  | cons call calls ih =>
      have hrest := ih (h.apply draw call) fun c hc => hcalls c (List.mem_cons_of_mem call hc)
      cases call with
      | next now => exact (h.le_interval_next draw now).trans hrest
      | reset now => exact absurd (hcalls _ List.mem_cons_self) Bool.false_ne_true

/-- The interval is what the delays since the last reset have made of the initial one, whatever
stops came between them. -/
theorem toNat_interval_run (calls : List Call) :
    ((start config source now).run draw calls).interval.toNat =
      config.grown^[delaysSinceReset ((start config source now).decisions draw calls)]
        config.initialInterval.toNat := by
  -- from the end, where the delays since the last reset are counted
  induction calls using List.reverseRecOn with
  | nil => rfl
  | append_singleton calls call ih =>
      have hconfig := config_run draw (start config source now) calls
      rw [run_concat, decisions_concat]
      generalize (start config source now).run draw calls = q at ih hconfig
      generalize (start config source now).decisions draw calls = log at ih
      cases call with
      | next now =>
          rcases q.next_cases draw now with ⟨-, hnext⟩ | ⟨-, hnext⟩
          · rw [Policy.apply, decision?, hnext, delaysSinceReset_concat_stop]
            exact ih
          · rw [Policy.apply, decision?, hnext, delaysSinceReset_concat_retry,
              Function.iterate_succ_apply', ← ih, toNat_grow, hconfig]
            rfl
      | reset now =>
          rw [Policy.apply, decision?, delaysSinceReset_concat_none, Policy.reset, hconfig]
          rfl

/-- At any time the interval lies between the initial one and the ceiling, and is the initial one
grown once for each delay since the last reset, in unbounded numbers. Until the next reset it does
not decrease, and at the ceiling it stays. -/
theorem interval_run (hbuild : build config source now = .ok p) (calls : List Call) :
    let q := p.run draw calls
    q.interval.toNat =
        config.grown^[delaysSinceReset (p.decisions draw calls)] config.initialInterval.toNat ∧
      config.initialInterval ≤ q.interval ∧ q.interval ≤ config.maxInterval ∧
      (grow config q.interval).toNat = config.grown q.interval.toNat ∧
      ∀ later : List Call, (∀ call ∈ later, call.continues = true) →
        q.interval ≤ (q.run draw later).interval ∧
          (q.interval = config.maxInterval → (q.run draw later).interval = config.maxInterval) := by
  obtain ⟨hvalid, rfl⟩ := build_eq_ok_iff.mp hbuild
  intro q
  have hconfig : q.config = config := config_run draw (start config source now) calls
  have hsound : q.Sound := (sound_start (Config.valid_iff_sound.mp hvalid) source now).run draw calls
  have hinitial := hsound.initial_le
  have hmax := hsound.le_max
  rw [hconfig] at hinitial hmax
  refine ⟨toNat_interval_run draw calls, UInt32.le_iff_toNat_le.mpr hinitial,
    UInt32.le_iff_toNat_le.mpr hmax, toNat_grow config q.interval, ?_⟩
  intro later hlater
  have hle := hsound.le_interval_run draw hlater
  refine ⟨UInt32.le_iff_toNat_le.mpr hle, ?_⟩
  intro hceiling
  have hbound := (hsound.run draw later).le_max
  rw [config_run, hconfig] at hbound
  rw [hceiling] at hle
  exact UInt32.toNat_inj.mp (le_antisymm hbound hle)

/-- A reset, a stop between delays and a clock that goes back: three delays since the reset bring
the interval from 10 over 11 and 12 to the ceiling 13, where it stays. -/
theorem interval_run_to_ceiling :
    let config : Config (Rounded (.down 10)) := ⟨10, ⟨11 / 10⟩, ⟨1 / 2⟩, 13, 3⟩
    let draw : ℕ → Rounded (.down 10) × ℕ := fun n => (⟨1 / (n + 2)⟩, n + 1)
    let p := start config 0 7000000
    let calls : List Call := [.next 7000000, .reset 9000000, .next 9000000, .next 12999999,
      .next 13000000, .next 8000000]
    let q := p.run draw calls
    build config 0 7000000 = .ok p ∧ delaysSinceReset (p.decisions draw calls) = 3 ∧
      config.grown^[3] 10 = 13 ∧ q.interval = 13 ∧
      ∀ later : List Call, (∀ call ∈ later, call.continues = true) →
        (q.run draw later).interval = 13 := by
  intro config draw p calls q
  have hsound : config.Sound :=
    ⟨by decide, by norm_num [config], by norm_num [config], by norm_num [config], by decide⟩
  have hbuild : build config 0 7000000 = .ok p :=
    build_eq_ok_iff.mpr ⟨Config.valid_iff_sound.mpr hsound, rfl⟩
  have hdelays : delaysSinceReset (p.decisions draw calls) = 3 := by decide +kernel
  have hgrown : config.grown^[3] 10 = 13 := by decide +kernel
  obtain ⟨hiterate, -, -, -, hstays⟩ := interval_run draw hbuild calls
  have hceiling : q.interval = 13 := by
    rw [hdelays] at hiterate
    exact UInt32.toNat_inj.mp (hiterate.trans hgrown)
  exact ⟨hbuild, hdelays, hgrown, hceiling, fun later hlater => (hstays later hlater).2 hceiling⟩

end Policy

end HttpExchange.Backoff
