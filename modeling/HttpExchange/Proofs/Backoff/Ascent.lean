import HttpExchange.Proofs.Backoff.Stop

/-! # Reaching the ceiling

A product is cut to whole milliseconds, so an interval below the ceiling gets longer only if its
multiple is longer by a whole millisecond. Otherwise it stays what it is, with every delay that
follows. Without rounding the first interval decides: if it gets longer, so do all that follow, up to
the ceiling, and if not, the policy never backs off. -/

namespace HttpExchange.Backoff

variable {ρ : Rounding} {σ : Type}

namespace Config

variable {c : Config (Rounded ρ)} {x : ℕ}

/-- The multiple of an interval of `x` milliseconds is longer by a whole millisecond. -/
def Climbs (c : Config (Rounded ρ)) (x : ℕ) : Prop := (x + 1 : ℚ) ≤ ρ.round (x * c.multiplier.value)

/-! ## One delay -/

theorem Sound.lt_grown_iff (h : c.Sound) (hx : x < c.maxInterval.toNat) :
    x < c.grown x ↔ c.Climbs x := by
  have hword : x ≤ 2 ^ 53 := hx.le.trans (c.maxInterval.toNat_lt.le.trans (by norm_num))
  have hproduct : (x : ℚ) ≤ ρ.round (x * c.multiplier.value) :=
    ρ.natCast_le_round hword (le_mul_of_one_le_right (Nat.cast_nonneg x) h.one_le_multiplier)
  rw [grown, Climbs]
  split
  · rename_i hceiling
    have hnext : (x + 1 : ℚ) ≤ c.maxInterval.toNat := by exact_mod_cast hx
    exact iff_of_true hx (hnext.trans hceiling)
  · rw [← Nat.add_one_le_iff, Nat.le_floor_iff ((Nat.cast_nonneg x).trans hproduct), Nat.cast_succ]

theorem Sound.grown_eq_self (h : c.Sound) (hx : x ≤ c.maxInterval.toNat)
    (hstays : x = c.maxInterval.toNat ∨ ¬ c.Climbs x) : c.grown x = x := by
  refine le_antisymm ?_ (h.le_grown hx)
  rcases hstays with rfl | hclimbs
  · exact c.grown_le_max _
  · rcases hx.eq_or_lt with rfl | hlt
    · exact c.grown_le_max _
    · exact not_lt.mp (mt (h.lt_grown_iff hlt).mp hclimbs)

/-! ## Any number of delays -/

theorem iterate_grown_le_max (hx : x ≤ c.maxInterval.toNat) (k : ℕ) :
    c.grown^[k] x ≤ c.maxInterval.toNat := by
  cases k with
  | zero => exact hx
  | succ k =>
      rw [Function.iterate_succ_apply']
      exact c.grown_le_max _

theorem Sound.le_iterate_grown (h : c.Sound) (hx : x ≤ c.maxInterval.toNat) (k : ℕ) :
    x ≤ c.grown^[k] x := by
  induction k with
  | zero => exact le_rfl
  | succ k ih =>
      rw [Function.iterate_succ_apply']
      exact ih.trans (h.le_grown (iterate_grown_le_max hx k))

/-- Where no interval stays behind, each delay adds a millisecond at least. -/
theorem Sound.min_le_iterate_grown (h : c.Sound) (hx : x ≤ c.maxInterval.toNat)
    (hclimbs : ∀ k, c.grown^[k] x < c.maxInterval.toNat → c.Climbs (c.grown^[k] x)) (k : ℕ) :
    min c.maxInterval.toNat (x + k) ≤ c.grown^[k] x := by
  induction k with
  | zero => exact min_le_right _ _
  | succ k ih =>
      rw [Function.iterate_succ_apply']
      rcases (iterate_grown_le_max hx k).eq_or_lt with heq | hlt
      · rw [heq, h.grown_eq_self le_rfl (.inl rfl)]
        exact min_le_left _ _
      · have hstep := (h.lt_grown_iff hlt).mpr (hclimbs k hlt)
        omega

theorem Sound.iterate_grown_eq_max (h : c.Sound) (hx : x ≤ c.maxInterval.toNat)
    (hclimbs : ∀ k, c.grown^[k] x < c.maxInterval.toNat → c.Climbs (c.grown^[k] x)) {k : ℕ}
    (hk : c.maxInterval.toNat ≤ x + k) : c.grown^[k] x = c.maxInterval.toNat :=
  le_antisymm (iterate_grown_le_max hx k)
    ((le_min le_rfl hk).trans (h.min_le_iterate_grown hx hclimbs k))

/-- An interval that stays behind is the last one. -/
theorem Sound.iterate_grown_eq_of_le (h : c.Sound) (hx : x ≤ c.maxInterval.toNat) {k n : ℕ}
    (hstays : ¬ c.Climbs (c.grown^[k] x)) (hk : k ≤ n) : c.grown^[n] x = c.grown^[k] x := by
  obtain ⟨m, rfl⟩ := Nat.exists_eq_add_of_le' hk
  rw [Function.iterate_add_apply]
  exact Function.iterate_fixed (h.grown_eq_self (iterate_grown_le_max hx k) (.inr hstays)) m

/-! ## Without rounding -/

theorem climbs_exact_iff {c : Config Exact} {x : ℕ} :
    c.Climbs x ↔ 1 ≤ x * (c.multiplier.value - 1) := by
  have hround : Rounding.exact.round (x * c.multiplier.value) = x * c.multiplier.value := rfl
  rw [Climbs, hround, mul_sub_one, le_sub_iff_add_le, add_comm]

theorem Climbs.mono {c : Config Exact} (hc : c.Sound) {x y : ℕ} (h : c.Climbs x) (hxy : x ≤ y) :
    c.Climbs y := by
  rw [climbs_exact_iff] at h ⊢
  have hcast : (x : ℚ) ≤ y := Nat.cast_le.mpr hxy
  exact h.trans (mul_le_mul_of_nonneg_right hcast (sub_nonneg.mpr hc.one_le_multiplier))

/-- Without rounding the first interval speaks for all of them. -/
theorem climbs_iterate_exact_iff {c : Config Exact} (hc : c.Sound) {x : ℕ}
    (hx : x ≤ c.maxInterval.toNat) :
    (∀ k, c.grown^[k] x < c.maxInterval.toNat → c.Climbs (c.grown^[k] x)) ↔
      x = c.maxInterval.toNat ∨ c.Climbs x := by
  constructor
  · intro h
    rcases hx.eq_or_lt with heq | hlt
    · exact .inl heq
    · exact .inr (h 0 hlt)
  · rintro (rfl | hclimbs) k hlt
    · exact absurd (hc.le_iterate_grown le_rfl k) (not_le.mpr hlt)
    · exact hclimbs.mono hc (hc.le_iterate_grown hx k)

end Config

namespace Policy

variable {config : Config (Rounded ρ)} {source : σ} {now : UInt64} {p : Policy (Rounded ρ) σ}
variable (draw : σ → Rounded ρ × σ)

/-- Each delay that is handed out below the ceiling makes the interval longer, and with enough of
them since the last reset it is at the ceiling. -/
structure Ascends (p : Policy (Rounded ρ) σ) : Prop where
  longer : ∀ (calls : List Call) (t : UInt64),
    (p.run draw calls).interval < p.config.maxInterval →
      ((p.run draw calls).next draw t).1 ≠ .stop →
        (p.run draw calls).interval < ((p.run draw calls).next draw t).2.interval
  arrives : ∃ n, ∀ calls : List Call, n ≤ delaysSinceReset (p.decisions draw calls) →
    (p.run draw calls).interval = p.config.maxInterval

theorem next_of_ne_stop {t : UInt64} (h : (p.next draw t).1 ≠ .stop) :
    (p.next draw t).2.interval = grow p.config p.interval := by
  rcases p.next_cases draw t with ⟨-, hnext⟩ | ⟨-, hnext⟩
  · exact absurd (congrArg Prod.fst hnext) h
  · rw [hnext]

/-! ## A campaign on a clock that stands still -/

theorem next_started_ne_stop (p : Policy (Rounded ρ) σ) : (p.next draw p.started).1 ≠ .stop := by
  rw [Ne, decision_eq_stop_iff, elapsedMillis]
  simp

theorem started_replicate (k : ℕ) :
    ((start config source now).run draw (List.replicate k (.next now))).started = now := by
  rw [started_run, begun, List.filterMap_eq_nil_iff.mpr]
  · rfl
  · intro call hcall
    rw [List.eq_of_mem_replicate hcall]
    rfl

/-- On such a clock every call brings a delay. -/
theorem delaysSinceReset_replicate (k : ℕ) :
    delaysSinceReset ((start config source now).decisions draw (List.replicate k (.next now))) =
      k := by
  induction k with
  | zero => rfl
  | succ k ih =>
      have hstarted : ((start config source now).run draw
          (List.replicate k (.next now))).started = now := started_replicate draw k
      rw [List.replicate_succ', decisions_concat]
      generalize (start config source now).run draw (List.replicate k (.next now)) = q at hstarted
      have hretry := next_started_ne_stop draw q
      rw [hstarted] at hretry
      rw [decision?]
      cases hdecision : (q.next draw now).1 with
      | stop => exact absurd hdecision hretry
      | retry delay => rw [delaysSinceReset_concat_retry, ih]

/-! ## The whole ascent -/

theorem interval_replicate (k : ℕ) :
    ((start config source now).run draw (List.replicate k (.next now))).interval.toNat =
      config.grown^[k] config.initialInterval.toNat := by
  rw [toNat_interval_run, delaysSinceReset_replicate]

theorem Ascends.climbs (h : config.Sound) (hascends : (start config source now).Ascends draw)
    {k : ℕ} (hlt : config.grown^[k] config.initialInterval.toNat < config.maxInterval.toNat) :
    config.Climbs (config.grown^[k] config.initialInterval.toNat) := by
  have hlonger := hascends.longer (List.replicate k (.next now)) now
  obtain ⟨q, hq⟩ :
      ∃ q, (start config source now).run draw (List.replicate k (.next now)) = q := ⟨_, rfl⟩
  have hinterval : q.interval.toNat = config.grown^[k] config.initialInterval.toNat :=
    hq ▸ interval_replicate draw k
  have hstarted : q.started = now := hq ▸ started_replicate draw k
  have hqconfig : q.config = config := hq ▸ config_run draw (start config source now) _
  have hretry : (q.next draw now).1 ≠ .stop := hstarted ▸ next_started_ne_stop draw q
  rw [hq, next_of_ne_stop draw hretry, UInt32.lt_iff_toNat_lt, UInt32.lt_iff_toNat_lt, toNat_grow,
    hinterval, hqconfig] at hlonger
  exact (h.lt_grown_iff hlt).mp (hlonger hlt hretry)

theorem interval_eq_max (h : config.Sound)
    (hclimbs : ∀ k, config.grown^[k] config.initialInterval.toNat < config.maxInterval.toNat →
      config.Climbs (config.grown^[k] config.initialInterval.toNat)) {calls : List Call}
    (hcalls : config.maxInterval.toNat ≤ config.initialInterval.toNat +
      delaysSinceReset ((start config source now).decisions draw calls)) :
    ((start config source now).run draw calls).interval = config.maxInterval := by
  rw [← UInt32.toNat_inj, toNat_interval_run]
  exact h.iterate_grown_eq_max h.initial_le_max hclimbs hcalls

theorem ascends_of_climbs (h : config.Sound)
    (hclimbs : ∀ k, config.grown^[k] config.initialInterval.toNat < config.maxInterval.toNat →
      config.Climbs (config.grown^[k] config.initialInterval.toNat)) :
    (start config source now).Ascends draw := by
  refine ⟨?_, config.maxInterval.toNat, ?_⟩
  · intro calls t hlt hretry
    set q := (start config source now).run draw calls
    have hinterval : q.interval.toNat = config.grown^[_] _ := toNat_interval_run draw calls
    have hqconfig : q.config = config := config_run draw (start config source now) calls
    have hlt' : q.interval.toNat < config.maxInterval.toNat := UInt32.lt_iff_toNat_lt.mp hlt
    rw [next_of_ne_stop draw hretry, UInt32.lt_iff_toNat_lt, toNat_grow, hqconfig,
      h.lt_grown_iff hlt']
    rw [hinterval] at hlt' ⊢
    exact hclimbs _ hlt'
  · intro calls hcalls
    exact interval_eq_max draw h hclimbs (hcalls.trans (Nat.le_add_left _ _))

/-- An interval that no product lengthens by a whole millisecond is never left. -/
theorem interval_eq_of_stays (h : config.Sound) {k : ℕ}
    (hstays : ¬ config.Climbs (config.grown^[k] config.initialInterval.toNat)) {calls : List Call}
    (hcalls : k ≤ delaysSinceReset ((start config source now).decisions draw calls)) :
    ((start config source now).run draw calls).interval.toNat =
      config.grown^[k] config.initialInterval.toNat := by
  rw [toNat_interval_run]
  exact h.iterate_grown_eq_of_le h.initial_le_max hstays hcalls

/-- The interval of a policy reaches its ceiling exactly if each interval on the way has a multiple
that is longer by a whole millisecond, and then there are at most as many delays before the ceiling
as milliseconds. The first interval whose multiple is not is kept until a reset. Without rounding
only the initial interval counts: if its multiple is not longer by a millisecond, every delay of
the policy is drawn around it. -/
theorem ascends_iff (hbuild : build config source now = .ok p) :
    let first := config.initialInterval.toNat
    let ceiling := config.maxInterval.toNat
    (p.Ascends draw ↔ ∀ k, config.grown^[k] first < ceiling →
        (config.grown^[k] first + 1 : ℚ) ≤
          ρ.round (config.grown^[k] first * config.multiplier.value)) ∧
      (p.Ascends draw → ∀ calls : List Call,
        ceiling ≤ first + delaysSinceReset (p.decisions draw calls) →
          (p.run draw calls).interval = config.maxInterval) ∧
      (∀ k, ρ.round (config.grown^[k] first * config.multiplier.value) <
          config.grown^[k] first + 1 → ∀ calls : List Call,
        k ≤ delaysSinceReset (p.decisions draw calls) →
          (p.run draw calls).interval.toNat = config.grown^[k] first) ∧
      (ρ = .exact →
        (p.Ascends draw ↔ first = ceiling ∨ 1 ≤ first * (config.multiplier.value - 1)) ∧
        (¬ p.Ascends draw → ∀ calls : List Call,
          (p.run draw calls).interval = config.initialInterval)) := by
  obtain ⟨hvalid, rfl⟩ := build_eq_ok_iff.mp hbuild
  have h : config.Sound := Config.valid_iff_sound.mp hvalid
  intro first ceiling
  have hclimbs : (start config source now).Ascends draw ↔ ∀ k,
      config.grown^[k] first < ceiling → config.Climbs (config.grown^[k] first) :=
    ⟨fun hascends _ => hascends.climbs draw h, ascends_of_climbs draw h⟩
  refine ⟨hclimbs, ?_, ?_, ?_⟩
  · intro hascends calls
    exact interval_eq_max draw h (hclimbs.mp hascends)
  · intro k hshort calls
    exact interval_eq_of_stays draw h (not_le.mpr hshort)
  · rintro rfl
    have hfirst : (start config source now).Ascends draw ↔
        first = ceiling ∨ config.Climbs first :=
      hclimbs.trans (Config.climbs_iterate_exact_iff h h.initial_le_max)
    refine ⟨hfirst.trans (or_congr_right Config.climbs_exact_iff), ?_⟩
    intro hnot calls
    have hstays : ¬ config.Climbs first := fun hclimb => hnot (hfirst.mpr (.inr hclimb))
    exact UInt32.toNat_inj.mp (interval_eq_of_stays (k := 0) draw h hstays (Nat.zero_le _))

/-- A tenth of ten milliseconds is the whole millisecond that is needed, in each of three steps. -/
theorem ascends_by_one_millisecond :
    let config : Config Exact := ⟨10, ⟨11 / 10⟩, ⟨1 / 2⟩, 13, 3⟩
    let draw : ℕ → Exact × ℕ := fun n => (⟨1 / (n + 2)⟩, n + 1)
    let p := start config 0 7000000
    build config 0 7000000 = .ok p ∧ p.Ascends draw ∧
      delaysSinceReset (p.decisions draw
        [.next 7000000, .next 7000001, .next 18446744073709551615, .next 8000000]) = 3 ∧
      (p.run draw
        [.next 7000000, .next 7000001, .next 18446744073709551615, .next 8000000]).interval =
          13 := by
  intro config draw p
  have hsound : config.Sound :=
    ⟨by decide, by norm_num [config], by norm_num [config], by norm_num [config], by decide⟩
  have hbuild : build config 0 7000000 = .ok p :=
    build_eq_ok_iff.mpr ⟨Config.valid_iff_sound.mpr hsound, rfl⟩
  have hdelays : delaysSinceReset (p.decisions draw
      [.next 7000000, .next 7000001, .next 18446744073709551615, .next 8000000]) = 3 := by
    decide +kernel
  obtain ⟨-, hceiling, -, hexact⟩ := ascends_iff draw hbuild
  have hascends : p.Ascends draw := (hexact rfl).1.mpr (.inr (by decide +kernel))
  exact ⟨hbuild, hascends, hdelays, hceiling hascends _ (by rw [hdelays]; decide)⟩

/-- One millisecond and a half are cut to the one millisecond that there was, and the ceiling of two
is never reached. -/
theorem not_ascends_from_one_millisecond :
    let config : Config Exact := ⟨1, ⟨3 / 2⟩, ⟨0⟩, 2, 900000⟩
    let draw : Unit → Exact × Unit := fun s => (⟨0⟩, s)
    let p := start config () 0
    build config () 0 = .ok p ∧ 1 < config.multiplier.value ∧ (p.next draw 0).1 ≠ .stop ∧
      p.interval < config.maxInterval ∧ (p.next draw 0).2.interval = p.interval ∧
      ¬ p.Ascends draw := by
  intro config draw p
  have hsound : config.Sound :=
    ⟨by decide, by norm_num [config], by norm_num [config], by norm_num [config], by decide⟩
  have hbuild : build config () 0 = .ok p :=
    build_eq_ok_iff.mpr ⟨Config.valid_iff_sound.mpr hsound, rfl⟩
  have hretry : (p.next draw 0).1 ≠ .stop := next_started_ne_stop draw p
  have hbelow : p.interval < config.maxInterval := by decide
  have hsame : (p.next draw 0).2.interval = p.interval := by decide +kernel
  refine ⟨hbuild, by norm_num [config], hretry, hbelow, hsame, ?_⟩
  intro hascends
  have hlonger : p.interval < (p.next draw 0).2.interval := hascends.longer [] 0 hbelow hretry
  rw [hsame] at hlonger
  exact UInt32.lt_irrefl _ hlonger

end Policy

end HttpExchange.Backoff
