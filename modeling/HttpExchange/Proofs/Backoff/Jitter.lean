import HttpExchange.Proofs.Backoff.Rounding

/-! # Bounds of a delay

The interval itself lies in the range that a delay is drawn from, however the borders were rounded,
so the whole numbers of the range are in order and the drawn one is among them. What is drawn grows
with the point of the unit interval, for every operation on the way keeps the order. Without
rounding no delay is zero. -/

namespace HttpExchange.Backoff

variable {ρ : Rounding}

theorem toNat_le_two_pow (n : UInt32) : n.toNat ≤ 2 ^ 53 :=
  n.toNat_lt.le.trans (by norm_num)

namespace Range

variable {factor : Rounded ρ}

/-- How far the borders of the range are away from its middle. -/
def spread (factor : Rounded ρ) (current : UInt32) : ℚ := ρ.round (factor.value * current.toNat)

theorem value_low (factor : Rounded ρ) (current : UInt32) :
    (around factor current).low.value = ρ.round (current.toNat - spread factor current) := rfl

theorem value_high (factor : Rounded ρ) (current : UInt32) :
    (around factor current).high.value = ρ.round (current.toNat + spread factor current) := rfl

/-! ## The borders -/

theorem spread_nonneg (h : 0 ≤ factor.value) (current : UInt32) : 0 ≤ spread factor current :=
  ρ.round_nonneg (mul_nonneg h (Nat.cast_nonneg _))

theorem spread_le (h : factor.value ≤ 1) (current : UInt32) :
    spread factor current ≤ current.toNat :=
  ρ.round_le_natCast (toNat_le_two_pow current) (mul_le_of_le_one_left (Nat.cast_nonneg _) h)

theorem low_nonneg (h : factor.value ≤ 1) (current : UInt32) :
    0 ≤ (around factor current).low.value :=
  ρ.round_nonneg (sub_nonneg.mpr (spread_le h current))

theorem low_le (h : 0 ≤ factor.value) (current : UInt32) :
    (around factor current).low.value ≤ current.toNat := by
  have hspread := spread_nonneg h current
  rw [value_low]
  exact ρ.round_le_natCast (toNat_le_two_pow current) (by linarith)

theorem le_high (h : 0 ≤ factor.value) (current : UInt32) :
    (current.toNat : ℚ) ≤ (around factor current).high.value := by
  have hspread := spread_nonneg h current
  rw [value_high]
  exact ρ.natCast_le_round (toNat_le_two_pow current) (by linarith)

theorem high_lt (h : factor.value ≤ 1) (current : UInt32) :
    (around factor current).high.value < 2 ^ 64 := by
  have hspread := spread_le h current
  have hword := current.toNat_lt
  have htwice : ((current.toNat + current.toNat : ℕ) : ℚ) < 2 ^ 64 := by
    have hsum : current.toNat + current.toNat < 2 ^ 64 := by omega
    exact_mod_cast hsum
  rw [value_high]
  refine lt_of_le_of_lt (ρ.round_le_natCast ?_ ?_) htwice
  · omega
  · push_cast
    linarith

/-- The whole numbers of the range are in order: the interval is one of them. -/
theorem ceil_low_le_floor_high (h : 0 ≤ factor.value) (current : UInt32) :
    ⌈(around factor current).low.value⌉ ≤ ⌊(around factor current).high.value⌋ := by
  have hceil : ⌈(around factor current).low.value⌉ ≤ (current.toNat : ℤ) :=
    Int.ceil_le.mpr (by exact_mod_cast low_le h current)
  have hfloor : (current.toNat : ℤ) ≤ ⌊(around factor current).high.value⌋ :=
    Int.le_floor.mpr (by exact_mod_cast le_high h current)
  exact hceil.trans hfloor

/-! ## The number that is picked -/

/-- The point of the stretched range that is rounded down. -/
def point (r : Range (Rounded ρ)) (random : Rounded ρ) : ℚ :=
  ρ.round (r.low.value +
    ρ.round (random.value * ρ.round (ρ.round (r.high.value - r.low.value) + 1)))

theorem value_pick (r : Range (Rounded ρ)) (random : Rounded ρ)
    (h : ⌈r.low.value⌉ ≤ ⌊r.high.value⌋) : (r.pick random).value =
      (max ⌈r.low.value⌉ (min ⌊r.high.value⌋ ⌊r.point random⌋) : ℤ) := by
  let picked : Rounded ρ := Arithmetic.floor
    (r.low + random * (r.high - r.low + Arithmetic.ofWord 1))
  have hpick : r.pick random =
      if Arithmetic.lt picked r.first then r.first
      else if Arithmetic.lt r.last picked then r.last else picked := rfl
  have hpicked : picked.value = (⌊r.point random⌋ : ℤ) := by
    rw [point, ← Nat.cast_one, ← UInt32.toNat_one]
    rfl
  have hfirst : Arithmetic.lt picked r.first = true ↔ ⌊r.point random⌋ < ⌈r.low.value⌉ := by
    rw [Rounded.lt_iff, hpicked]
    exact Int.cast_lt
  have hlast : Arithmetic.lt r.last picked = true ↔ ⌊r.high.value⌋ < ⌊r.point random⌋ := by
    rw [Rounded.lt_iff, hpicked]
    exact Int.cast_lt
  rw [hpick]
  split_ifs with hbelow habove
  · have hlow := (min_le_right ⌊r.high.value⌋ _).trans (hfirst.mp hbelow).le
    rw [max_eq_left hlow]
    rfl
  · rw [min_eq_left (hlast.mp habove).le, max_eq_right h]
    rfl
  · have hlow := not_lt.mp (mt hfirst.mpr hbelow)
    have hhigh := not_lt.mp (mt hlast.mpr habove)
    rw [min_eq_right hhigh, max_eq_right hlow, hpicked]

/-- Further in the unit interval is further in the range. -/
theorem point_mono {r : Range (Rounded ρ)} (h : r.low.value ≤ r.high.value)
    {random random' : Rounded ρ} (hrandom : random.value ≤ random'.value) :
    r.point random ≤ r.point random' := by
  have hwidth : 0 ≤ ρ.round (r.high.value - r.low.value) := ρ.round_nonneg (sub_nonneg.mpr h)
  have hstretched : 0 ≤ ρ.round (ρ.round (r.high.value - r.low.value) + 1) :=
    ρ.round_nonneg (add_nonneg hwidth zero_le_one)
  have hproduct := ρ.monotone (mul_le_mul_of_nonneg_right hrandom hstretched)
  exact ρ.monotone (add_le_add_right hproduct _)

end Range

open Range

theorem toNat_jitter {factor : Rounded ρ} (h0 : 0 ≤ factor.value) (h1 : factor.value ≤ 1)
    (random : Rounded ρ) (current : UInt32) :
    ((jitter factor random current).toNat : ℤ) =
      max ⌈(around factor current).low.value⌉
        (min ⌊(around factor current).high.value⌋ ⌊(around factor current).point random⌋) := by
  have horder := ceil_low_le_floor_high h0 current
  have hvalue := value_pick (around factor current) random horder
  set z : ℤ := max ⌈(around factor current).low.value⌉
    (min ⌊(around factor current).high.value⌋ ⌊(around factor current).point random⌋)
  have hnonneg : 0 ≤ z := (Int.ceil_nonneg (low_nonneg h1 current)).trans (le_max_left _ _)
  have hle : (z : ℚ) ≤ (around factor current).high.value :=
    Int.le_floor.mp (max_le horder (min_le_left _ _))
  have hword : (jitter factor random current).toNat = ⌊(z : ℚ)⌋₊ := by
    rw [jitter, Rounded.toNat_toWord (by rw [hvalue]; exact hle.trans_lt (high_lt h1 current)),
      hvalue]
  rw [hword, ← Int.floor_toNat, Int.floor_intCast, Int.toNat_of_nonneg hnonneg]

/-- A delay is a whole number of the range, however the operations round. -/
theorem jitter_mem {factor : Rounded ρ} (h0 : 0 ≤ factor.value) (h1 : factor.value ≤ 1)
    (random : Rounded ρ) (current : UInt32) :
    ⌈(around factor current).low.value⌉ ≤ ((jitter factor random current).toNat : ℤ) ∧
      ((jitter factor random current).toNat : ℤ) ≤ ⌊(around factor current).high.value⌋ := by
  rw [toNat_jitter h0 h1]
  exact ⟨le_max_left _ _, max_le (ceil_low_le_floor_high h0 current) (min_le_left _ _)⟩

theorem jitter_mono {factor : Rounded ρ} (h0 : 0 ≤ factor.value) (h1 : factor.value ≤ 1)
    {random random' : Rounded ρ} (h : random.value ≤ random'.value) (current : UInt32) :
    jitter factor random current ≤ jitter factor random' current := by
  have hborders := (low_le h0 current).trans (le_high h0 current)
  have hfloor := Int.floor_mono (point_mono hborders h)
  rw [UInt64.le_iff_toNat_le, ← Int.ofNat_le, toNat_jitter h0 h1, toNat_jitter h0 h1]
  exact max_le_max le_rfl (min_le_min le_rfl hfloor)

/-- Without a factor the range is the interval alone. -/
theorem toNat_jitter_of_factor_eq_zero {factor : Rounded ρ} (h : factor.value = 0)
    (random : Rounded ρ) (current : UInt32) :
    (jitter factor random current).toNat = current.toNat := by
  have hcurrent := ρ.round_natCast (toNat_le_two_pow current)
  have hspread : spread factor current = 0 := by
    rw [spread, h, zero_mul]
    exact_mod_cast ρ.round_natCast (Nat.zero_le (2 ^ 53))
  obtain ⟨hfirst, hlast⟩ := jitter_mem h.ge (h.le.trans zero_le_one) random current
  rw [value_low, hspread, sub_zero, hcurrent, Int.ceil_natCast] at hfirst
  rw [value_high, hspread, add_zero, hcurrent, Int.floor_natCast] at hlast
  exact Int.ofNat_inj.mp (le_antisymm hlast hfirst)

/-- The borders of the range are never found out of order. -/
theorem jitter?_eq_some {factor : Rounded ρ} (h0 : 0 ≤ factor.value) (random : Rounded ρ)
    (current : UInt32) : jitter? factor random current = some (jitter factor random current) := by
  have horder : Arithmetic.le (around factor current).first (around factor current).last = true :=
    Rounded.le_iff.mpr (Int.cast_le.mpr (ceil_low_le_floor_high h0 current))
  rw [jitter?]
  exact if_pos horder

/-! ## Without rounding -/

theorem one_le_jitter {factor : Exact} (h0 : 0 ≤ factor.value) (h1 : factor.value < 1)
    (random : Exact) {current : UInt32} (hcurrent : 0 < current.toNat) :
    1 ≤ (jitter factor random current).toNat := by
  have hmiddle : (0 : ℚ) < current.toNat := Nat.cast_pos.mpr hcurrent
  have hlow : 0 < (around factor current).low.value := by
    have hspread : factor.value * current.toNat < current.toNat := mul_lt_of_lt_one_left hmiddle h1
    exact sub_pos.mpr hspread
  have hfirst := (jitter_mem h0 h1.le random current).1
  exact_mod_cast (Int.one_le_ceil_iff.mpr hlow).trans hfirst

theorem jitter_le {factor : Exact} (h0 : 0 ≤ factor.value) (h1 : factor.value ≤ 1)
    (random : Exact) {current ceiling : UInt32} (h : current.toNat ≤ ceiling.toNat) :
    (jitter factor random current).toNat ≤ ⌊ceiling.toNat * (1 + factor.value)⌋₊ := by
  have hhigh : (around factor current).high.value = current.toNat * (1 + factor.value) := by
    rw [value_high]
    show (current.toNat : ℚ) + factor.value * current.toNat = _
    ring
  have hcurrent : (current.toNat : ℚ) ≤ ceiling.toNat := Nat.cast_le.mpr h
  have hlast := Int.le_floor.mp (jitter_mem h0 h1 random current).2
  rw [hhigh] at hlast
  apply Nat.le_floor
  calc ((jitter factor random current).toNat : ℚ)
      ≤ current.toNat * (1 + factor.value) := by exact_mod_cast hlast
    _ ≤ ceiling.toNat * (1 + factor.value) := mul_le_mul_of_nonneg_right hcurrent (by linarith)

/-! ## Any point of the unit interval -/

/-- However the operations round, the borders of the range are in order and the delay is a whole
number from the one to the other; it does not decrease as the drawn point goes up, without a factor
it is the interval, and without rounding it is zero for no interval but zero. -/
theorem jitter?_within {factor : Rounded ρ} (h0 : 0 ≤ factor.value) (h1 : factor.value < 1)
    (current : UInt32) :
    let c : ℚ := current.toNat
    (∀ random : Rounded ρ, ∃ k, jitter? factor random current = some k ∧
      ⌈ρ.round (c - ρ.round (factor.value * c))⌉ ≤ (k.toNat : ℤ) ∧
      (k.toNat : ℤ) ≤ ⌊ρ.round (c + ρ.round (factor.value * c))⌋ ∧
      (factor.value = 0 → k.toNat = current.toNat) ∧
      (ρ = .exact → 1 ≤ current.toNat → 1 ≤ k.toNat)) ∧
    ∀ (random random' : Rounded ρ) (k k' : UInt64), random.value ≤ random'.value →
      jitter? factor random current = some k → jitter? factor random' current = some k' →
      k ≤ k' := by
  intro c
  constructor
  · intro random
    obtain ⟨hfirst, hlast⟩ := jitter_mem h0 h1.le random current
    refine ⟨jitter factor random current, jitter?_eq_some h0 random current, hfirst, hlast,
      fun hzero => toNat_jitter_of_factor_eq_zero hzero random current, ?_⟩
    rintro rfl hcurrent
    exact one_le_jitter h0 h1 random hcurrent
  · intro random random' k k' hrandom hk hk'
    rw [jitter?_eq_some h0] at hk hk'
    obtain rfl := Option.some.inj hk
    obtain rfl := Option.some.inj hk'
    exact jitter_mono h0 h1.le hrandom current

/-- The third standard interval has borders between whole numbers. Close to the end of the unit
interval the stretched range passes the upper one, and the delay comes back to it. -/
theorem jitter?_within_third_interval :
    let factor : Rounded (.down 1) := ⟨1 / 2⟩
    let random : Rounded (.down 1) := ⟨1 - 1 / 2 ^ 53⟩
    (0 ≤ factor.value ∧ factor.value < 1) ∧ ⌊(around factor 1125).point random⌋ = 1688 ∧
      jitter? factor random 1125 = some 1687 ∧
      ∀ (earlier : Rounded (.down 1)) (k : UInt64), earlier.value ≤ random.value →
        jitter? factor earlier 1125 = some k → 563 ≤ k.toNat ∧ k ≤ 1687 := by
  intro factor random
  have h0 : 0 ≤ factor.value := by norm_num [factor]
  have h1 : factor.value < 1 := by norm_num [factor]
  have hlast : jitter? factor random 1125 = some 1687 := by decide +kernel
  have hfirst : ⌈(Rounding.down 1).round (((1125 : UInt32).toNat : ℚ) -
      (Rounding.down 1).round (factor.value * ((1125 : UInt32).toNat : ℚ)))⌉ = 563 := by
    decide +kernel
  obtain ⟨hwithin, hmono⟩ := jitter?_within h0 h1 1125
  refine ⟨⟨h0, h1⟩, by decide +kernel, hlast, ?_⟩
  intro earlier k hearlier hk
  obtain ⟨k', hk', hleast, -⟩ := hwithin earlier
  rw [hk] at hk'
  obtain rfl := Option.some.inj hk'
  rw [hfirst] at hleast
  exact ⟨by exact_mod_cast hleast, hmono earlier random k 1687 hearlier hk hlast⟩

end HttpExchange.Backoff
