import HttpExchange.Proofs.Backoff.Jitter
import Mathlib.Order.Interval.Set.OrdConnected
import Mathlib.Tactic.FieldSimp
import Mathlib.Tactic.LinearCombination

/-! # Shares of the unit interval

Without rounding, the points that pick a delay form an interval. The delays between the outermost
ones of a range have intervals of one length. The outermost ones also take what the range holds
beyond them, so that they are picked more often, unless the borders are whole numbers. -/

namespace HttpExchange.Backoff

/-! ## Intervals and their length -/

/-- The points form an interval, with or without its ends, of this length. -/
def Spans (points : Set ℚ) (length : ℚ) : Prop :=
  points.OrdConnected ∧ ∃ a b, IsGLB points a ∧ IsLUB points b ∧ b - a = length

theorem spans_Ico {a b : ℚ} (h : a < b) : Spans (Set.Ico a b) (b - a) :=
  ⟨Set.ordConnected_Ico, a, b, isGLB_Ico h, isLUB_Ico h, rfl⟩

theorem Spans.unique {points : Set ℚ} {x y : ℚ} (hx : Spans points x) (hy : Spans points y) :
    x = y := by
  obtain ⟨-, a, b, ha, hb, rfl⟩ := hx
  obtain ⟨-, a', b', ha', hb', rfl⟩ := hy
  rw [ha.unique ha', hb.unique hb']

/-! ## The points of a delay

The borders of a range lie `d` away from its middle, and a delay `j`, so that the outermost delays
are the whole part of `d` away. -/

variable {d : ℚ} {j : ℤ}

/-- The first point for the delay at distance `j`. -/
def shareStart (d : ℚ) (j : ℤ) : ℚ := if j = -⌊d⌋ then 0 else (j + d) / (2 * d + 1)

/-- The end of the points for the delay at distance `j`. -/
def shareStop (d : ℚ) (j : ℤ) : ℚ := if j = ⌊d⌋ then 1 else (j + 1 + d) / (2 * d + 1)

/-- How much of the unit interval there is for the delay at distance `j`. -/
def share (d : ℚ) (j : ℤ) : ℚ :=
  if ⌊d⌋ = 0 then 1
  else if j = -⌊d⌋ ∨ j = ⌊d⌋ then (1 + Int.fract d) / (2 * d + 1)
  else 1 / (2 * d + 1)

theorem shareStop_sub_shareStart (hd : 0 ≤ d) (hlow : -⌊d⌋ ≤ j) (hhigh : j ≤ ⌊d⌋) :
    shareStop d j - shareStart d j = share d j := by
  have hwidth : 2 * d + 1 ≠ 0 := by positivity
  have hfract : Int.fract d = d - ⌊d⌋ := rfl
  by_cases hone : ⌊d⌋ = 0
  · obtain rfl : j = 0 := by omega
    simp [shareStop, shareStart, share, hone]
  by_cases hfirst : j = -⌊d⌋
  · have hlast : j ≠ ⌊d⌋ := by omega
    have hshare : share d j = (1 + Int.fract d) / (2 * d + 1) :=
      (if_neg hone).trans (if_pos (.inl hfirst))
    rw [hshare, shareStop, shareStart, if_neg hlast, if_pos hfirst, hfract, hfirst]
    push_cast
    ring
  by_cases hlast : j = ⌊d⌋
  · have hshare : share d j = (1 + Int.fract d) / (2 * d + 1) :=
      (if_neg hone).trans (if_pos (.inr hlast))
    rw [hshare, shareStop, shareStart, if_pos hlast, if_neg hfirst, hfract, hlast]
    field_simp
    ring
  · have hshare : share d j = 1 / (2 * d + 1) :=
      (if_neg hone).trans (if_neg (not_or_intro hfirst hlast))
    rw [hshare, shareStop, shareStart, if_neg hlast, if_neg hfirst]
    ring

/-- The points are cut off at the ends of the unit interval. -/
theorem shareStart_le_iff (hd : 0 ≤ d) (hlow : -⌊d⌋ ≤ j) {r : ℚ} :
    shareStart d j ≤ r ↔ 0 ≤ r ∧ (j = -⌊d⌋ ∨ j ≤ ⌊r * (2 * d + 1) - d⌋) := by
  have hwidth : 0 < 2 * d + 1 := by positivity
  rw [shareStart, Int.le_floor, le_sub_iff_add_le]
  split_ifs with hfirst
  · simp [hfirst]
  · have hstep : -⌊d⌋ + 1 ≤ j := by omega
    have hfloor := Int.floor_le d
    have hpos : 0 < (j + d) / (2 * d + 1) := by
      have hdistance : ((-⌊d⌋ + 1 : ℤ) : ℚ) ≤ j := Int.cast_le.mpr hstep
      push_cast at hdistance
      exact div_pos (by linarith) hwidth
    rw [← div_le_iff₀ hwidth, or_iff_right hfirst]
    exact ⟨fun h => ⟨hpos.le.trans h, h⟩, And.right⟩

theorem lt_shareStop_iff (hd : 0 ≤ d) (hhigh : j ≤ ⌊d⌋) {r : ℚ} :
    r < shareStop d j ↔ r < 1 ∧ (j = ⌊d⌋ ∨ ⌊r * (2 * d + 1) - d⌋ < j + 1) := by
  have hwidth : 0 < 2 * d + 1 := by positivity
  rw [shareStop, Int.floor_lt, sub_lt_iff_lt_add]
  push_cast
  split_ifs with hlast
  · simp [hlast]
  · have hstep : j + 1 ≤ ⌊d⌋ := by omega
    have hfloor := Int.floor_le d
    have hlt : (j + 1 + d) / (2 * d + 1) < 1 := by
      have hdistance : ((j + 1 : ℤ) : ℚ) ≤ ⌊d⌋ := Int.cast_le.mpr hstep
      push_cast at hdistance
      exact (div_lt_one hwidth).mpr (by linarith)
    rw [← lt_div_iff₀ hwidth, or_iff_right hlast]
    exact ⟨fun h => ⟨h.trans hlt, h⟩, And.right⟩

theorem share_pos (hd : 0 ≤ d) (j : ℤ) : 0 < share d j := by
  have hfract := Int.fract_nonneg d
  rw [share]
  split_ifs <;> positivity

/-- The outermost shares are as long as the others exactly if the borders are whole numbers, or if
there are no others. -/
theorem share_eq_iff (hd : 0 ≤ d) :
    (∀ j, -⌊d⌋ ≤ j → j ≤ ⌊d⌋ → share d j = 1 / (2 * ⌊d⌋ + 1)) ↔ d < 1 ∨ Int.fract d = 0 := by
  have hfloor : 0 ≤ ⌊d⌋ := Int.floor_nonneg.mpr hd
  have hsplit : (⌊d⌋ : ℚ) + Int.fract d = d := Int.floor_add_fract d
  have hone : ⌊d⌋ = 0 ↔ d < 1 := by
    rw [Int.floor_eq_zero_iff]
    exact and_iff_right hd
  constructor
  · intro h
    by_contra hno
    obtain ⟨hlarge, hfract⟩ := not_or.mp hno
    have hfloor' : ⌊d⌋ ≠ 0 := mt hone.mp hlarge
    have hlast := h ⌊d⌋ (by omega) le_rfl
    have hshare : share d ⌊d⌋ = (1 + Int.fract d) / (2 * d + 1) :=
      (if_neg hfloor').trans (if_pos (.inr rfl))
    rw [hshare, div_eq_div_iff (by positivity) (by positivity)] at hlast
    have hproduct : Int.fract d * (2 * ⌊d⌋ - 1) = 0 := by
      linear_combination hlast - 2 * hsplit
    have hpos : (1 : ℚ) ≤ ⌊d⌋ := by exact_mod_cast (by omega : 1 ≤ ⌊d⌋)
    rcases mul_eq_zero.mp hproduct with hzero | hzero
    · exact hfract hzero
    · linarith
  · rintro (hsmall | hwhole) j - -
    · have hzero := hone.mpr hsmall
      rw [share, if_pos hzero, hzero]
      norm_num
    · rw [hwhole, add_zero] at hsplit
      rw [share, hwhole, ← hsplit, Int.floor_intCast]
      split_ifs with hzero
      · rw [hzero]
        norm_num
      · rw [add_zero]
      · rfl

/-! ## Delays without rounding -/

open Range

variable {factor : Exact} {current : UInt32}

/-- The points of the unit interval that pick this delay. -/
def picking (factor : Exact) (current : UInt32) (k : ℤ) : Set ℚ :=
  {r | (0 ≤ r ∧ r < 1) ∧ ∃ delay, jitter? factor ⟨r⟩ current = some delay ∧ delay.toNat = k}

theorem ceil_natCast_sub (n : ℕ) (d : ℚ) : ⌈(n : ℚ) - d⌉ = n - ⌊d⌋ := by
  rw [sub_eq_add_neg, Int.ceil_natCast_add, Int.ceil_neg, sub_eq_add_neg]

theorem toNat_jitter_exact (h0 : 0 ≤ factor.value) (h1 : factor.value ≤ 1)
    (hd : factor.value * current.toNat = d) (r : ℚ) :
    ((jitter factor ⟨r⟩ current).toNat : ℤ) =
      current.toNat + max (-⌊d⌋) (min ⌊d⌋ ⌊r * (2 * d + 1) - d⌋) := by
  have hlow : (around factor current).low.value = current.toNat - d := hd ▸ rfl
  have hhigh : (around factor current).high.value = current.toNat + d := hd ▸ rfl
  have hpoint : (around factor current).point ⟨r⟩ =
      current.toNat + (r * (2 * d + 1) - d) := by
    calc (around factor current).point ⟨r⟩
        = current.toNat - d + r * (current.toNat + d - (current.toNat - d) + 1) := by
          rw [← hlow, ← hhigh]
          rfl
      _ = current.toNat + (r * (2 * d + 1) - d) := by ring
  rw [toNat_jitter h0 h1, hlow, hhigh, hpoint, ceil_natCast_sub, Int.floor_natCast_add,
    Int.floor_natCast_add, min_add_add_left, sub_eq_add_neg, max_add_add_left]

/-- The points for the delay at distance `j` from the interval. -/
theorem picking_eq (h0 : 0 ≤ factor.value) (h1 : factor.value ≤ 1)
    (hd : factor.value * current.toNat = d) (hlow : -⌊d⌋ ≤ j) (hhigh : j ≤ ⌊d⌋) :
    picking factor current (current.toNat + j) = Set.Ico (shareStart d j) (shareStop d j) := by
  have hnonneg : 0 ≤ d := hd ▸ mul_nonneg h0 (Nat.cast_nonneg _)
  ext r
  have hdelay : (∃ delay, jitter? factor ⟨r⟩ current = some delay ∧
      (delay.toNat : ℤ) = current.toNat + j) ↔
      max (-⌊d⌋) (min ⌊d⌋ ⌊r * (2 * d + 1) - d⌋) = j := by
    simp only [jitter?_eq_some h0, Option.some.injEq, exists_eq_left', toNat_jitter_exact h0 h1 hd,
      add_right_inj]
  have hclamp : max (-⌊d⌋) (min ⌊d⌋ ⌊r * (2 * d + 1) - d⌋) = j ↔
      (j = -⌊d⌋ ∨ j ≤ ⌊r * (2 * d + 1) - d⌋) ∧ (j = ⌊d⌋ ∨ ⌊r * (2 * d + 1) - d⌋ < j + 1) := by
    omega
  rw [Set.mem_Ico, shareStart_le_iff hnonneg hlow, lt_shareStop_iff hnonneg hhigh]
  rw [picking, Set.mem_ofPred_eq, hdelay, hclamp]
  exact and_and_and_comm

theorem spans_picking (h0 : 0 ≤ factor.value) (h1 : factor.value ≤ 1)
    (hd : factor.value * current.toNat = d) (hlow : -⌊d⌋ ≤ j) (hhigh : j ≤ ⌊d⌋) :
    Spans (picking factor current (current.toNat + j)) (share d j) := by
  have hnonneg : 0 ≤ d := hd ▸ mul_nonneg h0 (Nat.cast_nonneg _)
  have hlength := shareStop_sub_shareStart hnonneg hlow hhigh
  rw [picking_eq h0 h1 hd hlow hhigh, ← hlength]
  exact spans_Ico (sub_pos.mp (hlength ▸ share_pos hnonneg j))

/-- Each delay of the range has an interval of points. The outermost delays have longer ones by the
fraction by which the borders miss whole numbers, so that all are equally long exactly if the
borders are whole numbers or the interval is the only delay. -/
theorem spans_picking_iff {factor : Exact} (h0 : 0 ≤ factor.value) (h1 : factor.value < 1)
    (current : UInt32) :
    let c : ℚ := current.toNat
    let d : ℚ := factor.value * c
    (∀ k : ℤ, ⌈c - d⌉ ≤ k → k ≤ ⌊c + d⌋ → Spans (picking factor current k)
        (if ⌈c - d⌉ = ⌊c + d⌋ then 1
          else if k = ⌈c - d⌉ ∨ k = ⌊c + d⌋ then (1 + Int.fract d) / (2 * d + 1)
          else 1 / (2 * d + 1))) ∧
      ((∀ k : ℤ, ⌈c - d⌉ ≤ k → k ≤ ⌊c + d⌋ →
          Spans (picking factor current k) (1 / (⌊c + d⌋ - ⌈c - d⌉ + 1))) ↔
        d < 1 ∨ Int.fract d = 0) := by
  intro c d
  have hnonneg : 0 ≤ d := mul_nonneg h0 (Nat.cast_nonneg _)
  have hceil : ⌈c - d⌉ = current.toNat - ⌊d⌋ := ceil_natCast_sub _ d
  have hfloor : ⌊c + d⌋ = current.toNat + ⌊d⌋ := Int.floor_natCast_add _ d
  have hspans : ∀ j, -⌊d⌋ ≤ j → j ≤ ⌊d⌋ →
      Spans (picking factor current (current.toNat + j)) (share d j) :=
    fun j => spans_picking h0 h1.le rfl
  have hcount : ((⌊c + d⌋ : ℤ) : ℚ) - ⌈c - d⌉ + 1 = 2 * ⌊d⌋ + 1 := by
    rw [hceil, hfloor]
    push_cast
    ring
  rw [hcount, hceil, hfloor, ← share_eq_iff hnonneg]
  refine ⟨?_, ?_, ?_⟩
  · intro k hlow hhigh
    obtain ⟨j, rfl⟩ : ∃ j, k = current.toNat + j := ⟨k - current.toNat, by omega⟩
    have hone : (current.toNat : ℤ) - ⌊d⌋ = current.toNat + ⌊d⌋ ↔ ⌊d⌋ = 0 := by omega
    have hborder : (current.toNat : ℤ) + j = current.toNat - ⌊d⌋ ∨
        (current.toNat : ℤ) + j = current.toNat + ⌊d⌋ ↔ j = -⌊d⌋ ∨ j = ⌊d⌋ := by omega
    simp only [hone, hborder]
    exact hspans j (by omega) (by omega)
  · intro hequal j hlow hhigh
    exact (hspans j hlow hhigh).unique (hequal _ (by omega) (by omega))
  · intro hshare k hlow hhigh
    obtain ⟨j, rfl⟩ : ∃ j, k = current.toNat + j := ⟨k - current.toNat, by omega⟩
    rw [← hshare j (by omega) (by omega)]
    exact hspans j (by omega) (by omega)

/-- Between the borders of the third standard interval lie 1125 delays. The first and the last one
have one and a half times the share of each other. -/
theorem spans_picking_third_interval :
    let factor : Exact := ⟨1 / 2⟩
    (0 ≤ factor.value ∧ factor.value < 1) ∧ Spans (picking factor 1125 563) (3 / 2252) ∧
      Spans (picking factor 1125 564) (1 / 1126) ∧ Spans (picking factor 1125 1687) (3 / 2252) ∧
      ¬ ∀ k : ℤ, 563 ≤ k → k ≤ 1687 → Spans (picking factor 1125 k) (1 / 1125) := by
  intro factor
  have h0 : 0 ≤ factor.value := by norm_num [factor]
  have h1 : factor.value < 1 := by norm_num [factor]
  have hspread : factor.value * ((1125 : UInt32).toNat : ℚ) = 1125 / 2 := by decide +kernel
  have hfirst : ⌈((1125 : UInt32).toNat : ℚ) - 1125 / 2⌉ = 563 := by decide +kernel
  have hlast : ⌊((1125 : UInt32).toNat : ℚ) + 1125 / 2⌋ = 1687 := by decide +kernel
  have hfract : Int.fract (1125 / 2 : ℚ) = 1 / 2 := by decide +kernel
  obtain ⟨hspans, hequal⟩ := spans_picking_iff h0 h1 1125
  rw [hspread, hfirst, hlast, hfract] at hspans hequal
  refine ⟨⟨h0, h1⟩, ?_, ?_, ?_, ?_⟩
  · convert hspans 563 (by norm_num) (by norm_num) using 1
    norm_num
  · convert hspans 564 (by norm_num) (by norm_num) using 1
    norm_num
  · convert hspans 1687 (by norm_num) (by norm_num) using 1
    norm_num
  · intro hall
    have hcount : (1 : ℚ) / ((1687 : ℤ) - (563 : ℤ) + 1) = 1 / 1125 := by norm_num
    rw [hcount] at hequal
    exact absurd (hequal.mp hall) (by norm_num)

/-- A fifth of the unit interval is due to each of the five delays from 3 to 7, and the first of
them has a quarter, in which 0.21 lies. -/
theorem not_spans_picking_fifth :
    let factor : Exact := ⟨1 / 2⟩
    (0 ≤ factor.value ∧ factor.value < 1) ∧
      ⌈((5 : UInt32).toNat : ℚ) - factor.value * (5 : UInt32).toNat⌉ = 3 ∧
      ⌊((5 : UInt32).toNat : ℚ) + factor.value * (5 : UInt32).toNat⌋ = 7 ∧
      jitter? factor ⟨21 / 100⟩ 5 = some 3 ∧ Spans (picking factor 5 3) (1 / 4) ∧
      ¬ Spans (picking factor 5 3) (1 / (7 - 3 + 1)) := by
  intro factor
  have h0 : 0 ≤ factor.value := by norm_num [factor]
  have h1 : factor.value < 1 := by norm_num [factor]
  have hspread : factor.value * ((5 : UInt32).toNat : ℚ) = 5 / 2 := by decide +kernel
  have hshare : share (5 / 2) (-2) = 1 / 4 := by decide +kernel
  have hlow : -⌊(5 / 2 : ℚ)⌋ ≤ -2 := by decide +kernel
  have hhigh : -2 ≤ ⌊(5 / 2 : ℚ)⌋ := by decide +kernel
  have hspans : Spans (picking factor 5 3) (1 / 4) :=
    hshare ▸ spans_picking h0 h1.le hspread hlow hhigh
  refine ⟨⟨h0, h1⟩, by decide +kernel, by decide +kernel, by decide +kernel, hspans, ?_⟩
  intro hfifth
  exact absurd (hspans.unique hfifth) (by norm_num)

end HttpExchange.Backoff
