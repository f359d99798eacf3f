import HttpExchange.Calendar.Instant
import Mathlib.Order.Bounds.Defs
import Mathlib.Tactic.SplitIfs

/-! # The seconds that remain

The seconds until a point of time are rounded up, but what is left of a millisecond is cut off
before. So they are the least number of seconds after which the point has come, except before a
point that is less than a millisecond past whole seconds away: there they are one too few. -/

namespace HttpExchange.Instant

variable {t now : Instant}

/-! ## Rounding up behind a cut -/

/-- A cut toward zero takes less than a unit away, below zero from the other side. -/
theorem tdiv_mem {x unit : Int} (hunit : 0 < unit) :
    (0 ≤ x → unit * x.tdiv unit ≤ x ∧ x < unit * x.tdiv unit + unit) ∧
      (x ≤ 0 → x ≤ unit * x.tdiv unit ∧ unit * x.tdiv unit < x + unit) := by
  have hcut : ∀ y : Int, 0 ≤ y → unit * y.tdiv unit ≤ y ∧ y < unit * y.tdiv unit + unit := by
    intro y hy
    rw [Int.tdiv_eq_ediv_of_nonneg hy]
    exact ⟨Int.mul_ediv_self_le (Int.ne_of_gt hunit), Int.lt_mul_ediv_self_add hunit⟩
  refine ⟨hcut x, ?_⟩
  intro hx
  have h := hcut (-x) (by omega)
  rw [Int.neg_tdiv, Int.mul_neg] at h
  omega

/-- The whole seconds of a span are the least number that is not below it. -/
theorem isLeast_seconds_iff {span n : Int} :
    IsLeast {m : Int | span ≤ m * 1000000000} n ↔
      span ≤ n * 1000000000 ∧ (n - 1) * 1000000000 < span := by
  constructor
  · rintro ⟨hmem, hleast⟩
    refine ⟨hmem, Int.not_le.mp fun hle => ?_⟩
    have := hleast hle
    omega
  · rintro ⟨hmem, hbefore⟩
    refine ⟨hmem, ?_⟩
    intro m hm
    have hm : span ≤ m * 1000000000 := hm
    omega

/-! ## Whether a point of time has come -/

/-- The point of time has come `n` seconds after `now`: it is not further away than that. -/
def Reached (t now : Instant) (n : Int) : Prop := nanosBetween t now ≤ n * 1000000000

instance (t now : Instant) (n : Int) : Decidable (Reached t now n) :=
  inferInstanceAs (Decidable (_ ≤ _))

theorem leapBetween_eq_zero (ht : t.isLeap = false) (hnow : now.isLeap = false) :
    leapBetween t now = 0 := by
  simp [leapBetween, ht, hnow]

/-- Apart from leap seconds, the count of `now` is `n` seconds on and not before that of the point
of time. -/
theorem reached_iff (ht : t.isLeap = false) (hnow : now.isLeap = false) (n : Int) :
    Reached t now n ↔
      t.seconds < now.seconds + n ∨ t.seconds = now.seconds + n ∧ t.nanos ≤ now.nanos := by
  have hnanos : t.nanos < 1000000000 := by simpa [isLeap] using ht
  have hnanos' : now.nanos < 1000000000 := by simpa [isLeap] using hnow
  rw [Reached, nanosBetween, leapBetween_eq_zero ht hnow]
  omega

/-- What is left over whole seconds until the point of time is less than a millisecond. -/
def Clipped (t now : Instant) : Prop :=
  0 < nanosBetween t now ∧ 0 < nanosBetween t now % 1000000000 ∧
    nanosBetween t now % 1000000000 < 1000000

instance (t now : Instant) : Decidable (Clipped t now) := inferInstanceAs (Decidable (_ ∧ _))

/-- For a point at a whole second, `now` is in the last millisecond of a second before it. -/
theorem clipped_iff (hnanos : t.nanos = 0) (hnow : now.isLeap = false) :
    Clipped t now ↔ now.seconds < t.seconds ∧ 999000000 < now.nanos := by
  have ht : t.isLeap = false := by simp [isLeap, hnanos]
  have hnanos' : now.nanos < 1000000000 := by simpa [isLeap] using hnow
  rw [Clipped, nanosBetween, leapBetween_eq_zero ht hnow]
  omega

/-! ## What the rounding gives -/

theorem secondsUntil_mem (t now : Instant) :
    (Clipped t now → (secondsUntil t now) * 1000000000 < nanosBetween t now ∧
        nanosBetween t now ≤ (secondsUntil t now + 1) * 1000000000) ∧
      (¬Clipped t now → (secondsUntil t now - 1) * 1000000000 < nanosBetween t now ∧
        nanosBetween t now ≤ secondsUntil t now * 1000000000) := by
  obtain ⟨hpos, hneg⟩ := tdiv_mem (x := nanosBetween t now) (by decide : (0 : Int) < 1000000)
  unfold Clipped
  dsimp only [secondsUntil, millisBetween]
  split_ifs with hwhole
  · constructor <;> omega
  · constructor <;> omega

/-- The seconds that remain are the least number after which the point of time has come, unless the
cut loses what is left over whole seconds. -/
theorem isLeast_secondsUntil_iff (t now : Instant) :
    IsLeast {n : Int | Reached t now n} (secondsUntil t now) ↔ ¬Clipped t now := by
  refine isLeast_seconds_iff.trans ?_
  obtain ⟨hclipped, hmet⟩ := secondsUntil_mem t now
  constructor
  · rintro ⟨hle, -⟩ h
    have := (hclipped h).1
    omega
  · intro h
    exact (hmet h).symm

/-- If the cut loses it, one second is missing. -/
theorem Clipped.isLeast (h : Clipped t now) :
    IsLeast {n : Int | Reached t now n} (secondsUntil t now + 1) := by
  obtain ⟨hlt, hle⟩ := (secondsUntil_mem t now).1 h
  exact isLeast_seconds_iff.mpr ⟨hle, by omega⟩

/-- No two points of time are further apart than a word of 64 bits counts. -/
theorem toInt_ofInt_secondsUntil (t now : Instant) :
    (Int64.ofInt (secondsUntil t now)).toInt = secondsUntil t now := by
  have hleap : -1 ≤ leapBetween t now ∧ leapBetween t now ≤ 1 := by
    unfold leapBetween
    split_ifs <;> decide
  have hbounds : -20000000000000 * 1000000000 ≤ nanosBetween t now ∧
      nanosBetween t now ≤ 20000000000000 * 1000000000 := by
    have := t.first_le
    have := t.le_last
    have := t.nanos_lt
    have := now.first_le
    have := now.le_last
    have := now.nanos_lt
    unfold nanosBetween
    omega
  have hround : (secondsUntil t now - 1) * 1000000000 < nanosBetween t now ∧
      nanosBetween t now ≤ (secondsUntil t now + 1) * 1000000000 := by
    obtain ⟨hclipped, hmet⟩ := secondsUntil_mem t now
    by_cases h : Clipped t now
    · have := hclipped h
      omega
    · have := hmet h
      omega
  exact Int64.toInt_ofInt_of_le (by omega) (by omega)

end HttpExchange.Instant
