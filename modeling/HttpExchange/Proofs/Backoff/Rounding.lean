import HttpExchange.Backoff.Policy
import Mathlib.Data.Rat.Floor
import Mathlib.Tactic.Linarith

/-! # Arithmetic that rounds

An operation gives its exact rational result, rounded. How it rounds is left open but for two laws
that binary floating point keeps: the order of results stays, and whole numbers of up to 53 bits are
not changed. -/

namespace HttpExchange.Backoff

/-- A way to round that keeps the order, and the whole numbers of 53 bits. -/
structure Rounding where
  round : ℚ → ℚ
  monotone : Monotone round
  whole : ∀ z : ℤ, |z| ≤ 2 ^ 53 → round z = z

namespace Rounding

/-- No rounding at all. -/
def exact : Rounding := ⟨id, monotone_id, fun _ _ => rfl⟩

/-- Down to the next multiple of `2 ^ (-k)`. -/
def down (k : ℕ) : Rounding where
  round q := ⌊q * 2 ^ k⌋ / 2 ^ k
  monotone a b h := by
    have hscaled : a * 2 ^ k ≤ b * 2 ^ k := mul_le_mul_of_nonneg_right h (by positivity)
    exact div_le_div_of_nonneg_right (Int.cast_le.mpr (Int.floor_mono hscaled)) (by positivity)
  whole z _ := by
    have hfloor : ⌊(z : ℚ) * 2 ^ k⌋ = z * 2 ^ k := by
      rw [← Int.floor_intCast (R := ℚ) (z * 2 ^ k)]
      push_cast
      rfl
    rw [hfloor]
    push_cast
    exact mul_div_cancel_right₀ _ (by positivity)

variable (ρ : Rounding)

theorem round_natCast {n : ℕ} (h : n ≤ 2 ^ 53) : ρ.round n = n := by
  have habs : |(n : ℤ)| ≤ 2 ^ 53 := by
    rw [Nat.abs_cast]
    exact_mod_cast h
  exact_mod_cast ρ.whole n habs

theorem natCast_le_round {n : ℕ} {q : ℚ} (hn : n ≤ 2 ^ 53) (h : (n : ℚ) ≤ q) :
    (n : ℚ) ≤ ρ.round q := by
  rw [← ρ.round_natCast hn]
  exact ρ.monotone h

theorem round_nonneg {q : ℚ} (h : 0 ≤ q) : 0 ≤ ρ.round q := by
  simpa using ρ.natCast_le_round (n := 0) (Nat.zero_le _) (by simpa using h)

theorem round_le_natCast {n : ℕ} {q : ℚ} (hn : n ≤ 2 ^ 53) (h : q ≤ n) : ρ.round q ≤ n := by
  rw [← ρ.round_natCast hn]
  exact ρ.monotone h

end Rounding

/-- A number whose operations round. -/
structure Rounded (ρ : Rounding) where
  value : ℚ
  deriving DecidableEq

/-- A number whose operations are exact. -/
abbrev Exact := Rounded .exact

namespace Rounded

variable {ρ : Rounding}

instance : Arithmetic (Rounded ρ) where
  add a b := ⟨ρ.round (a.value + b.value)⟩
  sub a b := ⟨ρ.round (a.value - b.value)⟩
  mul a b := ⟨ρ.round (a.value * b.value)⟩
  ofWord n := ⟨n.toNat⟩
  -- the next whole number of a number at hand needs no rounding
  floor a := ⟨⌊a.value⌋⟩
  ceil a := ⟨⌈a.value⌉⟩
  le a b := decide (a.value ≤ b.value)
  lt a b := decide (a.value < b.value)
  isFinite _ := true
  toWord a := UInt64.ofNat (min ⌊a.value⌋₊ (2 ^ 64 - 1))

@[simp] theorem value_ofWord (n : UInt32) : (Arithmetic.ofWord n : Rounded ρ).value = n.toNat := rfl

@[simp] theorem isFinite_eq (a : Rounded ρ) : Arithmetic.isFinite a = true := rfl

@[simp] theorem le_iff {a b : Rounded ρ} : Arithmetic.le a b = true ↔ a.value ≤ b.value :=
  decide_eq_true_iff

@[simp] theorem lt_iff {a b : Rounded ρ} : Arithmetic.lt a b = true ↔ a.value < b.value :=
  decide_eq_true_iff

theorem toNat_toWord {a : Rounded ρ} (h : a.value < 2 ^ 64) :
    (Arithmetic.toWord a).toNat = ⌊a.value⌋₊ := by
  have hfloor : ⌊a.value⌋₊ < 2 ^ 64 := (Nat.floor_lt' (by decide)).mpr (by exact_mod_cast h)
  have hmin : min ⌊a.value⌋₊ (2 ^ 64 - 1) = ⌊a.value⌋₊ := Nat.min_eq_left (Nat.le_pred_of_lt hfloor)
  have hword : Arithmetic.toWord a = UInt64.ofNat (min ⌊a.value⌋₊ (2 ^ 64 - 1)) := rfl
  rw [hword, hmin, UInt64.toNat_ofNat', Nat.mod_eq_of_lt hfloor]

end Rounded

end HttpExchange.Backoff
