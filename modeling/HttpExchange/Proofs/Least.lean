import Mathlib.Order.Bounds.Basic
import Mathlib.Order.Nat

/-! # Least numbers

The least number with a property, from a start on: where it is, and what may change without moving
it. -/

namespace HttpExchange

theorem exists_isLeast_le {S : Set ℕ} (n : ℕ) (h : (∀ i < n, i ∉ S) → n ∈ S) :
    ∃ k ≤ n, IsLeast S k := by
  classical
  have hex : ∃ k, k ∈ S := by
    by_contra hnone
    exact hnone ⟨n, h fun i _ hi => hnone ⟨i, hi⟩⟩
  refine ⟨Nat.find hex, ?_, Nat.find_spec hex, fun i hi => Nat.find_min' hex hi⟩
  -- if none before `n` were in the set, `n` would be
  by_contra hlt
  exact hlt (Nat.find_min' hex (h fun i hi => Nat.find_min hex (hi.trans (not_le.mp hlt))))

/-- The least number stays least when nothing up to it changes. -/
theorem isLeast_congr_of_le {P Q : Nat → Prop} {start i : Nat}
    (h : IsLeast {j | start ≤ j ∧ P j} i) (hPQ : ∀ j ≤ i, Q j ↔ P j) :
    IsLeast {j | start ≤ j ∧ Q j} i := by
  rcases h with ⟨⟨hs, hi⟩, hleast⟩
  refine ⟨⟨hs, (hPQ i le_rfl).mpr hi⟩, ?_⟩
  rintro j ⟨hj, hq⟩
  by_contra hlt
  have hle : j ≤ i := by omega
  exact hlt (hleast ⟨hj, (hPQ j hle).mp hq⟩)

/-- Numbers without the property may be passed over. -/
theorem setOf_le_and_eq {P : Nat → Prop} {start resume : Nat} (hle : start ≤ resume)
    (h : ∀ j, start ≤ j → j < resume → ¬ P j) :
    {j | start ≤ j ∧ P j} = {j | resume ≤ j ∧ P j} := by
  ext j
  constructor
  · rintro ⟨hj, hp⟩
    exact ⟨not_lt.mp fun hlt => h j hj hlt hp, hp⟩
  · rintro ⟨hj, hp⟩
    exact ⟨hle.trans hj, hp⟩

/-- Counting from `start` shifts the least number. -/
theorem isLeast_from_iff {P : Nat → Prop} {start i : Nat} :
    IsLeast {j | start ≤ j ∧ P j} i ↔ ∃ k, IsLeast {j | P (j + start)} k ∧ k + start = i := by
  constructor
  · rintro ⟨⟨hs, hi⟩, hleast⟩
    have hback : i - start + start = i := by omega
    refine ⟨i - start, ⟨?_, ?_⟩, hback⟩
    · simpa only [Set.mem_ofPred_eq, hback] using hi
    · intro j hj
      have hle : i ≤ j + start := hleast ⟨by omega, hj⟩
      omega
  · rintro ⟨k, ⟨hk, hleast⟩, rfl⟩
    refine ⟨⟨by omega, hk⟩, ?_⟩
    rintro j ⟨hs, hj⟩
    have hback : j - start + start = j := by omega
    have hle : k ≤ j - start := hleast (by simpa only [Set.mem_ofPred_eq, hback] using hj)
    omega

/-- A search for the least number gives nothing only where nothing has the property. -/
theorem eq_none_iff_of_isLeast_iff {P : Nat → Prop} {start : Nat} {found : Option Nat}
    (h : ∀ i, found = some i ↔ IsLeast {j | start ≤ j ∧ P j} i) :
    found = none ↔ ∀ j, start ≤ j → ¬ P j := by
  classical
  constructor
  · intro hnone j hj hp
    have hex : ∃ j, start ≤ j ∧ P j := ⟨j, hj, hp⟩
    have hsome := (h _).mpr (Nat.isLeast_find hex)
    rw [hnone] at hsome
    cases hsome
  · intro hno
    rw [Option.eq_none_iff_forall_ne_some]
    intro i hi
    obtain ⟨⟨hs, hp⟩, -⟩ := (h i).mp hi
    exact hno i hs hp

end HttpExchange
