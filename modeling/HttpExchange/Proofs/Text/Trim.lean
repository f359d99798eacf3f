import HttpExchange.Text.Blank
import Mathlib.Data.List.Infix

/-! # Texts without blanks at their ends

A text is its own trim exactly when it neither begins nor ends with a blank. -/

namespace HttpExchange.Text

theorem trimEnd_eq_self_iff {s : Text} :
    s.trimEnd = s ↔ ∀ c ∈ s.getLast?, isBlank c = false := by
  rw [← List.reverse_inj, reverse_trimEnd, trimStart_eq_self_iff, List.head?_reverse]

theorem trimStart_suffix_self (s : Text) : s.trimStart <:+ s := List.dropWhile_suffix isBlank

theorem trimEnd_prefix_self (s : Text) : s.trimEnd <+: s := by
  rw [← List.reverse_suffix, reverse_trimEnd]
  exact trimStart_suffix_self s.reverse

theorem mem_of_mem_trim {s : Text} {c : Char} (h : c ∈ s.trim) : c ∈ s :=
  (trimStart_suffix_self s).subset ((trimEnd_prefix_self s.trimStart).subset h)

theorem trim_eq_self_iff {s : Text} :
    s.trim = s ↔ (∀ c ∈ s.head?, isBlank c = false) ∧ ∀ c ∈ s.getLast?, isBlank c = false := by
  rw [← trimStart_eq_self_iff, ← trimEnd_eq_self_iff]
  constructor
  · intro h
    have hstart : s.trimStart = s := by
      apply (trimStart_suffix_self s).eq_of_length_le
      have hle := (trimEnd_prefix_self s.trimStart).length_le
      change s.trim.length ≤ _ at hle
      rwa [h] at hle
    refine ⟨hstart, ?_⟩
    rwa [trim, hstart] at h
  · rintro ⟨hstart, hend⟩
    rw [trim, hstart, hend]

@[simp] theorem trim_trim (s : Text) : s.trim.trim = s.trim := by
  have hend : s.trim.trimEnd = s.trim := trimEnd_trimEnd s.trimStart
  rw [trim_eq_self_iff, ← trimEnd_eq_self_iff]
  refine ⟨?_, hend⟩
  intro c hc
  obtain ⟨rest, hrest⟩ := trimEnd_prefix_self s.trimStart
  have hhead : c ∈ s.trimStart.head? := by
    rw [← hrest, List.head?_append]
    change c ∈ s.trim.head?.or _
    simp [Option.mem_def.mp hc]
  exact trimStart_eq_self_iff.mp (trimStart_trimStart s) c hhead

theorem trim_eq_self_of_forall {s : Text} (h : ∀ c ∈ s, isBlank c = false) : s.trim = s := by
  rw [trim_eq_self_iff]
  exact ⟨fun c hc => h c (List.mem_of_mem_head? hc), fun c hc => h c (List.mem_of_getLast? hc)⟩

theorem trim_cons_of_isBlank {c : Char} (h : isBlank c = true) (s : Text) :
    trim (c :: s) = s.trim := by
  simp [trim, trimStart, h]

/-- A mark that is no blank keeps the ends of the parts around it. -/
theorem trim_append_cons {front back : Text} {c : Char} (hfront : front.trim = front)
    (hc : isBlank c = false) (hback : back.trim = back) :
    (front ++ c :: back).trim = front ++ c :: back := by
  rw [trim_eq_self_iff] at hfront hback ⊢
  constructor
  · intro d hd
    cases front with
    | nil => simp_all
    | cons e front => exact hfront.1 d (by simpa using hd)
  · intro d hd
    cases hlast : back.getLast? with
    | none => simp_all
    | some e =>
        apply hback.2 d
        simpa [List.getLast?_append, List.getLast?_cons, hlast] using hd

/-! ## Visible characters -/

/-- The characters of ASCII that can be seen. -/
def Visible (c : Char) : Prop := 0x20 < c.toNat ∧ c.toNat < 0x7F

instance (c : Char) : Decidable (Visible c) := inferInstanceAs (Decidable (_ ∧ _))

theorem Visible.isBlank {c : Char} (h : Visible c) : isBlank c = false := by
  unfold Visible at h
  simp only [Text.isBlank, Bool.or_eq_false_iff, Bool.and_eq_false_iff, decide_eq_false_iff_not,
    beq_eq_false_iff_ne]
  omega

theorem isAlphanum_iff (c : Char) :
    c.isAlphanum = true ↔ (0x30 ≤ c.toNat ∧ c.toNat ≤ 0x39) ∨ (0x41 ≤ c.toNat ∧ c.toNat ≤ 0x5A) ∨
      (0x61 ≤ c.toNat ∧ c.toNat ≤ 0x7A) := by
  change (decide (c.val ≥ 'A'.val ∧ c.val ≤ 'Z'.val) ||
    (decide (c.val ≥ 'a'.val) && decide (c.val ≤ 'z'.val)) ||
    (decide (c.val ≥ '0'.val) && decide (c.val ≤ '9'.val))) = true ↔ _
  simp only [Bool.or_eq_true, Bool.and_eq_true, decide_eq_true_eq]
  change ((0x41 ≤ c.toNat ∧ c.toNat ≤ 0x5A) ∨ (0x61 ≤ c.toNat ∧ c.toNat ≤ 0x7A)) ∨
    (0x30 ≤ c.toNat ∧ c.toNat ≤ 0x39) ↔ _
  omega

theorem visible_of_isAlphanum {c : Char} (h : c.isAlphanum = true) : Visible c := by
  rw [isAlphanum_iff] at h
  unfold Visible
  omega

theorem trim_eq_self_of_visible {s : Text} (h : ∀ c ∈ s, Visible c) : s.trim = s :=
  trim_eq_self_of_forall fun c hc => (h c hc).isBlank

end HttpExchange.Text
