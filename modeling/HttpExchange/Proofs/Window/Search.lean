import HttpExchange.Http.Window
import HttpExchange.Proofs.Least

/-! # Searches of a window

A search gives the least offset from its start on at which something holds. What it found stays
where it was when more octets enter, and a search that found nothing need not look again at the
offsets it has ruled out. -/

namespace HttpExchange.Window

/-- The needle lies in the octets at this offset. -/
def Occurs (needle octets : Bytes) (i : Nat) : Prop := needle <+: octets.drop i

instance (needle octets : Bytes) (i : Nat) : Decidable (Occurs needle octets i) :=
  inferInstanceAs (Decidable (needle <+: octets.drop i))

/-- The octet at this offset satisfies `p`. -/
def HoldsAt (p : UInt8 → Bool) (octets : Bytes) (i : Nat) : Prop :=
  ∃ b, octets[i]? = some b ∧ p b = true

/-! ## Offsets at which something holds -/

theorem Occurs.add_length_le {needle octets : Bytes} {i : Nat} (h : Occurs needle octets i)
    (hn : needle ≠ []) : i + needle.length ≤ octets.length := by
  have hlen := h.length_le
  have hpos : 0 < needle.length := List.length_pos_iff.mpr hn
  rw [List.length_drop] at hlen
  omega

theorem occurs_append_iff {needle octets : Bytes} {i : Nat} (more : Bytes)
    (h : i + needle.length ≤ octets.length) :
    Occurs needle (octets ++ more) i ↔ Occurs needle octets i := by
  unfold Occurs
  rw [List.drop_append_of_le_length (by omega)]
  apply prefix_append_iff
  rw [List.length_drop]
  omega

theorem HoldsAt.lt_length {p : UInt8 → Bool} {octets : Bytes} {i : Nat}
    (h : HoldsAt p octets i) : i < octets.length := by
  rcases h with ⟨b, hb, -⟩
  exact (List.getElem?_eq_some_iff.mp hb).1

theorem holdsAt_append_iff {p : UInt8 → Bool} {octets : Bytes} {i : Nat} (more : Bytes)
    (h : i < octets.length) : HoldsAt p (octets ++ more) i ↔ HoldsAt p octets i := by
  unfold HoldsAt
  rw [List.getElem?_append_left h]

/-! ## The search for a needle -/

theorem occurrence?_eq_some_iff {needle octets : Bytes} {i : Nat} (hn : needle ≠ []) :
    occurrence? needle octets = some i ↔ IsLeast {j | Occurs needle octets j} i := by
  induction octets generalizing i with
  | nil =>
      simp only [occurrence?, reduceCtorEq, false_iff]
      rintro ⟨hi, -⟩
      have hle := Occurs.add_length_le hi hn
      have hpos : 0 < needle.length := List.length_pos_iff.mpr hn
      simp only [List.length_nil] at hle
      omega
  | cons b rest ih =>
      rw [occurrence?]
      split
      · rename_i hp
        have hzero : IsLeast {j | Occurs needle (b :: rest) j} 0 :=
          ⟨List.isPrefixOf_iff_prefix.mp hp, fun j _ => Nat.zero_le j⟩
        rw [Option.some.injEq]
        exact ⟨fun h => h ▸ hzero, hzero.unique⟩
      · rename_i hp
        have hskip : {j | 0 ≤ j ∧ Occurs needle (b :: rest) j} =
            {j | 1 ≤ j ∧ Occurs needle (b :: rest) j} := by
          apply setOf_le_and_eq (Nat.zero_le 1)
          intro j _ hj ho
          obtain rfl : j = 0 := by omega
          exact hp (List.isPrefixOf_iff_prefix.mpr ho)
        simp only [Nat.zero_le, true_and] at hskip
        rw [hskip, isLeast_from_iff]
        simp only [Option.map_eq_some_iff, ih]
        rfl

theorem find?_eq_some_iff {w : Window} {needle : Bytes} {start i : Nat} (hn : needle ≠ []) :
    w.find? needle start = some i ↔ IsLeast {j | start ≤ j ∧ Occurs needle w.toList j} i := by
  have hdrop : ∀ j, Occurs needle (w.toList.drop start) j ↔ Occurs needle w.toList (j + start) := by
    intro j
    simp only [Occurs, List.drop_drop, Nat.add_comm start j]
  rw [find?, if_neg (by simpa using hn), isLeast_from_iff]
  simp only [Option.map_eq_some_iff, occurrence?_eq_some_iff hn, hdrop]

theorem find?_eq_none_iff {w : Window} {needle : Bytes} {start : Nat} (hn : needle ≠ []) :
    w.find? needle start = none ↔ ∀ j, start ≤ j → ¬ Occurs needle w.toList j :=
  eq_none_iff_of_isLeast_iff fun _ => find?_eq_some_iff hn

/-- What was found stays found when more octets enter. -/
theorem find?_extend_of_eq_some {w : Window} {needle : Bytes} {start i : Nat} (more : Bytes)
    (hn : needle ≠ []) (h : w.find? needle start = some i) :
    (w.extend more).find? needle start = some i := by
  rw [find?_eq_some_iff hn] at h ⊢
  have hend := h.1.2.add_length_le hn
  apply isLeast_congr_of_le h
  intro j hj
  exact occurs_append_iff more (by omega)

/-- A search that found nothing resumes where a needle may lie across the border. -/
theorem find?_extend_of_eq_none {w : Window} {needle : Bytes} {start : Nat} (more : Bytes)
    (hn : needle ≠ []) (h : w.find? needle start = none)
    (hs : start ≤ w.length - (needle.length - 1)) :
    (w.extend more).find? needle (w.length - (needle.length - 1)) =
      (w.extend more).find? needle start := by
  rw [find?_eq_none_iff hn] at h
  apply Option.ext
  intro i
  rw [find?_eq_some_iff hn, find?_eq_some_iff hn, ← setOf_le_and_eq hs]
  intro j hj hlt ho
  have hpos : 0 < needle.length := List.length_pos_iff.mpr hn
  have hfits : j + needle.length ≤ w.toList.length := by
    simp only [length] at hlt
    omega
  exact h j hj ((occurs_append_iff more hfits).mp ho)

/-- A search of the whole window cuts it at the first needle. -/
theorem find?_zero_eq_some_iff {w : Window} {needle : Bytes} {stop : Nat} (hn : needle ≠ []) :
    w.find? needle 0 = some stop ↔
      ∃ front rest, w.toList = front ++ needle ++ rest ∧ front.length = stop ∧
        ∀ i < front.length, ¬ Occurs needle (front ++ needle) i := by
  rw [find?_eq_some_iff hn]
  constructor
  · intro h
    rcases h with ⟨⟨-, rest, hrest⟩, hleast⟩
    have hlength : (w.toList.take stop).length = stop := by
      have hle := Occurs.add_length_le ⟨rest, hrest⟩ hn
      rw [List.length_take]
      omega
    have hcut : w.toList = w.toList.take stop ++ needle ++ rest := by
      rw [List.append_assoc, hrest, List.take_append_drop]
    refine ⟨w.toList.take stop, rest, hcut, hlength, ?_⟩
    intro i hi ho
    have hle : stop ≤ i := by
      refine hleast ⟨Nat.zero_le i, ?_⟩
      rw [hcut]
      apply (occurs_append_iff rest (ho.add_length_le hn)).mpr
      exact ho
    omega
  · intro h
    rcases h with ⟨front, rest, hcut, rfl, hfirst⟩
    rw [hcut]
    refine ⟨⟨Nat.zero_le _, ?_⟩, ?_⟩
    · rw [Occurs, List.append_assoc, List.drop_left]
      exact List.prefix_append needle rest
    · intro i hi
      by_contra hlt
      have hfits : i + needle.length ≤ (front ++ needle).length := by
        rw [List.length_append]
        omega
      exact hfirst i (not_le.mp hlt) ((occurs_append_iff rest hfits).mp hi.2)

/-! ## The search for a kind of octet -/

theorem holdsAt_iff_getElem {p : UInt8 → Bool} {octets : Bytes} {i : Nat} :
    HoldsAt p octets i ↔ ∃ h : i < octets.length, p octets[i] = true := by
  constructor
  · rintro ⟨b, hb, hp⟩
    obtain ⟨hi, rfl⟩ := List.getElem?_eq_some_iff.mp hb
    exact ⟨hi, hp⟩
  · rintro ⟨hi, hp⟩
    exact ⟨octets[i], List.getElem?_eq_getElem hi, hp⟩

theorem findIdx?_eq_some_iff_isLeast {p : UInt8 → Bool} {octets : Bytes} {i : Nat} :
    octets.findIdx? p = some i ↔ IsLeast {j | HoldsAt p octets j} i := by
  rw [List.findIdx?_eq_some_iff_getElem]
  constructor
  · rintro ⟨hi, hp, hbefore⟩
    refine ⟨holdsAt_iff_getElem.mpr ⟨hi, hp⟩, ?_⟩
    intro j hj
    obtain ⟨_, hpj⟩ := holdsAt_iff_getElem.mp hj
    exact not_lt.mp fun hlt => hbefore j hlt hpj
  · rintro ⟨hi, hleast⟩
    obtain ⟨hlt, hp⟩ := holdsAt_iff_getElem.mp hi
    refine ⟨hlt, hp, ?_⟩
    intro j hj hpj
    exact absurd (hleast (holdsAt_iff_getElem.mpr ⟨hj.trans hlt, hpj⟩)) (by omega)

theorem findWhere?_eq_some_iff {w : Window} {p : UInt8 → Bool} {start i : Nat} :
    w.findWhere? p start = some i ↔ IsLeast {j | start ≤ j ∧ HoldsAt p w.toList j} i := by
  have hdrop : ∀ j, HoldsAt p (w.toList.drop start) j ↔ HoldsAt p w.toList (j + start) := by
    intro j
    simp only [HoldsAt, List.getElem?_drop, Nat.add_comm start j]
  rw [findWhere?, isLeast_from_iff]
  simp only [Option.map_eq_some_iff, findIdx?_eq_some_iff_isLeast, hdrop]

theorem findWhere?_eq_none_iff {w : Window} {p : UInt8 → Bool} {start : Nat} :
    w.findWhere? p start = none ↔ ∀ j, start ≤ j → ¬ HoldsAt p w.toList j :=
  eq_none_iff_of_isLeast_iff fun _ => findWhere?_eq_some_iff

theorem findWhere?_extend_of_eq_some {w : Window} {p : UInt8 → Bool} {start i : Nat}
    (more : Bytes) (h : w.findWhere? p start = some i) :
    (w.extend more).findWhere? p start = some i := by
  rw [findWhere?_eq_some_iff] at h ⊢
  have hlt := h.1.2.lt_length
  apply isLeast_congr_of_le h
  intro j hj
  exact holdsAt_append_iff more (by omega)

/-- A search that found nothing resumes at the first octet it has not seen. -/
theorem findWhere?_extend_of_eq_none {w : Window} {p : UInt8 → Bool} {start : Nat}
    (more : Bytes) (h : w.findWhere? p start = none) (hs : start ≤ w.length) :
    (w.extend more).findWhere? p w.length = (w.extend more).findWhere? p start := by
  rw [findWhere?_eq_none_iff] at h
  apply Option.ext
  intro i
  rw [findWhere?_eq_some_iff, findWhere?_eq_some_iff, ← setOf_le_and_eq hs]
  intro j hj hlt hp
  exact h j hj ((holdsAt_append_iff more hlt).mp hp)

/-- A search of the whole window cuts it at the first octet of the kind. -/
theorem findWhere?_zero_eq_some_iff {w : Window} {p : UInt8 → Bool} {stop : Nat} :
    w.findWhere? p 0 = some stop ↔
      ∃ front b rest, w.toList = front ++ b :: rest ∧ front.length = stop ∧ p b = true ∧
        ∀ c ∈ front, p c = false := by
  rw [findWhere?_eq_some_iff]
  constructor
  · intro h
    rcases h with ⟨⟨-, b, hb, hp⟩, hleast⟩
    obtain ⟨hlt, rfl⟩ := List.getElem?_eq_some_iff.mp hb
    have hcut : w.toList = w.toList.take stop ++ w.toList[stop] :: w.toList.drop (stop + 1) := by
      rw [← List.drop_eq_getElem_cons hlt, List.take_append_drop]
    refine ⟨_, _, _, hcut, List.length_take_of_le hlt.le, hp, ?_⟩
    intro c hc
    obtain ⟨i, hi, rfl⟩ := List.mem_take_iff_getElem.mp hc
    by_contra hpc
    have hle : stop ≤ i :=
      hleast ⟨Nat.zero_le i, holdsAt_iff_getElem.mpr ⟨by omega, by simpa using hpc⟩⟩
    omega
  · intro h
    rcases h with ⟨front, b, rest, hcut, rfl, hp, hfront⟩
    rw [hcut]
    refine ⟨⟨Nat.zero_le _, b, by simp, hp⟩, ?_⟩
    intro i hi
    by_contra hlt
    obtain ⟨c, hc, hpc⟩ := hi.2
    rw [List.getElem?_append_left (not_le.mp hlt)] at hc
    rw [hfront c (List.mem_of_getElem? hc)] at hpc
    cases hpc

end HttpExchange.Window
