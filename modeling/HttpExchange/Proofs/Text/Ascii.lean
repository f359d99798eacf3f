import HttpExchange.Proofs.Lists
import HttpExchange.Text.Utf8

/-! # ASCII among the octets of a text

The octets of other characters are all past ASCII, so a mark of ASCII is found in the octets of a
text exactly where it stands in the text. -/

namespace HttpExchange.Utf8

theorem encode_append (s t : Text) : encode (s ++ t) = encode s ++ encode t :=
  List.flatMap_append

theorem encode_cons (c : Char) (s : Text) : encode (c :: s) = encodeScalar c.toNat ++ encode s :=
  List.flatMap_cons

theorem encode_flatMap {α : Type} (f : α → Text) (as : List α) :
    encode (as.flatMap f) = as.flatMap fun a => encode (f a) :=
  List.flatMap_assoc

theorem encodeScalar_of_lt {n : Nat} (h : n < 0x80) : encodeScalar n = [UInt8.ofNat n] :=
  if_pos h

theorem le_of_mem_encodeScalar {c : Char} {b : UInt8} (hc : 0x80 ≤ c.toNat)
    (h : b ∈ encodeScalar c.toNat) : 0x80 ≤ b.toNat := by
  have hbound := toNat_lt c
  have past : ∀ {n}, 0x80 ≤ n → n < 256 → 0x80 ≤ (UInt8.ofNat n).toNat := by
    intro n hn hlt
    rwa [toNat_ofNat_of_lt hlt]
  rw [encodeScalar, if_neg (by omega)] at h
  split_ifs at h
  · simp only [List.mem_cons, List.not_mem_nil, or_false] at h
    rcases h with rfl | rfl <;> exact past (by omega) (by omega)
  · simp only [List.mem_cons, List.not_mem_nil, or_false] at h
    rcases h with rfl | rfl | rfl <;> exact past (by omega) (by omega)
  · simp only [List.mem_cons, List.not_mem_nil, or_false] at h
    rcases h with rfl | rfl | rfl | rfl <;> exact past (by omega) (by omega)

/-- Octets that begin with the octets of a text encode a text that begins with it. -/
theorem prefix_of_encode {p s : Text} (h : encode p <+: encode s) : p <+: s := by
  induction p generalizing s with
  | nil => exact List.nil_prefix
  | cons c p ih =>
      obtain ⟨rest, hrest⟩ := h
      have hread : (decode? (encode p ++ rest)).map (c :: ·) = some s := by
        rw [← decode?_encodeScalar_append, ← List.append_assoc, ← encode_cons, hrest,
          decode?_encode]
      obtain ⟨t, ht, rfl⟩ := Option.map_eq_some_iff.mp hread
      rw [List.prefix_cons_inj]
      exact ih ⟨rest, (decode?_eq_some_iff.mp ht).symm⟩

/-- What begins with a character of ASCII and lies in the octets of a text lies in the text. -/
theorem infix_of_encode {c : Char} {p s : Text} (hc : c.toNat < 0x80)
    (h : encode (c :: p) <:+: encode s) : c :: p <:+: s := by
  have hp : encode (c :: p) = UInt8.ofNat c.toNat :: encode p := by
    rw [encode_cons, encodeScalar_of_lt hc, List.singleton_append]
  induction s with
  | nil =>
      rw [hp] at h
      exact absurd (List.eq_nil_of_infix_nil h) nofun
  | cons d s ih =>
      by_cases hd : d.toNat < 0x80
      · have hs : encode (d :: s) = UInt8.ofNat d.toNat :: encode s := by
          rw [encode_cons, encodeScalar_of_lt hd, List.singleton_append]
        have hstep := h
        rw [hs, List.infix_cons_iff, ← hs] at hstep
        rcases hstep with hstep | hstep
        · exact (prefix_of_encode hstep).isInfix
        · exact List.infix_cons (ih hstep)
      · -- no octet of `d` is in ASCII, so nothing begins in it
        have hlead : UInt8.ofNat c.toNat ∉ encodeScalar d.toNat := by
          intro hmem
          have hle := le_of_mem_encodeScalar (Nat.le_of_not_lt hd) hmem
          rw [toNat_ofNat_of_lt (by omega)] at hle
          omega
        rw [encode_cons d, hp] at h
        apply List.infix_cons
        apply ih
        rw [hp]
        exact infix_of_not_mem hlead h

theorem mem_of_mem_encode {c : Char} {s : Text} (hc : c.toNat < 0x80)
    (h : UInt8.ofNat c.toNat ∈ encode s) : c ∈ s := by
  apply List.singleton_infix_iff _ _ |>.mp
  apply infix_of_encode hc
  rw [encode_cons, encodeScalar_of_lt hc]
  exact (List.singleton_infix_iff _ _).mpr h

theorem ofNat_mem_encode_iff {c : Char} {s : Text} (hc : c.toNat < 0x80) :
    UInt8.ofNat c.toNat ∈ encode s ↔ c ∈ s := by
  constructor
  · exact mem_of_mem_encode hc
  · intro h
    apply List.mem_flatMap.mpr
    refine ⟨c, h, ?_⟩
    rw [encodeScalar_of_lt hc]
    exact List.mem_cons_self

theorem lt_of_mem_encode {s : Text} {b : UInt8} (h : (s.all fun c => c.toNat < 0x80) = true)
    (hb : b ∈ encode s) : b.toNat < 0x80 := by
  obtain ⟨c, hc, hb⟩ := List.mem_flatMap.mp hb
  have hlt : c.toNat < 0x80 := of_decide_eq_true (List.all_eq_true.mp h c hc)
  rw [encodeScalar_of_lt hlt, List.mem_singleton] at hb
  rwa [hb, toNat_ofNat_of_lt (by omega)]

theorem encodeScalar_ne_nil (n : Nat) : encodeScalar n ≠ [] := by
  unfold encodeScalar
  split_ifs <;> exact List.cons_ne_nil _ _

/-- A class of ASCII characters holds all characters of a text exactly if the class of their octets
holds all octets of it: the octets of any other character are in no such class. -/
theorem forall_mem_encode_iff {p : Char → Bool} {q : UInt8 → Prop} (s : Text)
    (hp : ∀ c, p c = true → c.toNat < 0x80) (hq : ∀ b, q b → b.toNat < 0x80)
    (hpq : ∀ c : Char, c.toNat < 0x80 → (q (UInt8.ofNat c.toNat) ↔ p c = true)) :
    (∀ b ∈ encode s, q b) ↔ s.all p = true := by
  induction s with
  | nil => simp [encode]
  | cons c s ih =>
      have hhead : (∀ b ∈ encodeScalar c.toNat, q b) ↔ p c = true := by
        by_cases hc : c.toNat < 0x80
        · simp [encodeScalar_of_lt hc, hpq c hc]
        · constructor
          · intro h
            obtain ⟨b, hb⟩ := List.exists_mem_of_ne_nil _ (encodeScalar_ne_nil c.toNat)
            have hpast := le_of_mem_encodeScalar (Nat.le_of_not_lt hc) hb
            exact absurd (hq b (h b hb)) (Nat.not_lt.mpr hpast)
          · intro h
            exact absurd (hp c h) hc
      rw [encode_cons, List.forall_mem_append, hhead, ih, List.all_cons, Bool.and_eq_true]

end HttpExchange.Utf8
