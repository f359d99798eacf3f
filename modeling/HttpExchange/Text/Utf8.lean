import HttpExchange.Text.Basic

/-! # UTF-8

`encode` writes every scalar value in its one form and `decode?` accepts those forms only, so
overlong forms, surrogates, values past U+10FFFF and cut sequences are refused. Main statement:
`decode?_eq_some_iff`, decoding and encoding are inverse to each other. -/

namespace HttpExchange.Utf8

/-- The octets of the scalar value `n`. -/
def encodeScalar (n : Nat) : Bytes :=
  if n < 0x80 then [UInt8.ofNat n]
  else if n < 0x800 then [UInt8.ofNat (0xC0 + n / 64), UInt8.ofNat (0x80 + n % 64)]
  else if n < 0x10000 then
    [UInt8.ofNat (0xE0 + n / 4096), UInt8.ofNat (0x80 + n / 64 % 64), UInt8.ofNat (0x80 + n % 64)]
  else
    [UInt8.ofNat (0xF0 + n / 262144), UInt8.ofNat (0x80 + n / 4096 % 64),
      UInt8.ofNat (0x80 + n / 64 % 64), UInt8.ofNat (0x80 + n % 64)]

def encode (s : Text) : Bytes := s.flatMap fun c => encodeScalar c.toNat

/-- Six payload bits of a continuation octet. -/
def tail? (b : UInt8) : Option Nat :=
  if 0x80 ≤ b.toNat ∧ b.toNat < 0xC0 then some (b.toNat - 0x80) else none

/-- The scalar value `n`, unless a form of fewer octets holds it or it is a surrogate. -/
def scalar? (least n : Nat) : Option Char :=
  if h : least ≤ n ∧ n.isValidChar then some (Char.ofNatAux n h.2) else none

def two? (a b : UInt8) : Option Char := do
  scalar? 0x80 ((a.toNat - 0xC0) * 64 + (← tail? b))

def three? (a b c : UInt8) : Option Char := do
  scalar? 0x800 (((a.toNat - 0xE0) * 64 + (← tail? b)) * 64 + (← tail? c))

def four? (a b c d : UInt8) : Option Char := do
  scalar? 0x10000
    ((((a.toNat - 0xF0) * 64 + (← tail? b)) * 64 + (← tail? c)) * 64 + (← tail? d))

/-- The text that the octets encode. The first octet of a form tells its length. -/
def decode? : Bytes → Option Text
  | [] => some []
  | a :: r =>
    if a.toNat < 0x80 then do
      return (← scalar? 0 a.toNat) :: (← decode? r)
    else match r with
      | [] => none
      | b :: r =>
        if a.toNat < 0xC0 then none
        else if a.toNat < 0xE0 then do
          return (← two? a b) :: (← decode? r)
        else match r with
          | [] => none
          | c :: r =>
            if a.toNat < 0xF0 then do
              return (← three? a b c) :: (← decode? r)
            else match r with
              | [] => none
              | d :: r =>
                if a.toNat < 0xF8 then do
                  return (← four? a b c d) :: (← decode? r)
                else none

/-- Octets that encode some text. -/
def Valid (b : Bytes) : Prop := ∃ s, encode s = b

theorem scalar?_toNat {least : Nat} {c : Char} (h : least ≤ c.toNat) :
    scalar? least c.toNat = some c := by
  have hv : c.toNat.isValidChar := c.valid
  rw [scalar?, dif_pos ⟨h, hv⟩]
  rfl

theorem toNat_lt (c : Char) : c.toNat < 0x110000 := by
  have hv : c.toNat.isValidChar := c.valid
  unfold Nat.isValidChar at hv
  omega

theorem toNat_ofNat_of_lt {n : Nat} (h : n < 256) : (UInt8.ofNat n).toNat = n := by
  simp only [UInt8.toNat_ofNat']
  omega

theorem tail?_ofNat {n : Nat} (h : n < 64) : tail? (UInt8.ofNat (0x80 + n)) = some n := by
  simp only [tail?, toNat_ofNat_of_lt (show 0x80 + n < 256 by omega)]
  rw [if_pos (by omega)]
  simp

/-- The form of a character is read back, whatever follows it. -/
theorem decode?_encodeScalar_append (c : Char) (rest : Bytes) :
    decode? (encodeScalar c.toNat ++ rest) = (decode? rest).map (c :: ·) := by
  have hb := toNat_lt c
  have hlow : c.toNat % 64 < 64 := by omega
  have hmid : c.toNat / 64 % 64 < 64 := by omega
  have hhigh : c.toNat / 4096 % 64 < 64 := by omega
  unfold encodeScalar
  split
  · rename_i h
    simp only [List.cons_append, List.nil_append]
    rw [decode?.eq_def]
    simp only [toNat_ofNat_of_lt (show c.toNat < 256 by omega), h, if_true,
      scalar?_toNat (Nat.zero_le _)]
    cases decode? rest <;> rfl
  · split
    · rename_i h₀ h
      have lead := toNat_ofNat_of_lt (show 0xC0 + c.toNat / 64 < 256 by omega)
      have whole : (0xC0 + c.toNat / 64 - 0xC0) * 64 + c.toNat % 64 = c.toNat := by omega
      simp only [List.cons_append, List.nil_append]
      rw [decode?.eq_def]
      simp only [lead]
      rw [if_neg (by omega), if_neg (by omega), if_pos (by omega)]
      simp only [two?, lead, tail?_ofNat hlow, Option.bind_eq_bind, Option.bind_some, whole,
        scalar?_toNat (Nat.le_of_not_lt h₀)]
      cases decode? rest <;> rfl
    · split
      · rename_i h₀ h₁ h
        have lead := toNat_ofNat_of_lt (show 0xE0 + c.toNat / 4096 < 256 by omega)
        have whole : ((0xE0 + c.toNat / 4096 - 0xE0) * 64 + c.toNat / 64 % 64) * 64 +
            c.toNat % 64 = c.toNat := by omega
        simp only [List.cons_append, List.nil_append]
        rw [decode?.eq_def]
        simp only [lead]
        rw [if_neg (by omega), if_neg (by omega), if_neg (by omega), if_pos (by omega)]
        simp only [three?, lead, tail?_ofNat hlow, tail?_ofNat hmid, Option.bind_eq_bind,
          Option.bind_some, whole, scalar?_toNat (Nat.le_of_not_lt h₁)]
        cases decode? rest <;> rfl
      · rename_i h₀ h₁ h₂
        have lead := toNat_ofNat_of_lt (show 0xF0 + c.toNat / 262144 < 256 by omega)
        have whole : (((0xF0 + c.toNat / 262144 - 0xF0) * 64 + c.toNat / 4096 % 64) * 64 +
            c.toNat / 64 % 64) * 64 + c.toNat % 64 = c.toNat := by omega
        simp only [List.cons_append, List.nil_append]
        rw [decode?.eq_def]
        simp only [lead]
        rw [if_neg (by omega), if_neg (by omega), if_neg (by omega), if_neg (by omega),
          if_pos (by omega)]
        simp only [four?, lead, tail?_ofNat hlow, tail?_ofNat hmid, tail?_ofNat hhigh,
          Option.bind_eq_bind, Option.bind_some, whole, scalar?_toNat (Nat.le_of_not_lt h₂)]
        cases decode? rest <;> rfl

/-- Decoding undoes encoding. -/
theorem decode?_encode (s : Text) : decode? (encode s) = some s := by
  induction s with
  | nil => rfl
  | cons c s ih =>
      rw [encode] at ih
      rw [encode, List.flatMap_cons, decode?_encodeScalar_append, ih]
      rfl

theorem encode_injective {s t : Text} (h : encode s = encode t) : s = t := by
  have hdecode := decode?_encode s
  rw [h, decode?_encode] at hdecode
  exact (Option.some.inj hdecode).symm

theorem tail?_eq_some {b : UInt8} {n : Nat} (h : tail? b = some n) :
    b = UInt8.ofNat (0x80 + n) ∧ n < 64 := by
  unfold tail? at h
  split at h
  · rename_i hb
    obtain rfl := Option.some.inj h
    refine ⟨UInt8.toNat.inj ?_, by omega⟩
    rw [toNat_ofNat_of_lt (by omega)]
    omega
  · cases h

theorem scalar?_eq_some {least n : Nat} {c : Char} (h : scalar? least n = some c) :
    c.toNat = n ∧ least ≤ n := by
  by_cases hn : least ≤ n ∧ n.isValidChar
  · rw [scalar?, dif_pos hn] at h
    obtain rfl := Option.some.inj h
    exact ⟨rfl, hn.1⟩
  · rw [scalar?, dif_neg hn] at h
    cases h

theorem eq_ofNat {b : UInt8} {n : Nat} (h : b.toNat = n) : b = UInt8.ofNat n := by
  rw [← h, UInt8.ofNat_toNat]

theorem encodeScalar_of_two? {a b : UInt8} {c : Char} (ha : 0xC0 ≤ a.toNat ∧ a.toNat < 0xE0)
    (h : two? a b = some c) : encodeScalar c.toNat = [a, b] := by
  obtain ⟨n, hb, hs⟩ := Option.bind_eq_some_iff.1 h
  obtain ⟨hb, hn⟩ := tail?_eq_some hb
  obtain ⟨hc, hleast⟩ := scalar?_eq_some hs
  rw [hc, hb, encodeScalar, if_neg (by omega), if_pos (by omega)]
  generalize hm : (a.toNat - 0xC0) * 64 + n = m at *
  rw [eq_ofNat (show a.toNat = 0xC0 + m / 64 by omega), show m % 64 = n by omega]

theorem encodeScalar_of_three? {a b b' : UInt8} {c : Char}
    (ha : 0xE0 ≤ a.toNat ∧ a.toNat < 0xF0) (h : three? a b b' = some c) :
    encodeScalar c.toNat = [a, b, b'] := by
  obtain ⟨n, hb, hs⟩ := Option.bind_eq_some_iff.1 h
  obtain ⟨n', hb', hs⟩ := Option.bind_eq_some_iff.1 hs
  obtain ⟨hb, hn⟩ := tail?_eq_some hb
  obtain ⟨hb', hn'⟩ := tail?_eq_some hb'
  obtain ⟨hc, hleast⟩ := scalar?_eq_some hs
  rw [hc, hb, hb', encodeScalar, if_neg (by omega), if_neg (by omega), if_pos (by omega)]
  generalize hm : ((a.toNat - 0xE0) * 64 + n) * 64 + n' = m at *
  rw [eq_ofNat (show a.toNat = 0xE0 + m / 4096 by omega), show m / 64 % 64 = n by omega,
    show m % 64 = n' by omega]

theorem encodeScalar_of_four? {a b b' b'' : UInt8} {c : Char}
    (ha : 0xF0 ≤ a.toNat) (h : four? a b b' b'' = some c) :
    encodeScalar c.toNat = [a, b, b', b''] := by
  obtain ⟨n, hb, hs⟩ := Option.bind_eq_some_iff.1 h
  obtain ⟨n', hb', hs⟩ := Option.bind_eq_some_iff.1 hs
  obtain ⟨n'', hb'', hs⟩ := Option.bind_eq_some_iff.1 hs
  obtain ⟨hb, hn⟩ := tail?_eq_some hb
  obtain ⟨hb', hn'⟩ := tail?_eq_some hb'
  obtain ⟨hb'', hn''⟩ := tail?_eq_some hb''
  obtain ⟨hc, hleast⟩ := scalar?_eq_some hs
  rw [hc, hb, hb', hb'', encodeScalar, if_neg (by omega), if_neg (by omega), if_neg (by omega)]
  generalize hm : (((a.toNat - 0xF0) * 64 + n) * 64 + n') * 64 + n'' = m at *
  rw [eq_ofNat (show a.toNat = 0xF0 + m / 262144 by omega), show m / 4096 % 64 = n by omega,
    show m / 64 % 64 = n' by omega, show m % 64 = n'' by omega]

theorem encodeScalar_of_one {a : UInt8} {c : Char} (ha : a.toNat < 0x80)
    (h : scalar? 0 a.toNat = some c) : encodeScalar c.toNat = [a] := by
  obtain ⟨hc, -⟩ := scalar?_eq_some h
  rw [hc, encodeScalar, if_pos ha, UInt8.ofNat_toNat]

theorem encode_of_cons {x : Option Char} {rest octets : Bytes} {s : Text}
    (h : (do return (← x) :: (← decode? rest) : Option Text) = some s)
    (hx : ∀ c, x = some c → encodeScalar c.toNat = octets)
    (ih : ∀ {t}, decode? rest = some t → encode t = rest) : encode s = octets ++ rest := by
  obtain ⟨c, hc, h⟩ := Option.bind_eq_some_iff.1 h
  obtain ⟨t, ht, h⟩ := Option.bind_eq_some_iff.1 h
  obtain rfl := Option.some.inj h
  rw [encode, List.flatMap_cons, hx c hc, ← encode, ih ht]

/-- Only the one form of a text is decoded to it. -/
theorem encode_of_decode? {b : Bytes} {s : Text} (h : decode? b = some s) : encode s = b := by
  fun_induction decode? b generalizing s with
  | case1 => cases h; rfl
  | case2 a r ha ih => exact encode_of_cons h (fun _ => encodeScalar_of_one ha) ih
  | case3 => cases h
  | case4 => cases h
  | case5 a _ b r _ hb ih => exact encode_of_cons h (fun _ => encodeScalar_of_two? (by omega)) ih
  | case6 => cases h
  | case7 a _ b _ _ c r hc ih =>
      exact encode_of_cons h (fun _ => encodeScalar_of_three? (by omega)) ih
  | case8 => cases h
  | case9 a _ b _ _ c _ d r hd ih =>
      exact encode_of_cons h (fun _ => encodeScalar_of_four? (by omega)) ih
  | case10 => cases h

/-- Decoding and encoding are inverse to each other. -/
theorem decode?_eq_some_iff {b : Bytes} {s : Text} : decode? b = some s ↔ encode s = b :=
  ⟨encode_of_decode?, fun h => h ▸ decode?_encode s⟩

/-- Octets encode some text exactly when they are accepted. -/
theorem valid_iff_isSome {b : Bytes} : Valid b ↔ (decode? b).isSome = true := by
  simp only [Valid, Option.isSome_iff_exists, decode?_eq_some_iff]

end HttpExchange.Utf8
