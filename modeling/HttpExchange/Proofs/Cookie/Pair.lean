import HttpExchange.Proofs.Cookie.RoundTrip
import HttpExchange.Proofs.Text.Ascii

/-! # The pair of a header

What stands before the first semicolon decides alone whether a header is a cookie, and which name
and value it has. The grammar of the pair is stated on octets, as headers are sent: the name is a
token, and the value is either free of separators or in quotes. -/

namespace HttpExchange

namespace Text

theorem splitOnce?_of_mem {mark : Char} {s : Text} (h : mark ∈ s) :
    splitOnce? mark s = some (s.takeWhile (· != mark), (s.dropWhile (· != mark)).tail) := by
  induction s with
  | nil => cases h
  | cons c rest ih =>
      by_cases hc : c = mark
      · simp [splitOnce?, hc]
      · have hrest : mark ∈ rest := by simpa [Ne.symm hc] using h
        simp [splitOnce?, hc, ih hrest]

theorem splitAll_eq_cons (mark : Char) (s : Text) :
    splitAll mark s = s.takeWhile (· != mark) :: (splitAll mark s).tail := by
  induction s with
  | nil => rfl
  | cons c rest ih =>
      rw [splitAll] at ih
      rw [splitAll, splitWhere]
      by_cases hc : c = mark
      · simp [hc]
      · rw [ih]
        simp [hc]

end Text

namespace Cookie

open Text

/-! ## Octets of names and values -/

/-- The octets of a token: letters, digits and the marks that separate nothing. -/
def TokenOctet (b : UInt8) : Prop :=
  (0x30 ≤ b.toNat ∧ b.toNat ≤ 0x39) ∨ (0x41 ≤ b.toNat ∧ b.toNat ≤ 0x5A) ∨
    (0x61 ≤ b.toNat ∧ b.toNat ≤ 0x7A) ∨ b ∈ Utf8.encode "!#$%&'*+-.^_`|~".toList

/-- The octets of a value without quotes: no control, no white space, nothing past ASCII, and none
of the quote, the comma, the semicolon, the equals sign and the backslash. -/
def ValueOctet (b : UInt8) : Prop :=
  0x20 < b.toNat ∧ b.toNat < 0x7F ∧ b ∉ Utf8.encode "\",;=\\".toList

/-- The octets that may follow the closing quote: the comma and the white space of ASCII. -/
def PaddingOctet (b : UInt8) : Prop := b ∈ Utf8.encode ",\t\n\x0c\r ".toList

theorem tokenOctet_iff {c : Char} (hc : c.toNat < 0x80) :
    TokenOctet (UInt8.ofNat c.toNat) ↔ isTokenChar c = true := by
  rw [TokenOctet, Utf8.ofNat_mem_encode_iff hc, Utf8.toNat_ofNat_of_lt (by omega), isTokenChar,
    Bool.or_eq_true, isAlphanum_iff, List.contains_iff_mem, or_assoc, or_assoc]

theorem valueOctet_iff {c : Char} (hc : c.toNat < 0x80) :
    ValueOctet (UInt8.ofNat c.toNat) ↔ isValueChar c = true := by
  have hmarks : c ∈ "\",;=\\".toList ↔
      c.toNat = 0x22 ∨ c.toNat = 0x2C ∨ c.toNat = 0x3B ∨ c.toNat = 0x3D ∨ c.toNat = 0x5C := by
    simp [← Char.toNat_inj]
  rw [ValueOctet, Utf8.ofNat_mem_encode_iff hc, Utf8.toNat_ofNat_of_lt (by omega), hmarks]
  simp only [isValueChar, Bool.or_eq_true, Bool.and_eq_true, decide_eq_true_eq, beq_iff_eq]
  omega

theorem paddingOctet_iff {c : Char} (hc : c.toNat < 0x80) :
    PaddingOctet (UInt8.ofNat c.toNat) ↔ (c == ',' || isAsciiBlank c) = true := by
  rw [PaddingOctet, Utf8.ofNat_mem_encode_iff hc]
  simp [isAsciiBlank, or_assoc]

theorem forall_tokenOctet_iff (s : Text) :
    (∀ b ∈ Utf8.encode s, TokenOctet b) ↔ s.all isTokenChar = true := by
  apply Utf8.forall_mem_encode_iff s _ _ fun _ => tokenOctet_iff
  · intro c hc
    exact (visible_of_isTokenChar hc).2.trans (by decide)
  · rintro b (h | h | h | h)
    · omega
    · omega
    · omega
    · exact Utf8.lt_of_mem_encode (by decide) h

theorem forall_valueOctet_iff (s : Text) :
    (∀ b ∈ Utf8.encode s, ValueOctet b) ↔ s.all isValueChar = true := by
  apply Utf8.forall_mem_encode_iff s _ _ fun _ => valueOctet_iff
  · intro c hc
    exact (visible_of_isValueChar hc).2.trans (by decide)
  · rintro b ⟨-, hb, -⟩
    omega

theorem forall_paddingOctet_iff (s : Text) :
    (∀ b ∈ Utf8.encode s, PaddingOctet b) ↔
      (s.all fun c => c == ',' || isAsciiBlank c) = true := by
  apply Utf8.forall_mem_encode_iff s _ _ fun _ => paddingOctet_iff
  · intro c hc
    simp only [isAsciiBlank, Bool.or_eq_true, beq_iff_eq] at hc
    rcases hc with rfl | (((rfl | rfl) | rfl) | rfl) | rfl <;> decide
  · intro b hb
    exact Utf8.lt_of_mem_encode (by decide) hb

/-! ## The grammar of a pair -/

/-- What stands before the first semicolon of a header. -/
def pairText (header : Text) : Text := header.takeWhile (· != ';')

/-- The parts of a header behind its pair. -/
def parts (header : Text) : List Text := (splitAll ';' header).tail

/-- The name in a pair. -/
def nameText (pair : Text) : Text := Text.trim (pair.takeWhile (· != '='))

/-- The value in a pair, as it is written. -/
def valueText (pair : Text) : Text := Text.trim (pair.dropWhile (· != '=')).tail

/-- A value is written alone or in quotes, with commas and white space behind the closing quote;
the last component tells whether it is in quotes. -/
inductive Written : Text → Text → Bool → Prop where
  | alone {s : Text} (hquote : s.head? ≠ some '"') (hs : ∀ b ∈ Utf8.encode s, ValueOctet b) :
      Written s s false
  | quoted {value padding : Text} (hvalue : '"' ∉ value)
      (hpadding : ∀ b ∈ Utf8.encode padding, PaddingOctet b) :
      Written ('"' :: (value ++ '"' :: padding)) value true

theorem unquote?_eq_some_iff {s value : Text} {wrapped : Bool} :
    unquote? s = some (value, wrapped) ↔ Written s value wrapped := by
  constructor
  · intro h
    unfold unquote? at h
    split at h
    · obtain ⟨⟨inner, padding⟩, hcut, hread⟩ := Option.bind_eq_some_iff.mp h
      obtain ⟨rfl, hinner⟩ := splitOnce?_eq_some_iff.mp hcut
      obtain ⟨hpadding, heq⟩ := Option.ite_none_right_eq_some.mp hread
      obtain ⟨rfl, rfl⟩ := Prod.mk.inj (Option.some.inj heq)
      exact .quoted hinner ((forall_paddingOctet_iff padding).mpr hpadding)
    · rename_i hquote
      obtain ⟨hs, heq⟩ := Option.ite_none_right_eq_some.mp h
      obtain ⟨rfl, rfl⟩ := Prod.mk.inj (Option.some.inj heq)
      refine .alone ?_ ((forall_valueOctet_iff s).mpr hs)
      intro hhead
      obtain ⟨rest, rfl⟩ := List.head?_eq_some_iff.mp hhead
      exact hquote rest rfl
  · intro h
    cases h with
    | alone hquote hs =>
        unfold unquote?
        split
        · exact absurd rfl hquote
        · rw [if_pos ((forall_valueOctet_iff s).mp hs)]
    | quoted hvalue hpadding =>
        rename_i padding
        change (splitOnce? '"' (value ++ '"' :: padding)).bind _ = _
        rw [splitOnce?_eq_some_iff.mpr ⟨rfl, hvalue⟩]
        exact if_pos ((forall_paddingOctet_iff padding).mp hpadding)

theorem parsePair?_eq_some_iff {pair : Text} {c : Cookie} :
    parsePair? pair = some c ↔
      '=' ∈ pair ∧ (∀ b ∈ Utf8.encode (nameText pair), TokenOctet b) ∧
        ∃ value wrapped, Written (valueText pair) value wrapped ∧
          (new (nameText pair) value).withWrapped wrapped = c := by
  rw [forall_tokenOctet_iff]
  unfold parsePair?
  by_cases hmark : '=' ∈ pair
  · rw [splitOnce?_of_mem hmark]
    change (if (nameText pair).all isTokenChar = true then
      (unquote? (valueText pair)).bind fun written =>
        some ((new (nameText pair) written.1).withWrapped written.2) else none) = some c ↔ _
    rw [Option.ite_none_right_eq_some, Option.bind_eq_some_iff]
    simp only [Prod.exists, unquote?_eq_some_iff, Option.some.injEq, hmark, true_and]
  · rw [splitOnce?_eq_none_iff.mpr hmark]
    simp [hmark]

/-! ## The pair decides -/

/-- What the pair says of a cookie: its name, its value, and whether the value is in quotes. -/
def told (c : Cookie) : Text × Text × Bool := (c.name, c.value, c.wrapped)

/-- A value without quotes needs none, so the cookie keeps what the pair says. -/
theorem Written.told_new {s value : Text} {wrapped : Bool} (h : Written s value wrapped)
    (name : Text) : told ((new name value).withWrapped wrapped) = (name, value, wrapped) := by
  have hwrapped : (wrapped || needsQuotes value) = wrapped := by
    cases h with
    | alone _ hs => simp [needsQuotes, (forall_valueOctet_iff s).mp hs]
    | quoted => rfl
  exact Prod.ext rfl (Prod.ext rfl hwrapped)

theorem parse?_eq_map (now : Instant) (header : Text) :
    parse? now header = (parsePair? (pairText header)).map fun cookie =>
      (((parts header).filterMap Attribute.parse?).foldl Draft.apply ⟨cookie, none, none⟩).finish
        now := by
  have hsplit : splitAll ';' header = pairText header :: parts header := splitAll_eq_cons ';' header
  unfold parse?
  rw [hsplit]

theorem map_told_parse? (now : Instant) (header : Text) :
    (parse? now header).map told = (parsePair? (pairText header)).map told := by
  rw [parse?_eq_map, Option.map_map]
  congr 1
  funext cookie
  obtain ⟨hname, hvalue, hwrapped⟩ :=
    pair_foldl ((parts header).filterMap Attribute.parse?) ⟨cookie, none, none⟩
  exact Prod.ext hname (Prod.ext hvalue hwrapped)

theorem map_told_parse?_eq_some_iff {now : Instant} {header name value : Text} {wrapped : Bool} :
    (parse? now header).map told = some (name, value, wrapped) ↔
      '=' ∈ pairText header ∧ (∀ b ∈ Utf8.encode (nameText (pairText header)), TokenOctet b) ∧
        nameText (pairText header) = name ∧
        Written (valueText (pairText header)) value wrapped := by
  rw [map_told_parse?, Option.map_eq_some_iff]
  simp only [parsePair?_eq_some_iff]
  constructor
  · rintro ⟨_, ⟨hmark, htoken, _, _, hvalue, rfl⟩, htold⟩
    rw [hvalue.told_new] at htold
    simp only [Prod.mk.injEq] at htold
    obtain ⟨hname, rfl, rfl⟩ := htold
    exact ⟨hmark, htoken, hname, hvalue⟩
  · rintro ⟨hmark, htoken, rfl, hvalue⟩
    exact ⟨_, ⟨hmark, htoken, value, wrapped, hvalue, rfl⟩, hvalue.told_new _⟩

/-- A header is read as a cookie exactly if its pair has an equals sign, a token for a name and a
value in one of the two forms. Name, value and quotes are those of the pair, and no text behind the
first semicolon changes any of this, at any time. -/
theorem parse?_pair_iff (now : Instant) (header : Text) :
    ((∃ c, parse? now header = some c) ↔
        '=' ∈ pairText header ∧ (∀ b ∈ Utf8.encode (nameText (pairText header)), TokenOctet b) ∧
          ∃ value wrapped, Written (valueText (pairText header)) value wrapped) ∧
      (∀ c, parse? now header = some c →
        c.name = nameText (pairText header) ∧
          Written (valueText (pairText header)) c.value c.wrapped) ∧
      ∀ later other, pairText other = pairText header →
        (parse? later other).map told = (parse? now header).map told := by
  refine ⟨⟨?_, ?_⟩, ?_, ?_⟩
  · rintro ⟨c, hc⟩
    obtain ⟨hmark, htoken, -, hvalue⟩ :=
      map_told_parse?_eq_some_iff.mp (congrArg (Option.map told) hc)
    exact ⟨hmark, htoken, c.value, c.wrapped, hvalue⟩
  · rintro ⟨hmark, htoken, value, wrapped, hvalue⟩
    have htold : (parse? now header).map told =
        some (nameText (pairText header), value, wrapped) :=
      map_told_parse?_eq_some_iff.mpr ⟨hmark, htoken, rfl, hvalue⟩
    obtain ⟨c, hc, -⟩ := Option.map_eq_some_iff.mp htold
    exact ⟨c, hc⟩
  · intro c hc
    obtain ⟨-, -, hname, hvalue⟩ :=
      map_told_parse?_eq_some_iff.mp (congrArg (Option.map told) hc)
    exact ⟨hname.symm, hvalue⟩
  · intro later other hpair
    rw [map_told_parse?, map_told_parse?, hpair]

/-- A wide blank behind the name, an equals sign inside the quotes, a comma and a tab behind them:
the attributes that follow do not count. -/
theorem parse?_pair_iff_wide_blank :
    let header : Text := " sid\u3000=\"a=b, ü\" ,\t; Path=/x; sid=c".toList
    let other : Text := " sid\u3000=\"a=b, ü\" ,\t;;=\"".toList
    pairText other = pairText header ∧
      (parse? Instant.epoch other).map told = (parse? Instant.epoch header).map told ∧
      (parse? Instant.epoch header).map told = some ("sid".toList, "a=b, ü".toList, true) := by
  intro header other
  have hpair : pairText other = pairText header := by decide +kernel
  refine ⟨hpair, (parse?_pair_iff Instant.epoch header).2.2 Instant.epoch other hpair, ?_⟩
  decide +kernel

end Cookie

end HttpExchange
