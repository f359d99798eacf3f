import HttpExchange.Proofs.Assembly.Grammar
import HttpExchange.Proofs.Headers.Refusal

/-! # Octets that are refused

An assembly is malformed exactly when the octets it was given spoil one of the parts of a request,
and each way to spoil a part is said here without reading it. A part that may still be completed
is not refused: no beginning of an accepted request is. -/

namespace HttpExchange.Assembly

/-- No octet of a target ends it. -/
def Unbroken (target : Bytes) : Prop := ∀ b ∈ target, b ≠ 32 ∧ b ≠ 13 ∧ b ≠ 10

theorem unbroken_iff {target : Bytes} : Unbroken target ↔ ∀ b ∈ target, endsTarget b = false := by
  simp only [Unbroken, endsTarget_eq_false_iff]

instance (target : Bytes) : Decidable (Unbroken target) :=
  decidable_of_iff ((target.all fun b => !endsTarget b) = true) (by simp [unbroken_iff])

/-- The octets of a block are no text, or the text is spoilt. -/
def SpoiltBlock (octets : Bytes) : Prop :=
  ¬ Utf8.Valid octets ∨ ∃ block, Utf8.encode block = octets ∧ Headers.Spoilt block

/-- Octets that are refused, by the part of the request that is spoilt. -/
inductive Refused : Bytes → Prop where
  | method {octets} (hopen : ∀ m, ¬ opening m <+: octets)
      (hstart : ∀ m, ¬ octets <+: opening m) : Refused octets
  | target {m front b later} (hfront : Unbroken front)
      (hb : b = 13 ∨ b = 10 ∨ b = 32 ∧ ¬ Utf8.Valid front) :
      Refused (opening m ++ (front ++ b :: later))
  | version {m t later} (htarget : Unbroken (Utf8.encode t)) (hlength : 10 ≤ later.length)
      (hline : ¬ versionLine <+: later) :
      Refused (opening m ++ (Utf8.encode t ++ 32 :: later))
  | headers {m t front later} (htarget : Unbroken (Utf8.encode t))
      (hopened : crlf <+: front ++ terminator)
      (hclosed : ∀ i < front.length, ¬ Window.Occurs terminator (front ++ terminator) i)
      (hblock : SpoiltBlock front) :
      Refused (opening m ++ (Utf8.encode t ++ 32 ::
        (Utf8.encode Request.http11 ++ (front ++ terminator ++ later))))

/-! ## Each part -/

theorem isMalformed_readBody (m : Method) (t : Text) (h : Headers) (n : Nat) (w : Window) :
    (readBody m t h n w).isMalformed = false := by
  unfold readBody
  split <;> rfl

theorem spoiltBlock_iff {octets : Bytes} :
    SpoiltBlock octets ↔ ∀ h, (Utf8.decode? octets).bind Headers.parseBlock? = some h →
      h.framing = .contradictory := by
  cases hdecode : Utf8.decode? octets with
  | none =>
      have hvalid : ¬ Utf8.Valid octets := by simp [Utf8.valid_iff_isSome, hdecode]
      simp [SpoiltBlock, hvalid]
  | some block =>
      obtain rfl := Utf8.decode?_eq_some_iff.mp hdecode
      have hvalid : Utf8.Valid (Utf8.encode block) := ⟨block, rfl⟩
      rw [Option.bind_some, ← Headers.spoilt_iff]
      constructor
      · rintro (hinvalid | ⟨other, hother, hspoilt⟩)
        · exact absurd hvalid hinvalid
        · rw [← hother, Utf8.decode?_encode] at hdecode
          exact Option.some.inj hdecode ▸ hspoilt
      · intro hspoilt
        exact .inr ⟨block, rfl, hspoilt⟩

theorem isMalformed_readHeaders_of_closed {m : Method} {t : Text} {front later : Bytes}
    (hclosed : ∀ i < front.length, ¬ Window.Occurs terminator (front ++ terminator) i) :
    (readHeaders m t ⟨front ++ terminator ++ later⟩ 0).isMalformed = true ↔ SpoiltBlock front := by
  rw [readHeaders_of_closed hclosed, spoiltBlock_iff]
  cases (Utf8.decode? front).bind Headers.parseBlock? with
  | none => exact iff_of_true rfl nofun
  | some headers =>
      simp only [Option.some.injEq, forall_eq']
      cases headers.framing with
      | contradictory => exact iff_of_true rfl rfl
      | bodiless => exact iff_of_false nofun nofun
      | sized length => simp [isMalformed_readBody]

theorem isMalformed_readHeaders_iff {m : Method} {t : Text} {octets : Bytes} :
    (readHeaders m t ⟨octets⟩ 0).isMalformed = true ↔
      ∃ front later, octets = front ++ terminator ++ later ∧
        (∀ i < front.length, ¬ Window.Occurs terminator (front ++ terminator) i) ∧
        SpoiltBlock front := by
  have hne : terminator ≠ [] := by decide
  constructor
  · intro h
    cases hfind : (Window.mk octets).find? terminator 0 with
    | none => simp [readHeaders, hfind, isMalformed] at h
    | some stop =>
        obtain ⟨front, later, hoctets, -, hclosed⟩ :=
          (Window.find?_zero_eq_some_iff hne).mp hfind
        dsimp only at hoctets
        subst hoctets
        exact ⟨front, later, rfl, hclosed, (isMalformed_readHeaders_of_closed hclosed).mp h⟩
  · rintro ⟨front, later, rfl, hclosed, hblock⟩
    exact (isMalformed_readHeaders_of_closed hclosed).mpr hblock

theorem isMalformed_readVersion_iff {m : Method} {t : Text} {octets : Bytes} :
    (readVersion m t ⟨octets⟩).isMalformed = true ↔
      (10 ≤ octets.length ∧ ¬ versionLine <+: octets) ∨
        ∃ later, octets = Utf8.encode Request.http11 ++ later ∧ crlf <+: later ∧
          (readHeaders m t ⟨later⟩ 0).isMalformed = true := by
  constructor
  · intro h
    by_cases hprefix : versionLine <+: octets
    · obtain ⟨later, rfl, hopened⟩ := versionLine_prefix_iff.mp hprefix
      rw [readVersion_of_opened hopened] at h
      exact .inr ⟨later, rfl, hopened, h⟩
    · refine .inl ⟨?_, hprefix⟩
      by_contra hshort
      rw [readVersion_of_unopened hprefix, if_pos (Nat.lt_of_not_le hshort)] at h
      cases h
  · rintro (⟨hlength, hprefix⟩ | ⟨later, rfl, hopened, h⟩)
    · rw [readVersion_of_unopened hprefix, if_neg (Nat.not_lt.mpr hlength)]
      rfl
    · rw [readVersion_of_opened hopened]
      exact h

theorem endsTarget_iff {b : UInt8} : endsTarget b = true ↔ b = 32 ∨ b = 13 ∨ b = 10 := by
  simp [endsTarget, or_assoc]

theorem isMalformed_readTarget_iff {m : Method} {octets : Bytes} :
    (readTarget m ⟨octets⟩ 0).isMalformed = true ↔
      ∃ front b later, octets = front ++ b :: later ∧ Unbroken front ∧
        ((b = 13 ∨ b = 10 ∨ b = 32 ∧ ¬ Utf8.Valid front) ∨
          b = 32 ∧ ∃ t, Utf8.encode t = front ∧ (readVersion m t ⟨later⟩).isMalformed = true) := by
  constructor
  · intro h
    cases hfind : (Window.mk octets).findWhere? endsTarget 0 with
    | none => simp [readTarget, hfind, isMalformed] at h
    | some stop =>
        obtain ⟨front, b, later, hoctets, -, hb, hfront⟩ :=
          Window.findWhere?_zero_eq_some_iff.mp hfind
        dsimp only at hoctets
        subst hoctets
        refine ⟨front, b, later, rfl, unbroken_iff.mpr hfront, ?_⟩
        rw [readTarget_of_cut hb hfront] at h
        rcases endsTarget_iff.mp hb with rfl | hbreak
        · cases hdecode : Utf8.decode? front with
          | none =>
              have hvalid : ¬ Utf8.Valid front := by simp [Utf8.valid_iff_isSome, hdecode]
              exact .inl (.inr (.inr ⟨rfl, hvalid⟩))
          | some t =>
              rw [if_pos rfl, hdecode] at h
              exact .inr ⟨rfl, t, Utf8.decode?_eq_some_iff.mp hdecode, h⟩
        · exact .inl (hbreak.imp_right .inl)
  · rintro ⟨front, b, later, rfl, hfront, h⟩
    have hfree := unbroken_iff.mp hfront
    rcases h with (rfl | rfl | ⟨rfl, hvalid⟩) | ⟨rfl, t, rfl, h⟩
    · rw [readTarget_of_cut (by decide) hfree]
      rfl
    · rw [readTarget_of_cut (by decide) hfree]
      rfl
    · have hdecode : Utf8.decode? front = none := by
        simpa [Utf8.valid_iff_isSome] using hvalid
      rw [readTarget_of_cut (by decide) hfree, if_pos rfl, hdecode]
      rfl
    · rw [readTarget_of_cut (by decide) hfree, if_pos rfl, Utf8.decode?_encode]
      exact h

theorem isMalformed_readMethod_iff {octets : Bytes} :
    (readMethod ⟨octets⟩).isMalformed = true ↔
      ((∀ m, ¬ opening m <+: octets) ∧ ∀ m, ¬ octets <+: opening m) ∨
        ∃ m later, octets = opening m ++ later ∧
          (readTarget m ⟨later⟩ 0).isMalformed = true := by
  constructor
  · intro h
    by_cases hopen : ∃ m, opening m <+: octets
    · rcases hopen with ⟨m, later, rfl⟩
      rw [readMethod_opening_append] at h
      exact .inr ⟨m, later, rfl, h⟩
    · have hno : ∀ m, ¬ opening m <+: octets := fun m hm => hopen ⟨m, hm⟩
      refine .inl ⟨hno, ?_⟩
      intro m hstart
      rw [readMethod_of_start hno ⟨m, hstart⟩] at h
      cases h
  · rintro (⟨hopen, hstart⟩ | ⟨m, later, rfl, h⟩)
    · rw [readMethod_of_refused hopen fun ⟨m, hm⟩ => hstart m hm]
      rfl
    · rw [readMethod_opening_append]
      exact h

/-! ## The whole request -/

theorem isMalformed_feed_empty_iff {octets : Bytes} :
    (empty.feed octets).isMalformed = true ↔ Refused octets := by
  have hfeed : empty.feed octets = readMethod ⟨octets⟩ := rfl
  rw [hfeed, isMalformed_readMethod_iff]
  constructor
  · rintro (⟨hopen, hstart⟩ | ⟨m, behindMethod, rfl, htarget⟩)
    · exact .method hopen hstart
    obtain ⟨front, b, behindTarget, rfl, hfront, hcut⟩ := isMalformed_readTarget_iff.mp htarget
    rcases hcut with hb | ⟨rfl, t, rfl, hversion⟩
    · exact .target hfront hb
    rcases isMalformed_readVersion_iff.mp hversion with
      ⟨hlength, hline⟩ | ⟨behindVersion, rfl, hopened, hheaders⟩
    · exact .version hfront hlength hline
    obtain ⟨block, later, rfl, hclosed, hblock⟩ := isMalformed_readHeaders_iff.mp hheaders
    have hlength : crlf.length ≤ (block ++ terminator).length := by
      have hle : crlf.length ≤ terminator.length := by decide
      rw [List.length_append]
      omega
    exact .headers hfront ((Window.prefix_append_iff later hlength).mp hopened) hclosed hblock
  · intro h
    cases h with
    | method hopen hstart => exact .inl ⟨hopen, hstart⟩
    | @target m front b later hfront hb =>
        refine .inr ⟨m, _, rfl, isMalformed_readTarget_iff.mpr ?_⟩
        exact ⟨front, b, later, rfl, hfront, .inl hb⟩
    | @version m t later htarget hlength hline =>
        refine .inr ⟨m, _, rfl, isMalformed_readTarget_iff.mpr ?_⟩
        refine ⟨_, 32, later, rfl, htarget, .inr ⟨rfl, t, rfl, ?_⟩⟩
        exact isMalformed_readVersion_iff.mpr (.inl ⟨hlength, hline⟩)
    | @headers m t front later htarget hopened hclosed hblock =>
        refine .inr ⟨m, _, rfl, isMalformed_readTarget_iff.mpr ?_⟩
        refine ⟨_, 32, _, rfl, htarget, .inr ⟨rfl, t, rfl, ?_⟩⟩
        refine isMalformed_readVersion_iff.mpr (.inr ⟨_, rfl, ?_, ?_⟩)
        · exact hopened.trans (List.prefix_append _ later)
        · exact isMalformed_readHeaders_iff.mpr ⟨front, later, rfl, hclosed, hblock⟩

/-- No more octets make up for what is spoilt. -/
theorem Refused.append {octets : Bytes} (h : Refused octets) (more : Bytes) :
    Refused (octets ++ more) :=
  isMalformed_feed_empty_iff.mp (isMalformed_feed_append (isMalformed_feed_empty_iff.mpr h) more)

theorem not_refused_of_isReady {octets : Bytes} (h : (empty.feed octets).isReady = true) :
    ¬ Refused octets := by
  intro hrefused
  obtain ⟨r, rest, hfinish⟩ := isReady_iff.mp h
  rw [finish?_of_malformed (isMalformed_feed_empty_iff.mpr hrefused)] at hfinish
  cases hfinish

theorem isMalformed_feedAll (pieces : List Bytes) :
    (empty.feedAll pieces).isMalformed = (empty.feed pieces.flatten).isMalformed := by
  rw [← isMalformed_core, core_feedAll, isMalformed_core]

/-- An assembly is malformed exactly when its octets, in whatever pieces they came, are refused.
No beginning of an accepted request is. -/
theorem isMalformed_feedAll_iff (pieces : List Bytes) :
    ((empty.feedAll pieces).isMalformed = true ↔ Refused pieces.flatten) ∧
      ∀ more, (empty.feed (pieces.flatten ++ more)).isReady = true →
        (empty.feedAll pieces).isMalformed = false := by
  rw [isMalformed_feedAll, isMalformed_feed_empty_iff]
  refine ⟨Iff.rfl, ?_⟩
  intro more hready
  rw [Bool.eq_false_iff, ne_eq, isMalformed_feed_empty_iff]
  intro hrefused
  exact not_refused_of_isReady hready (hrefused.append more)

/-- Announcements of one and of two octets are refused. `+1` and `1` announce the same length, and
what lacks only an end of its terminator may still become a request. -/
theorem isMalformed_feedAll_two_lengths :
    let contradictory := [Utf8.encode "GET / HTTP/1.1\r\nContent-Len".toList,
      Utf8.encode "gth: 1\r\ncontent-length: 2\r\n\r\n".toList]
    let unfinished := [Utf8.encode "GET / HTTP/1.1\r\nContent-Len".toList,
      Utf8.encode "gth: +1\r\ncontent-length: 1\r\n\r".toList]
    (empty.feedAll contradictory).isMalformed = true ∧
      (empty.feed (unfinished.flatten ++ [10, 120])).isReady = true ∧
      (empty.feedAll unfinished).isMalformed = false := by
  intro contradictory unfinished
  constructor
  · let block := "\r\nContent-Length: 1\r\ncontent-length: 2".toList
    have hparse : Headers.parseBlock? block = some ⟨[("Content-Length".toList, "1".toList),
        ("content-length".toList, "2".toList)]⟩ := by decide
    have hspoilt : Headers.Spoilt block := by
      rw [Headers.spoilt_iff, hparse]
      rintro _ ⟨⟩
      decide
    have hrefused : Refused (opening .get ++ (Utf8.encode "/".toList ++ 32 ::
        (Utf8.encode Request.http11 ++ (Utf8.encode block ++ terminator ++ [])))) :=
      .headers (by decide) (by decide) (by decide) (.inr ⟨block, rfl, hspoilt⟩)
    have hoctets : contradictory.flatten = opening .get ++ (Utf8.encode "/".toList ++ 32 ::
        (Utf8.encode Request.http11 ++ (Utf8.encode block ++ terminator ++ []))) := by decide
    rw [(isMalformed_feedAll_iff contradictory).1, hoctets]
    exact hrefused
  · let block := "\r\nContent-Length: +1\r\ncontent-length: 1".toList
    let r : Request := ⟨.get, "/".toList, Request.http11, ⟨[("Content-Length".toList, "+1".toList),
      ("content-length".toList, "1".toList)]⟩, some [120]⟩
    have htarget : Unbroken (Utf8.encode r.target) := by decide
    have hlegible : Legible r block :=
      ⟨rfl, htarget, by decide, by decide, Headers.parseBlock?_eq_some_iff.mp (by decide),
        Headers.framed_iff.mpr (by decide)⟩
    have hoctets : unfinished.flatten ++ [10, 120] = wire r block ++ [] := by decide
    have hready : (empty.feed (unfinished.flatten ++ [10, 120])).isReady = true :=
      isReady_iff.mpr ⟨r, [], finish?_feed_empty_iff.mpr ⟨block, hlegible, hoctets⟩⟩
    exact ⟨hready, (isMalformed_feedAll_iff unfinished).2 [10, 120] hready⟩

end HttpExchange.Assembly
