import HttpExchange.Proofs.Assembly.Pieces
import HttpExchange.Proofs.Headers.Block

/-! # The grammar of a request

A request, with the text of its header block, has one image on the wire, and an assembly becomes
ready exactly on the images of legible requests. The line break behind the version belongs to the
block, so a block without fields has no octets and shares that line break with the empty line. -/

namespace HttpExchange.Assembly

/-- The line break of the wire. -/
def crlf : Bytes := [13, 10]

/-- The octets of a request whose header block is this text. -/
def wire (r : Request) (block : Text) : Bytes :=
  r.method.octets ++ [32] ++ Utf8.encode r.target ++ [32] ++ Utf8.encode r.version ++
    Utf8.encode block ++ crlf ++ crlf ++ r.payload

/-- The parts of a request can be told apart on the wire: each ends at the first mark that ends
its kind, the block shows the fields, and the fields announce the body. -/
structure Legible (r : Request) (block : Text) : Prop where
  version : r.version = Request.http11
  target : ∀ b ∈ Utf8.encode r.target, b ≠ 32 ∧ b ≠ 13 ∧ b ≠ 10
  opened : crlf <+: Utf8.encode block ++ crlf ++ crlf
  closed : ∀ i < (Utf8.encode block).length,
    ¬ Window.Occurs (crlf ++ crlf) (Utf8.encode block ++ crlf ++ crlf) i
  fields : List.Forall₂ Headers.Shows (Headers.fieldLines block) r.headers.toList
  framed : Headers.Framed r.headers r.body

/-! ## Each part -/

theorem finish?_readBody_iff {m : Method} {t : Text} {h : Headers} {n : Nat} {octets : Bytes}
    {r : Request} {rest : Bytes} :
    (readBody m t h n ⟨octets⟩).finish? = some (r, rest) ↔
      ∃ body, octets = body ++ rest ∧ body.length = n ∧
        r = ⟨m, t, Request.http11, h, some body⟩ := by
  by_cases hn : n ≤ (Window.mk octets).length
  · simp only [readBody, Window.splitTo?, if_pos hn, finish?, request?, Option.map_some,
      Option.some.injEq, Prod.mk.injEq, Window.toList_consume]
    constructor
    · intro h
      rcases h with ⟨rfl, rfl⟩
      exact ⟨octets.take n, (List.take_append_drop n octets).symm,
        List.length_take_of_le hn, rfl⟩
    · intro h
      rcases h with ⟨body, rfl, rfl, rfl⟩
      rw [List.take_left, List.drop_left]
      exact ⟨rfl, rfl⟩
  · simp only [readBody, Window.splitTo?, if_neg hn, finish?, request?, Option.map_none,
      reduceCtorEq, false_iff]
    intro h
    rcases h with ⟨body, rfl, rfl, -⟩
    apply hn
    rw [Window.length, List.length_append]
    omega

/-- A block is cut off at its terminator, whether its fields can be read or not. -/
theorem readHeaders_of_closed {m : Method} {t : Text} {front later : Bytes}
    (hclosed : ∀ i < front.length, ¬ Window.Occurs terminator (front ++ terminator) i) :
    readHeaders m t ⟨front ++ terminator ++ later⟩ 0 =
      match (Utf8.decode? front).bind Headers.parseBlock? with
      | none => ⟨⟨front ++ terminator ++ later⟩, .malformed (some m)⟩
      | some headers =>
        match headers.framing with
        | .contradictory => ⟨⟨front ++ terminator ++ later⟩, .malformed (some m)⟩
        | .bodiless => ⟨⟨later⟩, .ready ⟨m, t, Request.http11, headers, none⟩⟩
        | .sized length => readBody m t headers length ⟨later⟩ := by
  have hne : terminator ≠ [] := by decide
  have hfind : (Window.mk (front ++ terminator ++ later)).find? terminator 0 =
      some front.length :=
    (Window.find?_zero_eq_some_iff hne).mpr ⟨front, later, rfl, rfl, hclosed⟩
  have htake : (front ++ terminator ++ later).take front.length = front := by
    rw [List.append_assoc, List.take_left]
  have hlength : front.length + 4 = (front ++ terminator).length := by
    rw [List.length_append]
    rfl
  have hconsume : (Window.mk (front ++ terminator ++ later)).consume (front.length + 4) =
      ⟨later⟩ := by
    rw [Window.consume, hlength, List.drop_left]
  cases hparse : (Utf8.decode? front).bind Headers.parseBlock? with
  | none => simp only [readHeaders, hfind, htake, hparse]
  | some headers =>
      cases hf : headers.framing <;>
        simp only [readHeaders, hfind, htake, hconsume, hparse, hf]

theorem finish?_readHeaders_of_closed {m : Method} {t : Text} {front later : Bytes}
    {r : Request} {rest : Bytes}
    (hclosed : ∀ i < front.length, ¬ Window.Occurs terminator (front ++ terminator) i) :
    (readHeaders m t ⟨front ++ terminator ++ later⟩ 0).finish? = some (r, rest) ↔
      r.method = m ∧ r.target = t ∧ r.version = Request.http11 ∧
        (Utf8.decode? front).bind Headers.parseBlock? = some r.headers ∧
        Headers.Framed r.headers r.body ∧ later = r.payload ++ rest := by
  rcases r with ⟨rm, rt, rv, rh, rb⟩
  rw [readHeaders_of_closed hclosed, Headers.framed_iff]
  cases (Utf8.decode? front).bind Headers.parseBlock? with
  | none => simp [finish?, request?]
  | some headers =>
      cases hf : headers.framing with
      | contradictory =>
          simp only [hf, finish?, request?, Option.map_none, reduceCtorEq, false_iff]
          intro h
          rcases h with ⟨-, -, -, hrh, hframing, -⟩
          obtain rfl := Option.some.inj hrh
          rw [hf] at hframing
          cases rb <;> cases hframing
      | bodiless =>
          simp only [hf, finish?, request?, Option.map_some, Option.some.injEq, Prod.mk.injEq,
            Request.mk.injEq]
          constructor
          · intro h
            rcases h with ⟨⟨rfl, rfl, rfl, rfl, rfl⟩, rfl⟩
            exact ⟨rfl, rfl, rfl, rfl, hf, rfl⟩
          · intro h
            rcases h with ⟨rfl, rfl, rfl, rfl, hframing, rfl⟩
            rw [hf] at hframing
            cases rb with
            | none => exact ⟨⟨rfl, rfl, rfl, rfl, rfl⟩, rfl⟩
            | some body => cases hframing
      | sized n =>
          simp only [hf, finish?_readBody_iff, Request.mk.injEq, Option.some.injEq]
          constructor
          · intro h
            rcases h with ⟨body, rfl, rfl, rfl, rfl, rfl, rfl, rfl⟩
            exact ⟨rfl, rfl, rfl, rfl, hf, rfl⟩
          · intro h
            rcases h with ⟨rfl, rfl, rfl, rfl, hframing, rfl⟩
            rw [hf] at hframing
            cases rb with
            | none => cases hframing
            | some body =>
                obtain rfl := Headers.Framing.sized.inj hframing
                exact ⟨body, rfl, rfl, rfl, rfl, rfl, rfl, rfl⟩

/-- The header block ends before the first terminator; what it says decides about the body. -/
theorem finish?_readHeaders_iff {m : Method} {t : Text} {octets : Bytes} {r : Request}
    {rest : Bytes} :
    (readHeaders m t ⟨octets⟩ 0).finish? = some (r, rest) ↔
      r.method = m ∧ r.target = t ∧ r.version = Request.http11 ∧
        ∃ block, octets = Utf8.encode block ++ terminator ++ (r.payload ++ rest) ∧
          (∀ i < (Utf8.encode block).length,
            ¬ Window.Occurs terminator (Utf8.encode block ++ terminator) i) ∧
          Headers.parseBlock? block = some r.headers ∧ Headers.Framed r.headers r.body := by
  have hne : terminator ≠ [] := by decide
  constructor
  · intro h
    cases hfind : (Window.mk octets).find? terminator 0 with
    | none => simp [readHeaders, hfind, finish?, request?] at h
    | some stop =>
        obtain ⟨front, later, hoctets, -, hclosed⟩ :=
          (Window.find?_zero_eq_some_iff hne).mp hfind
        dsimp only at hoctets
        subst hoctets
        obtain ⟨hm, ht, hv, hparse, hframed, rfl⟩ := (finish?_readHeaders_of_closed hclosed).mp h
        obtain ⟨block, hblock, hfields⟩ := Option.bind_eq_some_iff.mp hparse
        obtain rfl := Utf8.decode?_eq_some_iff.mp hblock
        exact ⟨hm, ht, hv, block, rfl, hclosed, hfields, hframed⟩
  · intro h
    rcases h with ⟨hm, ht, hv, block, rfl, hclosed, hfields, hframed⟩
    apply (finish?_readHeaders_of_closed hclosed).mpr
    refine ⟨hm, ht, hv, ?_, hframed, rfl⟩
    rw [Utf8.decode?_encode, Option.bind_some, hfields]

theorem versionLine_prefix_iff {octets : Bytes} : versionLine <+: octets ↔
    ∃ later, octets = Utf8.encode Request.http11 ++ later ∧ crlf <+: later := by
  have hline : versionLine = Utf8.encode Request.http11 ++ crlf := by decide
  rw [hline]
  constructor
  · intro h
    rcases h with ⟨more, rfl⟩
    exact ⟨crlf ++ more, List.append_assoc .., List.prefix_append crlf more⟩
  · intro h
    rcases h with ⟨later, rfl, hopened⟩
    exact (List.prefix_append_right_inj _).mpr hopened

/-- The line break behind the version is left to the block. -/
theorem readVersion_of_opened {m : Method} {t : Text} {later : Bytes} (h : crlf <+: later) :
    readVersion m t ⟨Utf8.encode Request.http11 ++ later⟩ = readHeaders m t ⟨later⟩ 0 := by
  have hprefix := versionLine_prefix_iff.mpr ⟨later, rfl, h⟩
  have hlength : ¬ (Window.mk (Utf8.encode Request.http11 ++ later)).length < versionLine.length :=
    Nat.not_lt.mpr hprefix.length_le
  have hconsume : (Window.mk (Utf8.encode Request.http11 ++ later)).consume versionLength =
      ⟨later⟩ := rfl
  rw [readVersion, if_neg hlength, if_pos (Window.startsWith_iff.mpr hprefix), hconsume]

theorem readVersion_of_unopened {m : Method} {t : Text} {octets : Bytes}
    (h : ¬ versionLine <+: octets) : readVersion m t ⟨octets⟩ =
      if octets.length < 10 then ⟨⟨octets⟩, .version m t⟩
      else ⟨⟨octets⟩, .malformed (some m)⟩ := by
  rw [readVersion, if_neg (mt Window.startsWith_iff.mp h)]
  rfl

theorem finish?_readVersion_iff {m : Method} {t : Text} {octets : Bytes} {r : Request}
    {rest : Bytes} :
    (readVersion m t ⟨octets⟩).finish? = some (r, rest) ↔
      ∃ later, octets = Utf8.encode Request.http11 ++ later ∧ crlf <+: later ∧
        (readHeaders m t ⟨later⟩ 0).finish? = some (r, rest) := by
  constructor
  · intro h
    by_cases hprefix : versionLine <+: octets
    · obtain ⟨later, rfl, hopened⟩ := versionLine_prefix_iff.mp hprefix
      rw [readVersion_of_opened hopened] at h
      exact ⟨later, rfl, hopened, h⟩
    · rw [readVersion_of_unopened hprefix] at h
      split at h
      · cases h
      · cases h
  · intro h
    rcases h with ⟨later, rfl, hopened, h⟩
    rw [readVersion_of_opened hopened]
    exact h

/-- A target is cut off at its space, whether it can be decoded or not. -/
theorem readTarget_of_cut {m : Method} {front later : Bytes} {b : UInt8}
    (hb : endsTarget b = true) (hfront : ∀ c ∈ front, endsTarget c = false) :
    readTarget m ⟨front ++ b :: later⟩ 0 =
      if b = 32 then
        match Utf8.decode? front with
        | some target => readVersion m target ⟨later⟩
        | none => ⟨⟨front ++ b :: later⟩, .malformed (some m)⟩
      else ⟨⟨front ++ b :: later⟩, .malformed (some m)⟩ := by
  have hfind : (Window.mk (front ++ b :: later)).findWhere? endsTarget 0 = some front.length :=
    Window.findWhere?_zero_eq_some_iff.mpr ⟨front, b, later, rfl, rfl, hb, hfront⟩
  have hget : (Window.mk (front ++ b :: later)).get? front.length = some b := by
    simp [Window.get?]
  have hconsume : (Window.mk (front ++ b :: later)).consume (front.length + 1) = ⟨later⟩ := by
    simp [Window.consume]
  simp only [readTarget, hfind, hget, hconsume, List.take_left]
  exact if_congr (Option.some_inj) rfl rfl

theorem finish?_readTarget_iff {m : Method} {octets : Bytes} {r : Request} {rest : Bytes} :
    (readTarget m ⟨octets⟩ 0).finish? = some (r, rest) ↔
      ∃ t later, octets = Utf8.encode t ++ 32 :: later ∧
        (∀ b ∈ Utf8.encode t, endsTarget b = false) ∧
        (readVersion m t ⟨later⟩).finish? = some (r, rest) := by
  constructor
  · intro h
    cases hfind : (Window.mk octets).findWhere? endsTarget 0 with
    | none => simp [readTarget, hfind, finish?, request?] at h
    | some stop =>
        obtain ⟨front, b, later, hoctets, -, hb, hfront⟩ :=
          Window.findWhere?_zero_eq_some_iff.mp hfind
        dsimp only at hoctets
        subst hoctets
        rw [readTarget_of_cut hb hfront] at h
        split at h
        · rename_i hspace
          subst hspace
          cases hdecode : Utf8.decode? front with
          | none => simp [hdecode, finish?, request?] at h
          | some target =>
              obtain rfl := Utf8.decode?_eq_some_iff.mp hdecode
              rw [hdecode] at h
              exact ⟨target, later, rfl, hfront, h⟩
        · simp [finish?, request?] at h
  · intro h
    rcases h with ⟨target, later, rfl, hfront, h⟩
    rw [readTarget_of_cut (by decide) hfront, if_pos rfl, Utf8.decode?_encode]
    exact h

theorem readMethod_opening_append (m : Method) (later : Bytes) :
    readMethod ⟨opening m ++ later⟩ = readTarget m ⟨later⟩ 0 := by
  rw [readMethod_of_opening (List.prefix_append (opening m) later), Window.consume,
    List.drop_left]

theorem finish?_readMethod_iff {octets : Bytes} {r : Request} {rest : Bytes} :
    (readMethod ⟨octets⟩).finish? = some (r, rest) ↔
      ∃ m later, octets = opening m ++ later ∧
        (readTarget m ⟨later⟩ 0).finish? = some (r, rest) := by
  constructor
  · intro h
    by_cases hopen : ∃ m, opening m <+: octets
    · rcases hopen with ⟨m, later, rfl⟩
      rw [readMethod_opening_append] at h
      exact ⟨m, later, rfl, h⟩
    · have hno : ∀ m, ¬ opening m <+: octets := fun m hm => hopen ⟨m, hm⟩
      by_cases hstart : ∃ m, octets <+: opening m
      · rw [readMethod_of_start hno hstart] at h
        cases h
      · rw [readMethod_of_refused hno hstart] at h
        cases h
  · intro h
    rcases h with ⟨m, later, rfl, h⟩
    rw [readMethod_opening_append]
    exact h

/-! ## The whole request -/

theorem endsTarget_eq_false_iff {b : UInt8} :
    endsTarget b = false ↔ b ≠ 32 ∧ b ≠ 13 ∧ b ≠ 10 := by
  simp [endsTarget, and_assoc]

theorem wire_append {r : Request} {block : Text} (rest : Bytes) :
    wire r block ++ rest = opening r.method ++ (Utf8.encode r.target ++ 32 ::
      (Utf8.encode r.version ++ (Utf8.encode block ++ terminator ++ (r.payload ++ rest)))) := by
  have hterminator : terminator = crlf ++ crlf := rfl
  simp [wire, opening, hterminator]

theorem crlf_prefix_iff {block : Bytes} (more : Bytes) :
    crlf <+: block ++ terminator ++ more ↔ crlf <+: block ++ crlf ++ crlf := by
  have hlength : crlf.length ≤ (block ++ crlf ++ crlf).length := by
    simp only [List.length_append]
    omega
  have hterminator : block ++ terminator = block ++ crlf ++ crlf := by
    rw [List.append_assoc]
    rfl
  rw [hterminator]
  exact Window.prefix_append_iff more hlength

/-- The octets finish a request exactly when they begin with its image, which is then followed by
what is left. -/
theorem finish?_feed_empty_iff {octets : Bytes} {r : Request} {rest : Bytes} :
    (empty.feed octets).finish? = some (r, rest) ↔
      ∃ block, Legible r block ∧ octets = wire r block ++ rest := by
  have hfeed : empty.feed octets = readMethod ⟨octets⟩ := rfl
  rw [hfeed]
  constructor
  · intro h
    obtain ⟨m, behindMethod, hoctets, h⟩ := finish?_readMethod_iff.mp h
    obtain ⟨t, behindTarget, hmethod, htarget, h⟩ := finish?_readTarget_iff.mp h
    obtain ⟨behindVersion, hversion, hopened, h⟩ := finish?_readVersion_iff.mp h
    obtain ⟨rfl, rfl, hv, block, hblock, hclosed, hfields, hframed⟩ :=
      finish?_readHeaders_iff.mp h
    subst hblock
    refine ⟨block, ⟨hv, ?_, ?_, ?_, ?_, hframed⟩, ?_⟩
    · intro b hb
      exact endsTarget_eq_false_iff.mp (htarget b hb)
    · exact (crlf_prefix_iff _).mp hopened
    · rw [List.append_assoc]
      exact hclosed
    · exact Headers.parseBlock?_eq_some_iff.mp hfields
    · rw [wire_append, hoctets, hmethod, hversion, hv]
  · intro h
    rcases h with ⟨block, hlegible, rfl⟩
    have hclosed := hlegible.closed
    rw [List.append_assoc] at hclosed
    rw [wire_append, hlegible.version]
    apply finish?_readMethod_iff.mpr
    refine ⟨_, _, rfl, ?_⟩
    apply finish?_readTarget_iff.mpr
    refine ⟨_, _, rfl, ?_, ?_⟩
    · intro b hb
      exact endsTarget_eq_false_iff.mpr (hlegible.target b hb)
    apply finish?_readVersion_iff.mpr
    refine ⟨_, rfl, (crlf_prefix_iff _).mpr hlegible.opened, ?_⟩
    apply finish?_readHeaders_iff.mpr
    exact ⟨rfl, rfl, hlegible.version, block, rfl, hclosed,
      Headers.parseBlock?_eq_some_iff.mpr hlegible.fields, hlegible.framed⟩

theorem isReady_iff {a : Assembly} : a.isReady = true ↔ ∃ r rest, a.finish? = some (r, rest) := by
  simp only [isReady, finish?, Option.isSome_iff_exists, Option.map_eq_some_iff, Prod.mk.injEq]
  constructor
  · intro h
    rcases h with ⟨r, hr⟩
    exact ⟨r, _, r, hr, rfl, rfl⟩
  · intro h
    rcases h with ⟨r, rest, r', hr, -⟩
    exact ⟨r', hr⟩

/-- The block is what lies between the version and what follows the terminator. -/
theorem block_eq_of_wire_append_eq {r : Request} {block block' : Text} {rest : Bytes}
    (h : wire r block ++ rest = wire r block' ++ rest) : block = block' := by
  rw [wire_append, wire_append] at h
  have h := List.append_cancel_left h
  have h := List.append_cancel_left h
  have h := List.append_cancel_left (List.cons.inj h).2
  rw [List.append_assoc, List.append_assoc] at h
  have hblock := List.append_cancel_right h
  exact Option.some.inj (by rw [← Utf8.decode?_encode block, hblock, Utf8.decode?_encode])

/-- An assembly is ready exactly when the octets begin with the image of a legible request. There
is only one such beginning, and the assembly gives its request and the octets behind it. -/
theorem isReady_feed_empty_iff (octets : Bytes) :
    ((empty.feed octets).isReady = true ↔
        ∃ r block rest, Legible r block ∧ octets = wire r block ++ rest) ∧
      ∀ r block rest, Legible r block → octets = wire r block ++ rest →
        (empty.feed octets).finish? = some (r, rest) ∧
          ∀ r' block' rest', Legible r' block' → octets = wire r' block' ++ rest' →
            r' = r ∧ block' = block ∧ rest' = rest := by
  constructor
  · rw [isReady_iff]
    constructor
    · intro h
      rcases h with ⟨r, rest, h⟩
      obtain ⟨block, hlegible, hoctets⟩ := finish?_feed_empty_iff.mp h
      exact ⟨r, block, rest, hlegible, hoctets⟩
    · intro h
      rcases h with ⟨r, block, rest, hlegible, hoctets⟩
      exact ⟨r, rest, finish?_feed_empty_iff.mpr ⟨block, hlegible, hoctets⟩⟩
  · intro r block rest hlegible hoctets
    have hfinish := finish?_feed_empty_iff.mpr ⟨block, hlegible, hoctets⟩
    refine ⟨hfinish, ?_⟩
    intro r' block' rest' hlegible' hoctets'
    have hfinish' := finish?_feed_empty_iff.mpr ⟨block', hlegible', hoctets'⟩
    rw [hfinish] at hfinish'
    obtain ⟨rfl, rfl⟩ := Prod.mk.inj (Option.some.inj hfinish')
    exact ⟨rfl, block_eq_of_wire_append_eq (hoctets'.symm.trans hoctets), rfl⟩

/-- A letter of two octets in the target, a field, a body, and one octet behind the request. -/
theorem finish?_feed_wire_put :
    let r : Request := ⟨.put, "/é".toList, Request.http11,
      ⟨[("Content-Length".toList, "1".toList)]⟩, some [120]⟩
    let block := "\r\nContent-Length: 1".toList
    Legible r block ∧ (empty.feed (wire r block ++ [71])).finish? = some (r, [71]) := by
  intro r block
  have hfields : List.Forall₂ Headers.Shows (Headers.fieldLines block) r.headers.toList :=
    Headers.parseBlock?_eq_some_iff.mp (by decide)
  have hframed : Headers.Framed r.headers r.body := Headers.framed_iff.mpr (by decide)
  have hscan : (Utf8.encode r.target).all (fun b => !endsTarget b) = true := by decide
  have htarget : ∀ b ∈ Utf8.encode r.target, b ≠ 32 ∧ b ≠ 13 ∧ b ≠ 10 := by
    intro b hb
    apply endsTarget_eq_false_iff.mp
    simpa using List.all_eq_true.mp hscan b hb
  have hlegible : Legible r block :=
    ⟨rfl, htarget, by decide, by decide, hfields, hframed⟩
  exact ⟨hlegible, ((isReady_feed_empty_iff _).2 r block [71] hlegible rfl).1⟩

end HttpExchange.Assembly
