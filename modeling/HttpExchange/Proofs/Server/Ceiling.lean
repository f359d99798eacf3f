import HttpExchange.Proofs.Assembly.Written
import HttpExchange.Proofs.Server.Moments

/-! # The ceiling of a connection

The octets that an assembly was given never pass the ceiling, those carried over from the request
before it included, so no request that is dispatched does. The count that is held against the
ceiling is one of octets that were read, though: what comes behind a request in its last read is
counted with it, and a request that would pass alone is then rejected. -/

namespace HttpExchange.Server.Connection

open Assembly (Legible wire)

variable {limits : Limits} {handler : Handler}

/-! ## No assembly passes the ceiling -/

theorem Reached.length_pieces {m : Moment} (h : Reached limits handler m) :
    m.pieces.flatten.length = m.received := by
  induction h with
  | start => rfl
  | take h hwaits hne hsize ih => simp [Moment.take, ih]
  | dispatch h hfinish hopen ih => simp [Moment.dispatch]

theorem Moment.exists_wire {m : Moment} {r : Request} {rest : Bytes}
    (h : m.assembly.finish? = some (r, rest)) :
    ∃ block, Legible r block ∧ m.pieces.flatten = wire r block ++ rest := by
  rw [m.finish?_assembly] at h
  exact Assembly.finish?_feed_empty_iff.mp h

theorem Reached.received_le {m : Moment} (h : Reached limits handler m) :
    m.received ≤ limits.maxRequestBytes := by
  induction h with
  | start => exact Nat.zero_le _
  | take h hwaits hne hsize ih => exact hsize
  | @dispatch m h r rest hfinish hopen ih =>
      -- what is carried over was counted before
      obtain ⟨block, -, hoctets⟩ := Moment.exists_wire hfinish
      have hlength := h.length_pieces
      rw [hoctets, List.length_append] at hlength
      change rest.length ≤ limits.maxRequestBytes
      omega

theorem Reached.length_wire_le {m : Moment} (h : Reached limits handler m) {r : Request}
    {block : Text} {rest : Bytes} (hoctets : m.pieces.flatten = wire r block ++ rest) :
    (wire r block).length ≤ limits.maxRequestBytes := by
  calc (wire r block).length
      ≤ m.pieces.flatten.length := by
        rw [hoctets, List.length_append]
        exact Nat.le_add_right _ _
    _ = m.received := h.length_pieces
    _ ≤ limits.maxRequestBytes := h.received_le

/-- At every moment the octets of the assembly are the ones that are counted, and are no more than
the ceiling. Every run goes up to such a moment and is left there as the octets of the assembly then
call for: it waits, it ends with a response or in silence, it refuses octets that no request begins
with, or it refuses a read that would pass the ceiling, before the assembly is given it. Every
response was given at such a moment, to a request with at most that many octets. -/
theorem received_le_maxRequestBytes (limits : Limits) (handler : Handler)
    (events : List Event) :
    (∀ m, Reached limits handler m →
      m.pieces.flatten.length = m.received ∧ m.received ≤ limits.maxRequestBytes) ∧
    (∃ m more last, Reached limits handler m ∧ events = m.events ++ more ∧
      m.Ends limits handler more last ∧
      serve limits handler [] opened events = (m.written ++ last.1, last.2)) ∧
    ∀ front r response back,
      (serve limits handler [] opened events).1 = front ++ .response r response :: back →
      ∃ m block rest, Reached limits handler m ∧ m.events <+: events ∧ m.written = front ∧
        Legible r block ∧ m.pieces.flatten = wire r block ++ rest ∧
        (wire r block).length ≤ limits.maxRequestBytes := by
  have hcourse := course_serve limits handler events
  refine ⟨fun m h => ⟨h.length_pieces, h.received_le⟩, ?_, ?_⟩
  · generalize serve limits handler [] opened events = out at hcourse
    cases hcourse with
    | @intro m hreached more last hends => exact ⟨m, more, last, hreached, rfl, hends, rfl⟩
  · intro front r response back heq
    obtain ⟨m, rest, hreached, hevents, hwritten, hfinish, -⟩ := hcourse.exists_of_response heq
    obtain ⟨block, hlegible, hoctets⟩ := Moment.exists_wire hfinish
    exact ⟨m, block, rest, hreached, hevents, hwritten, hlegible, hoctets,
      hreached.length_wire_le hoctets⟩

/-- Two requests in one read, the second one answered from what was carried over, and then a read
that is too large, though its first octet alone is malformed. -/
theorem received_le_maxRequestBytes_two_gets :
    let limits : Limits := { Limits.standard with maxRequestBytes := 40 }
    let handler : Handler := fun _ r => (Response.new .ok).withText r.target
    let a : Request := ⟨.get, "/a".toList, Request.http11, .empty, none⟩
    let b : Request := ⟨.get, "/b".toList, Request.http11, .empty, none⟩
    let written : List Write := [.response a (respond (handler []) a),
      .response b (respond (handler [a]) b), .rejection Rejection.tooLarge.response]
    let events : List Event :=
      [.octets (Utf8.encode "GET /a HTTP/1.1\r\n\r\nGET /b HTTP/1.1\r\n\r\n".toList),
        .octets (List.replicate 41 32)]
    serve limits handler [] opened events = (written, closed) ∧
      (∃ m more last, Reached limits handler m ∧ events = m.events ++ more ∧
        m.Ends limits handler more last ∧
        serve limits handler [] opened events = (m.written ++ last.1, last.2)) ∧
      ∃ m block rest, Reached limits handler m ∧ m.events <+: events ∧
        m.written = [.response a (respond (handler []) a)] ∧ Legible b block ∧
        m.pieces.flatten = wire b block ++ rest ∧ (wire b block).length ≤ 40 := by
  intro limits handler a b written events
  have hserve : serve limits handler [] opened events = (written, closed) := by decide +kernel
  have hbound := received_le_maxRequestBytes limits handler events
  have hwritten : (serve limits handler [] opened events).1 =
      [.response a (respond (handler []) a)] ++ .response b (respond (handler [a]) b) ::
        [.rejection Rejection.tooLarge.response] := congrArg Prod.fst hserve
  exact ⟨hserve, hbound.2.1, hbound.2.2 _ _ _ _ hwritten⟩

/-! ## What is counted for a request -/

theorem Moment.response_prefix_answer {m : Moment} {r : Request} {rest : Bytes}
    (h : m.assembly.finish? = some (r, rest)) :
    [.response r (m.response handler r)] <+: (m.answer handler).1 := by
  by_cases hopen : (m.response handler r).keepAlive = true
  · exact ⟨_, (congrArg Prod.fst (Moment.answer_of_open h hopen)).symm⟩
  · exact ⟨[], (congrArg Prod.fst (answer_of_ended h hopen m.received)).symm⟩

/-- A part of a request that is too short for it is waited upon. -/
theorem Moment.waits_of_lt {m : Moment} {r : Request} {block : Text} {rest more : Bytes}
    (hlegible : Legible r block) (hoctets : m.pieces.flatten ++ more = wire r block ++ rest)
    (hlt : m.pieces.flatten.length < (wire r block).length) : m.Waits := by
  have hwhole : (Assembly.empty.feed (m.pieces.flatten ++ more)).finish? = some (r, rest) :=
    Assembly.finish?_feed_empty_iff.mpr ⟨block, hlegible, hoctets⟩
  constructor
  · rw [m.finish?_assembly, Option.eq_none_iff_forall_ne_some]
    rintro ⟨r', rest'⟩ hfinish
    -- the rest would grow by the octets that are missing, and these are a part of the request
    have hmore := Assembly.finish?_feed_append hfinish more
    rw [hwhole] at hmore
    obtain ⟨rfl, rfl⟩ := Prod.mk.inj (Option.some.inj hmore)
    have hlength := congrArg List.length hoctets
    simp only [List.length_append] at hlength
    omega
  · have hsound : (Assembly.empty.feed m.pieces.flatten).isMalformed = false := by
      rw [Bool.eq_false_iff]
      intro hm
      have hmore := Assembly.finish?_of_malformed (Assembly.isMalformed_feed_append hm more)
      rw [hwhole] at hmore
      cases hmore
    rw [← Assembly.isMalformed_core, m.core_assembly, Assembly.isMalformed_core, hsound]

def Moment.takeAll (m : Moment) (reads : List Bytes) : Moment :=
  ⟨m.events ++ reads.map .octets, m.written, m.pieces ++ reads, m.received + reads.flatten.length⟩

theorem Moment.takeAll_cons (m : Moment) (b : Bytes) (reads : List Bytes) :
    m.takeAll (b :: reads) = (m.take b).takeAll reads := by
  simp [takeAll, take, Nat.add_assoc]

/-- The reads bring the octets of a request, and what stands behind it, and the request lacks some
of its octets before the last of them. -/
structure Brings (m : Moment) (reads : List Bytes) (r : Request) (block : Text) (rest : Bytes) :
    Prop where
  nonempty : ∀ b ∈ reads, b ≠ []
  legible : Legible r block
  octets : (m.pieces ++ reads).flatten = wire r block ++ rest
  needed : reads ≠ [] → (m.pieces ++ reads.dropLast).flatten.length < (wire r block).length

namespace Brings

variable {m : Moment} {b : Bytes} {reads : List Bytes} {r : Request} {block : Text} {rest : Bytes}

theorem waits (h : Brings m (b :: reads) r block rest) : m.Waits := by
  have hoctets := h.octets
  have hneeded := h.needed (List.cons_ne_nil b reads)
  rw [List.flatten_append] at hoctets
  rw [List.flatten_append, List.length_append] at hneeded
  exact Moment.waits_of_lt h.legible hoctets (by omega)

theorem take (h : Brings m (b :: reads) r block rest) : Brings (m.take b) reads r block rest := by
  refine ⟨fun c hc => h.nonempty c (List.mem_cons_of_mem b hc), h.legible, ?_, ?_⟩
  · simpa [Moment.take] using h.octets
  · intro hne
    have hneeded := h.needed (List.cons_ne_nil b reads)
    rw [List.dropLast_cons_of_ne_nil hne] at hneeded
    simpa [Moment.take] using hneeded

theorem reached (h : Brings m reads r block rest) (hreached : Reached limits handler m)
    (hsize : m.received + reads.flatten.length ≤ limits.maxRequestBytes) :
    Reached limits handler (m.takeAll reads) := by
  induction reads generalizing m with
  | nil => simpa [Moment.takeAll] using hreached
  | cons b reads ih =>
      rw [List.flatten_cons, List.length_append] at hsize
      have hnext := hreached.take h.waits (h.nonempty b List.mem_cons_self) (by omega)
      rw [Moment.takeAll_cons]
      exact ih h.take hnext (by simpa [Moment.take, Nat.add_assoc] using hsize)

theorem finish?_takeAll (h : Brings m reads r block rest) :
    (m.takeAll reads).assembly.finish? = some (r, rest) := by
  rw [Moment.finish?_assembly]
  exact Assembly.finish?_feed_empty_iff.mpr ⟨block, h.legible, h.octets⟩

theorem dispatched (h : Brings m reads r block rest) (hreached : Reached limits handler m)
    (hsize : m.received + reads.flatten.length ≤ limits.maxRequestBytes) :
    m.written ++ [.response r (m.response handler r)] <+:
      (serve limits handler [] opened (m.events ++ reads.map .octets)).1 := by
  have hserve := congrArg Prod.fst (h.reached hreached hsize).serve_eq
  have hanswer : [.response r (m.response handler r)] <+: ((m.takeAll reads).answer handler).1 :=
    Moment.response_prefix_answer h.finish?_takeAll
  exact ((List.prefix_append_right_inj m.written).mpr hanswer).trans
    (hserve ▸ List.prefix_refl _)

theorem rejected (h : Brings m reads r block rest) (hreached : Reached limits handler m)
    (hsize : limits.maxRequestBytes < m.received + reads.flatten.length) :
    (serve limits handler [] opened (m.events ++ reads.map .octets)).1 =
      m.written ++ [.rejection Rejection.tooLarge.response] := by
  induction reads generalizing m with
  | nil => exact absurd hreached.received_le (Nat.not_le.mpr hsize)
  | cons b reads ih =>
      have hne := h.nonempty b List.mem_cons_self
      rw [List.flatten_cons, List.length_append, ← Nat.add_assoc] at hsize
      rcases Nat.lt_or_ge limits.maxRequestBytes (m.received + b.length) with hb | hb
      · exact congrArg Prod.fst
          (Course.intro hreached (.tooLarge h.waits hne hb (reads.map .octets))).execution
      · have hrest := ih h.take (hreached.take h.waits hne hb) hsize
        simpa [Moment.take] using hrest

end Brings

/-- A request that arrives whole is dispatched if the octets that were read up to its end, those
behind it in the same read included, are no more than the ceiling, and is rejected otherwise,
however small it is itself. -/
theorem Reached.dispatched_iff {m : Moment} (h : Reached limits handler m) {reads : List Bytes}
    {r : Request} {block : Text} {rest : Bytes} (hbrings : Brings m reads r block rest) :
    let written := (serve limits handler [] opened (m.events ++ reads.map .octets)).1
    let counted := (wire r block).length + rest.length
    (m.written ++ [.response r (m.response handler r)] <+: written ↔
        counted ≤ limits.maxRequestBytes) ∧
      (written = m.written ++ [.rejection Rejection.tooLarge.response] ↔
        limits.maxRequestBytes < counted) := by
  intro written counted
  have hcounted : m.received + reads.flatten.length = counted := by
    have hlength := congrArg List.length hbrings.octets
    rwa [List.flatten_append, List.length_append, List.length_append, h.length_pieces] at hlength
  have hdistinct : m.written ++ [.response r (m.response handler r)] <+: written →
      written ≠ m.written ++ [.rejection Rejection.tooLarge.response] := by
    intro hprefix heq
    rw [heq, List.prefix_append_right_inj] at hprefix
    cases (List.cons_prefix_cons.mp hprefix).1
  rcases Nat.lt_or_ge limits.maxRequestBytes counted with hsize | hsize
  · have hrejected := hbrings.rejected h (hcounted ▸ hsize)
    exact ⟨iff_of_false (fun hprefix => hdistinct hprefix hrejected) (Nat.not_le.mpr hsize),
      iff_of_true hrejected hsize⟩
  · have hdispatched := hbrings.dispatched h (hcounted.trans_le hsize)
    exact ⟨iff_of_true hdispatched hsize,
      iff_of_false (hdistinct hdispatched) (Nat.not_lt.mpr hsize)⟩

/-- With a ceiling just above one request, two of them in one read are both refused. -/
example :
    let limits : Limits := { Limits.standard with maxRequestBytes := 20 }
    let get := Utf8.encode "GET /a HTTP/1.1\r\n\r\n".toList
    (serve limits (fun _ _ => .new .ok) [] opened [.octets (get ++ get)]).1 =
      [.rejection Rejection.tooLarge.response] := by
  decide +kernel

end HttpExchange.Server.Connection
