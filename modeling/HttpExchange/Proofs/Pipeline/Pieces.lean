import HttpExchange.Http.Pipeline
import HttpExchange.Proofs.Assembly.Grammar

/-! # Requests behind each other

A pipeline finishes the requests that the octets hold, whatever pieces they came in: each request
has a segment of the octets to itself, and what is left behind the last segment is in the making. -/

namespace HttpExchange.Pipeline

/-- A pipeline whose assembly holds nothing that is of no account. -/
def core (p : Pipeline) : Pipeline := ⟨p.finished, p.current.core⟩

/-- The requests that were finished before. -/
def after (requests : List Request) (p : Pipeline) : Pipeline :=
  ⟨requests ++ p.finished, p.current⟩

/-! ## One step -/

theorem ofBytes_of_none {octets : Bytes} (h : (Assembly.empty.feed octets).finish? = none) :
    ofBytes octets = ⟨[], Assembly.empty.feed octets⟩ := by
  rw [ofBytes]
  split
  · rfl
  · rename_i heq
    rw [h] at heq
    cases heq

theorem ofBytes_of_some {octets rest : Bytes} {r : Request}
    (h : (Assembly.empty.feed octets).finish? = some (r, rest)) :
    ofBytes octets = (ofBytes rest).after [r] := by
  rw [ofBytes]
  split
  · rename_i heq
    rw [h] at heq
    cases heq
  · rename_i heq
    rw [h] at heq
    obtain ⟨rfl, rfl⟩ := Prod.mk.inj (Option.some.inj heq)
    rfl

theorem feed_of_none {p : Pipeline} {piece : Bytes} (h : (p.current.feed piece).finish? = none) :
    p.feed piece = ⟨p.finished, p.current.feed piece⟩ := by
  simp only [feed, h]

theorem feed_of_some {p : Pipeline} {piece rest : Bytes} {r : Request}
    (h : (p.current.feed piece).finish? = some (r, rest)) :
    p.feed piece = (ofBytes rest).after (p.finished ++ [r]) := by
  simp [feed, h, after]

theorem feed_after (requests : List Request) (p : Pipeline) (piece : Bytes) :
    (p.after requests).feed piece = (p.feed piece).after requests := by
  cases h : (p.current.feed piece).finish? with
  | none => simp only [feed, after, h]
  | some taken => simp only [feed, after, h, List.append_assoc]

theorem core_after (requests : List Request) (p : Pipeline) :
    (p.after requests).core = p.core.after requests := rfl

theorem core_feed_congr {p q : Pipeline} (h : p.core = q.core) (piece : Bytes) :
    (p.feed piece).core = (q.feed piece).core := by
  rcases p with ⟨finished, a⟩
  rcases q with ⟨finished', b⟩
  obtain ⟨rfl, hcurrent⟩ := Pipeline.mk.inj h
  have hcore := Assembly.core_feed_congr hcurrent piece
  have hfinish := Assembly.finish?_eq_of_core_eq hcore
  cases hb : (b.feed piece).finish? with
  | none =>
      rw [feed_of_none (hfinish.trans hb), feed_of_none hb]
      exact congrArg (Pipeline.mk _) hcore
  | some taken => rw [feed_of_some (hfinish.trans hb), feed_of_some hb]

theorem core_feedAll_congr {p q : Pipeline} (h : p.core = q.core) (pieces : List Bytes) :
    (p.feedAll pieces).core = (q.feedAll pieces).core := by
  induction pieces generalizing p q with
  | nil => exact h
  | cons piece pieces ih => exact ih (core_feed_congr h piece)

/-! ## Any number of pieces -/

/-- A further piece shows what the octets show when they come with it. -/
theorem core_ofBytes_feed (octets more : Bytes) :
    ((ofBytes octets).feed more).core = (ofBytes (octets ++ more)).core := by
  induction octets using ofBytes.induct with
  | case1 octets a h =>
      have hcore := Assembly.core_feed_feed octets more
      have hfinish := Assembly.finish?_eq_of_core_eq hcore
      rw [ofBytes_of_none h]
      cases hmore : (Assembly.empty.feed (octets ++ more)).finish? with
      | none =>
          rw [feed_of_none (hfinish.trans hmore), ofBytes_of_none hmore]
          exact congrArg (Pipeline.mk _) hcore
      | some taken =>
          rw [feed_of_some (hfinish.trans hmore), ofBytes_of_some hmore]
          rfl
  | case2 octets a r rest h ih =>
      rw [ofBytes_of_some h, ofBytes_of_some (Assembly.finish?_feed_append h more), feed_after,
        core_after, core_after, ih]

theorem core_feedAll_ofBytes (octets : Bytes) (pieces : List Bytes) :
    ((ofBytes octets).feedAll pieces).core = (ofBytes (octets ++ pieces.flatten)).core := by
  induction pieces generalizing octets with
  | nil => simp [feedAll]
  | cons piece pieces ih =>
      rw [List.flatten_cons, ← List.append_assoc, ← ih]
      exact core_feedAll_congr (core_ofBytes_feed octets piece) pieces

theorem ofBytes_nil : ofBytes [] = empty := ofBytes_of_none rfl

theorem core_feedAll (pieces : List Bytes) :
    (empty.feedAll pieces).core = (ofBytes pieces.flatten).core := by
  rw [← ofBytes_nil, core_feedAll_ofBytes, List.nil_append]

/-! ## The octets of each request -/

/-- A finished request has the octets before the rest to itself. -/
theorem exists_segment {octets rest : Bytes} {r : Request}
    (h : (Assembly.empty.feed octets).finish? = some (r, rest)) :
    ∃ segment, octets = segment ++ rest ∧ segment ≠ [] ∧
      (Assembly.empty.feed segment).finish? = some (r, []) := by
  obtain ⟨block, hlegible, hoctets⟩ := Assembly.finish?_feed_empty_iff.mp h
  refine ⟨Assembly.wire r block, hoctets, ?_, ?_⟩
  · simp [Assembly.wire]
  · exact Assembly.finish?_feed_empty_iff.mpr ⟨block, hlegible, (List.append_nil _).symm⟩

theorem exists_segments (octets : Bytes) :
    ∃ segments remainder, octets = segments.flatten ++ remainder ∧
      List.Forall₂ (fun segment r =>
        segment ≠ [] ∧ (Assembly.empty.feed segment).finish? = some (r, []))
        segments (ofBytes octets).finished ∧
      (ofBytes octets).current = Assembly.empty.feed remainder := by
  induction octets using ofBytes.induct with
  | case1 octets a h =>
      rw [ofBytes_of_none h]
      exact ⟨[], octets, rfl, .nil, rfl⟩
  | case2 octets a r rest h ih =>
      obtain ⟨segment, hoctets, hne, hsegment⟩ := exists_segment h
      rcases ih with ⟨segments, remainder, hrest, hall, hcurrent⟩
      rw [ofBytes_of_some h]
      refine ⟨segment :: segments, remainder, ?_, .cons ⟨hne, hsegment⟩ hall, hcurrent⟩
      rw [hoctets, hrest, List.flatten_cons, List.append_assoc]

/-- Further octets add to the finished requests. -/
theorem finished_ofBytes_prefix (octets more : Bytes) :
    (ofBytes octets).finished <+: (ofBytes (octets ++ more)).finished := by
  induction octets using ofBytes.induct with
  | case1 octets a h =>
      rw [ofBytes_of_none h]
      exact List.nil_prefix
  | case2 octets a r rest h ih =>
      rw [ofBytes_of_some h, ofBytes_of_some (Assembly.finish?_feed_append h more)]
      exact (List.prefix_append_right_inj [r]).mpr ih

theorem finished_eq_of_core_eq {p q : Pipeline} (h : p.core = q.core) :
    p.finished = q.finished := (Pipeline.mk.inj h).1

theorem agree_of_core_eq {p q : Pipeline} (h : p.core = q.core) :
    Assembly.Agree p.current q.current := Assembly.agree_of_core_eq (Pipeline.mk.inj h).2

theorem finish?_current_ofBytes (octets : Bytes) : (ofBytes octets).current.finish? = none := by
  induction octets using ofBytes.induct with
  | case1 octets a h =>
      rw [ofBytes_of_none h]
      exact h
  | case2 octets a r rest h ih =>
      rw [ofBytes_of_some h]
      exact ih

/-- However octets are cut into pieces, the same requests are finished and the assembly behind
them answers alike. The octets are one segment for each request, which finishes this request and
nothing else, and a remainder, which finishes none and is what the last assembly has taken. More
octets only add requests. -/
theorem segments_feedAll (octets : Bytes) (pieces : List Bytes) (h : pieces.flatten = octets) :
    ((empty.feedAll pieces).finished = (empty.feed octets).finished ∧
        Assembly.Agree (empty.feedAll pieces).current (empty.feed octets).current) ∧
      (∃ segments remainder, octets = segments.flatten ++ remainder ∧
        List.Forall₂ (fun segment r =>
          segment ≠ [] ∧ (Assembly.empty.feed segment).finish? = some (r, []))
          segments (empty.feedAll pieces).finished ∧
        Assembly.Agree (Assembly.empty.feed remainder) (empty.feedAll pieces).current ∧
        (empty.feedAll pieces).current.finish? = none) ∧
      ∀ more others, others.flatten = octets ++ more →
        (empty.feedAll pieces).finished <+: (empty.feedAll others).finished := by
  have hrun : (empty.feedAll pieces).core = (ofBytes octets).core := by rw [core_feedAll, h]
  have hwhole : (empty.feed octets).core = (ofBytes octets).core := by
    have hone := core_feedAll [octets]
    rwa [List.flatten_cons, List.flatten_nil, List.append_nil] at hone
  have hfinished := finished_eq_of_core_eq hrun
  refine ⟨?_, ?_, ?_⟩
  · exact ⟨finished_eq_of_core_eq (hrun.trans hwhole.symm),
      agree_of_core_eq (hrun.trans hwhole.symm)⟩
  · obtain ⟨segments, remainder, hoctets, hall, hcurrent⟩ := exists_segments octets
    refine ⟨segments, remainder, hoctets, ?_, ?_, ?_⟩
    · rw [hfinished]
      exact hall
    · rw [← hcurrent]
      exact agree_of_core_eq hrun.symm
    · rw [Assembly.finish?_eq_of_core_eq (Pipeline.mk.inj hrun).2]
      exact finish?_current_ofBytes octets
  · intro more others hothers
    have hmore : (empty.feedAll others).core = (ofBytes (octets ++ more)).core := by
      rw [core_feedAll, hothers]
    rw [hfinished, finished_eq_of_core_eq hmore]
    exact finished_ofBytes_prefix octets more

/-- Two requests and the start of a third, cut within each of them. -/
theorem feedAll_three_gets :
    let octets := Utf8.encode "GET /a HTTP/1.1\r\n\r\nGET /b HTTP/1.1\r\n\r\nGET /c".toList
    let pieces := [Utf8.encode "GET /a HTTP/1.1\r\n\r".toList, [],
      Utf8.encode "\nGET /b HTTP/1.1\r\n\r\nGE".toList, Utf8.encode "T /c".toList]
    let a : Request := ⟨.get, "/a".toList, Request.http11, .empty, none⟩
    let b : Request := ⟨.get, "/b".toList, Request.http11, .empty, none⟩
    pieces.flatten = octets ∧
      (empty.feedAll pieces).finished = (empty.feed octets).finished ∧
      (empty.feed octets).finished = [a, b] := by
  intro octets pieces a b
  have hpieces : pieces.flatten = octets := by decide
  have hfinished : (empty.feed octets).finished = [a, b] := by decide +kernel
  exact ⟨hpieces, (segments_feedAll octets pieces hpieces).1.1, hfinished⟩

end HttpExchange.Pipeline
