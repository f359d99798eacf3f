import HttpExchange.Http.Assembly
import HttpExchange.Proofs.Window.Search

/-! # Octets in pieces

What an assembly shows depends on the octets it was given and not on the pieces they came in.
Each part is read alike whether its octets came at once or in two pieces, whatever was scanned in
between; a run over any pieces then shows what one piece with the same octets shows. -/

namespace HttpExchange.Assembly

/-- An assembly without the octets that a malformed one still holds. No later step reads them, and
nothing that may be asked of an assembly depends on them. -/
def core (a : Assembly) : Assembly :=
  match a.stage with
  | .malformed m => ⟨.empty, .malformed m⟩
  | _ => a

/-- Two assemblies answer alike. The octets behind a malformed stage are not asked for. -/
structure Agree (a b : Assembly) : Prop where
  isReady : a.isReady = b.isReady
  isMalformed : a.isMalformed = b.isMalformed
  method : a.method? = b.method?
  request : a.request? = b.request?
  window : a.isMalformed = false → a.window = b.window
  finish : a.finish? = b.finish?

/-! ## What an assembly shows -/

theorem request?_core (a : Assembly) : a.core.request? = a.request? := by
  rcases a with ⟨w, stage⟩
  cases stage <;> rfl

theorem isMalformed_core (a : Assembly) : a.core.isMalformed = a.isMalformed := by
  rcases a with ⟨w, stage⟩
  cases stage <;> rfl

theorem method?_core (a : Assembly) : a.core.method? = a.method? := by
  rcases a with ⟨w, stage⟩
  cases stage <;> rfl

theorem finish?_core (a : Assembly) : a.core.finish? = a.finish? := by
  rcases a with ⟨w, stage⟩
  cases stage <;> rfl

theorem finish?_of_malformed {a : Assembly} (h : a.isMalformed = true) : a.finish? = none := by
  rcases a with ⟨w, stage⟩
  cases stage with
  | malformed m => rfl
  | _ => cases h

theorem core_of_not_malformed {a : Assembly} (h : a.isMalformed = false) : a.core = a := by
  rcases a with ⟨w, stage⟩
  cases stage with
  | malformed m => cases h
  | _ => rfl

theorem eq_of_core_eq {a b : Assembly} (h : a.core = b.core) (ha : a.isMalformed = false) :
    a = b := by
  have hb : b.isMalformed = false := by
    rw [← isMalformed_core, ← h, isMalformed_core, ha]
  rwa [core_of_not_malformed ha, core_of_not_malformed hb] at h

theorem finish?_eq_of_core_eq {a b : Assembly} (h : a.core = b.core) : a.finish? = b.finish? := by
  rw [← finish?_core a, h, finish?_core]

theorem agree_of_core_eq {a b : Assembly} (h : a.core = b.core) : Agree a b := by
  have hreq : a.request? = b.request? := by rw [← request?_core a, h, request?_core]
  refine ⟨?_, ?_, ?_, hreq, ?_, finish?_eq_of_core_eq h⟩
  · rw [isReady, isReady, hreq]
  · rw [← isMalformed_core a, h, isMalformed_core]
  · rw [← method?_core a, h, method?_core]
  · intro ha
    rw [eq_of_core_eq h ha]

/-- A malformed assembly takes no octets, so its own are of no account. -/
theorem core_feed_core (a : Assembly) (piece : Bytes) :
    (a.core.feed piece).core = (a.feed piece).core := by
  rcases a with ⟨w, stage⟩
  cases stage <;> rfl

theorem core_feed_congr {a b : Assembly} (h : a.core = b.core) (piece : Bytes) :
    (a.feed piece).core = (b.feed piece).core := by
  rw [← core_feed_core a, h, core_feed_core]

theorem isMalformed_feed {a : Assembly} (h : a.isMalformed = true) (piece : Bytes) :
    (a.feed piece).isMalformed = true := by
  rcases a with ⟨w, stage⟩
  cases stage with
  | malformed m => rfl
  | _ => cases h

/-! ## Each part in two pieces -/

theorem feed_readBody (m : Method) (t : Text) (h : Headers) (n : Nat) (w : Window)
    (more : Bytes) : (readBody m t h n w).feed more = readBody m t h n (w.extend more) := by
  by_cases hn : n ≤ w.length
  · have hn' : n ≤ (w.extend more).length := by
      rw [Window.length_extend]
      omega
    simp only [readBody, Window.splitTo?, if_pos hn, if_pos hn', feed,
      Window.consume_extend more hn, Window.take_extend more hn]
  · simp only [readBody, Window.splitTo?, if_neg hn, feed]

theorem core_feed_readHeaders (m : Method) (t : Text) {w : Window} {scanned : Nat}
    (more : Bytes) (hs : scanned ≤ w.length - 3) :
    ((readHeaders m t w scanned).feed more).core =
      (readHeaders m t (w.extend more) scanned).core := by
  have hne : terminator ≠ [] := by decide
  cases hfind : w.find? terminator scanned with
  | none =>
      have hresume := Window.find?_extend_of_eq_none more hne hfind hs
      change (w.extend more).find? terminator (w.length - 3) = _ at hresume
      simp only [readHeaders, hfind, feed, hresume]
  | some stop =>
      have hend : stop + 4 ≤ w.length :=
        ((Window.find?_eq_some_iff hne).mp hfind).1.2.add_length_le hne
      have hmore := Window.find?_extend_of_eq_some more hne hfind
      have hblock := Window.take_extend more (show stop ≤ w.length by omega)
      simp only [readHeaders, hfind, hmore, hblock, Window.consume_extend more hend]
      cases (Utf8.decode? (w.toList.take stop)).bind Headers.parseBlock? with
      | none => rfl
      | some headers =>
          cases hf : headers.framing with
          | contradictory => simp only [hf]; rfl
          | bodiless => simp only [hf, feed]
          | sized length => simp only [hf, feed_readBody]

theorem core_feed_readVersion (m : Method) (t : Text) (w : Window) (more : Bytes) :
    ((readVersion m t w).feed more).core = (readVersion m t (w.extend more)).core := by
  by_cases hshort : w.length < versionLine.length
  · simp only [readVersion, if_pos hshort, feed]
  · have hlong : ¬ (w.extend more).length < versionLine.length := by
      rw [Window.length_extend]
      omega
    have hlength : versionLength ≤ w.length := by
      have : versionLength ≤ versionLine.length := by decide
      omega
    have hstarts := Window.startsWith_extend more (Nat.le_of_not_lt hshort)
    simp only [readVersion, if_neg hshort, if_neg hlong, hstarts,
      Window.consume_extend more hlength]
    split
    · exact core_feed_readHeaders m t more (Nat.zero_le _)
    · rfl

theorem core_feed_readTarget (m : Method) {w : Window} {scanned : Nat} (more : Bytes)
    (hs : scanned ≤ w.length) :
    ((readTarget m w scanned).feed more).core = (readTarget m (w.extend more) scanned).core := by
  cases hfind : w.findWhere? endsTarget scanned with
  | none =>
      have hresume := Window.findWhere?_extend_of_eq_none more hfind hs
      simp only [readTarget, hfind, feed, hresume]
  | some stop =>
      have hstop : stop < w.length := (Window.findWhere?_eq_some_iff.mp hfind).1.2.lt_length
      have hmore := Window.findWhere?_extend_of_eq_some more hfind
      have htarget := Window.take_extend more hstop.le
      have hget : (w.extend more).get? stop = w.get? stop := List.getElem?_append_left hstop
      simp only [readTarget, hfind, hmore, hget, htarget, Window.consume_extend more hstop]
      split
      · cases Utf8.decode? (w.toList.take stop) with
        | none => rfl
        | some target => exact core_feed_readVersion m target _ more
      · rfl

/-! ## The first part -/

/-- No octets open a request with two methods. -/
theorem eq_of_opening_prefix {m n : Method} {octets : Bytes} (hm : opening m <+: octets)
    (hn : opening n <+: octets) : m = n := by
  have hfree : ∀ m ∈ Method.all, ∀ n ∈ Method.all, opening m <+: opening n → m = n := by decide
  rcases List.prefix_or_prefix_of_prefix hm hn with h | h
  · exact hfree m m.mem_all n n.mem_all h
  · exact (hfree n n.mem_all m m.mem_all h).symm

theorem readMethod_of_opening {m : Method} {w : Window} (h : opening m <+: w.toList) :
    readMethod w = readTarget m (w.consume (opening m).length) 0 := by
  cases hfind : Method.all.find? fun n => w.startsWith (opening n) with
  | none =>
      have hno := List.find?_eq_none.mp hfind m m.mem_all
      exact absurd (Window.startsWith_iff.mpr h) hno
  | some n =>
      have hstarts : w.startsWith (opening n) = true := by simpa using List.find?_some hfind
      obtain rfl := eq_of_opening_prefix h (Window.startsWith_iff.mp hstarts)
      simp only [readMethod, hfind]

theorem find?_opening_eq_none {w : Window} (h : ∀ m, ¬ opening m <+: w.toList) :
    (Method.all.find? fun m => w.startsWith (opening m)) = none := by
  rw [List.find?_eq_none]
  intro m _ hm
  exact h m (Window.startsWith_iff.mp hm)

theorem any_prefix_opening_iff {w : Window} :
    (Method.all.any fun m => w.toList.isPrefixOf (opening m)) = true ↔
      ∃ m, w.toList <+: opening m := by
  simp only [List.any_eq_true, List.isPrefixOf_iff_prefix, Method.mem_all, true_and]

/-- The start of an opening waits for the rest of it. -/
theorem readMethod_of_start {w : Window} (h : ∀ m, ¬ opening m <+: w.toList)
    (hstart : ∃ m, w.toList <+: opening m) : readMethod w = ⟨w, .method⟩ := by
  simp only [readMethod, find?_opening_eq_none h, if_pos (any_prefix_opening_iff.mpr hstart)]

theorem readMethod_of_refused {w : Window} (h : ∀ m, ¬ opening m <+: w.toList)
    (hstart : ¬ ∃ m, w.toList <+: opening m) : readMethod w = ⟨w, .malformed none⟩ := by
  simp only [readMethod, find?_opening_eq_none h,
    if_neg (fun hany => hstart (any_prefix_opening_iff.mp hany))]

theorem core_feed_readMethod (w : Window) (more : Bytes) :
    ((readMethod w).feed more).core = (readMethod (w.extend more)).core := by
  by_cases hopen : ∃ m, opening m <+: w.toList
  · rcases hopen with ⟨m, hm⟩
    have hmore : opening m <+: (w.extend more).toList := hm.trans (List.prefix_append _ _)
    rw [readMethod_of_opening hm, readMethod_of_opening hmore,
      Window.consume_extend more hm.length_le]
    exact core_feed_readTarget m more (Nat.zero_le _)
  · have hno : ∀ m, ¬ opening m <+: w.toList := fun m hm => hopen ⟨m, hm⟩
    by_cases hstart : ∃ m, w.toList <+: opening m
    · rw [readMethod_of_start hno hstart]
      rfl
    · -- What is neither an opening nor the start of one is so behind any octets.
      have hno' : ∀ m, ¬ opening m <+: (w.extend more).toList := by
        intro m hm
        rcases List.prefix_or_prefix_of_prefix hm (List.prefix_append w.toList more) with h | h
        · exact hno m h
        · exact hstart ⟨m, h⟩
      have hstart' : ¬ ∃ m, (w.extend more).toList <+: opening m := by
        intro h
        rcases h with ⟨m, hm⟩
        exact hstart ⟨m, (List.prefix_append _ _).trans hm⟩
      rw [readMethod_of_refused hno hstart, readMethod_of_refused hno' hstart']
      rfl

/-! ## Any number of pieces -/

/-- Two pieces show what one piece shows. -/
theorem core_feed_feed (octets more : Bytes) :
    ((empty.feed octets).feed more).core = (empty.feed (octets ++ more)).core :=
  core_feed_readMethod ⟨octets⟩ more

theorem core_feedAll_congr {a b : Assembly} (h : a.core = b.core) (pieces : List Bytes) :
    (a.feedAll pieces).core = (b.feedAll pieces).core := by
  induction pieces generalizing a b with
  | nil => exact h
  | cons piece pieces ih => exact ih (core_feed_congr h piece)

theorem core_feedAll_feed (octets : Bytes) (pieces : List Bytes) :
    ((empty.feed octets).feedAll pieces).core = (empty.feed (octets ++ pieces.flatten)).core := by
  induction pieces generalizing octets with
  | nil => simp [feedAll]
  | cons piece pieces ih =>
      rw [List.flatten_cons, ← List.append_assoc, ← ih]
      exact core_feedAll_congr (core_feed_feed octets piece) pieces

/-- Pieces show what their octets show when they come at once. -/
theorem core_feedAll (pieces : List Bytes) :
    (empty.feedAll pieces).core = (empty.feed pieces.flatten).core :=
  core_feedAll_feed [] pieces

/-- What is malformed stays so. -/
theorem isMalformed_feed_append {octets : Bytes} (h : (empty.feed octets).isMalformed = true)
    (more : Bytes) : (empty.feed (octets ++ more)).isMalformed = true := by
  rw [← isMalformed_core, ← core_feed_feed, isMalformed_core]
  exact isMalformed_feed h more

/-- A finished request stays, and what comes later is kept behind it. -/
theorem finish?_feed_of_finish? {a : Assembly} {r : Request} {rest : Bytes}
    (h : a.finish? = some (r, rest)) (more : Bytes) :
    (a.feed more).finish? = some (r, rest ++ more) := by
  rcases a with ⟨w, stage⟩
  cases stage with
  | ready request =>
      obtain ⟨rfl, rfl⟩ := Prod.mk.inj (Option.some.inj h)
      rfl
  | _ => cases h

theorem finish?_feed_append {octets : Bytes} {r : Request} {rest : Bytes}
    (h : (empty.feed octets).finish? = some (r, rest)) (more : Bytes) :
    (empty.feed (octets ++ more)).finish? = some (r, rest ++ more) := by
  rw [← finish?_eq_of_core_eq (core_feed_feed octets more)]
  exact finish?_feed_of_finish? h more

/-- However octets are cut into pieces, empty ones included, the assembly that has taken them all
answers alike. -/
theorem agree_feedAll_of_flatten (octets : Bytes) (pieces others : List Bytes)
    (h : pieces.flatten = octets) (h' : others.flatten = octets) :
    Agree (empty.feedAll pieces) (empty.feedAll others) := by
  apply agree_of_core_eq
  rw [core_feedAll, core_feedAll, h, h']

/-- Cuts inside the method, a letter of two octets, the terminator and the body. -/
theorem agree_feedAll_put :
    let octets := Utf8.encode "PUT /é HTTP/1.1\r\ncontent-length: 2\r\n\r\nxyG".toList
    let pieces := [Utf8.encode "PU".toList, Utf8.encode "T /".toList, [195], [], [169],
      Utf8.encode " HTTP/1.1\r\ncontent-length: 2\r\n\r".toList, Utf8.encode "\nx".toList,
      Utf8.encode "yG".toList]
    pieces.flatten = octets ∧ [octets].flatten = octets ∧
      Agree (empty.feedAll pieces) (empty.feedAll [octets]) := by
  intro octets pieces
  have hpieces : pieces.flatten = octets := by decide
  have hwhole : [octets].flatten = octets := by decide
  exact ⟨hpieces, hwhole, agree_feedAll_of_flatten octets pieces [octets] hpieces hwhole⟩

end HttpExchange.Assembly
