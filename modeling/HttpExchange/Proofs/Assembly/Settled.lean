import HttpExchange.Proofs.Assembly.Form

/-! # What later pieces leave alone

Later pieces add to an assembly and take nothing back: phases are only passed forward, a decided
method is kept and becomes that of the request, and both ends are final, a finished request with the
later octets behind it. Main statement: `keeps_feedAll_append`, for what an assembly shows and for
what its form does. -/

namespace HttpExchange

namespace Phase

/-- How far a phase is. A request ends in one of two phases, which are equally far. -/
def rank : Phase → Nat
  | .method => 0
  | .target => 1
  | .version => 2
  | .headers => 3
  | .body => 4
  | .ready | .malformed => 5

/-- The way goes forward or stands still. -/
def LeadsTo (p q : Phase) : Prop := p = q ∨ p.rank < q.rank

variable {p q r : Phase}

theorem LeadsTo.refl (p : Phase) : p.LeadsTo p := .inl rfl

theorem LeadsTo.trans (h : p.LeadsTo q) (k : q.LeadsTo r) : p.LeadsTo r := by
  rcases h with rfl | hpq
  · exact k
  rcases k with rfl | hqr
  · exact .inr hpq
  · exact .inr (hpq.trans hqr)

theorem method_leadsTo (p : Phase) : method.LeadsTo p := by
  cases p with
  | method => exact .refl _
  | _ => exact .inr (by decide)

end Phase

namespace Assembly

/-- An assembly has become another one behind `more` octets, and what was settled is unchanged. -/
structure Keeps (a b : Assembly) (more : Bytes) : Prop where
  phase : a.stage.phase.LeadsTo b.stage.phase
  method : ∀ m, a.method? = some m → b.method? = some m ∧ ∀ r, b.request? = some r → r.method = m
  ready : a.isReady = true → b.isReady = true
  malformed : a.isMalformed = true → b.isMalformed = true
  request : a.isReady = true ∨ a.isMalformed = true → b.request? = a.request?
  finish : ∀ r rest, a.finish? = some (r, rest) → b.finish? = some (r, rest ++ more)

variable {a b c : Assembly} {m : Method} {more later : Bytes}

theorem method_of_request? {r : Request} (hmethod : b.method? = some m)
    (hrequest : b.request? = some r) : r.method = m := by
  rcases b with ⟨w, stage⟩
  cases stage with
  | ready request =>
      obtain rfl := Option.some.inj hrequest
      exact Option.some.inj hmethod
  | _ => cases hrequest

theorem keeps_of_stage {w w' : Window} {stage : Stage}
    (hfinish : ∀ r rest, finish? ⟨w, stage⟩ = some (r, rest) →
      finish? ⟨w', stage⟩ = some (r, rest ++ more)) : Keeps ⟨w, stage⟩ ⟨w', stage⟩ more where
  phase := .refl _
  method _ hm := ⟨hm, fun _ => method_of_request? hm⟩
  ready := id
  malformed := id
  request _ := rfl
  finish := hfinish

theorem Keeps.refl (a : Assembly) : a.Keeps a [] :=
  keeps_of_stage fun r rest hfinish => by rw [hfinish, List.append_nil]

theorem Keeps.trans (h : a.Keeps b more) (k : b.Keeps c later) : a.Keeps c (more ++ later) where
  phase := h.phase.trans k.phase
  method m hm := k.method m (h.method m hm).1
  ready ha := k.ready (h.ready ha)
  malformed ha := k.malformed (h.malformed ha)
  request ha := (k.request (ha.imp h.ready h.malformed)).trans (h.request ha)
  finish r rest hfinish := by rw [k.finish _ _ (h.finish _ _ hfinish), List.append_assoc]

/-! ## Each part -/

/-- From a phase behind the method an assembly has come on, with the same method. -/
structure Follows (p : Phase) (m : Method) (b : Assembly) : Prop where
  phase : p.LeadsTo b.stage.phase
  method : b.method? = some m

theorem Follows.mono {p q : Phase} (h : Follows q m b) (hpq : p.LeadsTo q) : Follows p m b :=
  ⟨hpq.trans h.phase, h.method⟩

theorem follows_ready {p : Phase} {w : Window} {r : Request} (h : p.rank < 5)
    (hmethod : r.method = m) : Follows p m ⟨w, .ready r⟩ := ⟨.inr h, congrArg some hmethod⟩

theorem follows_malformed {p : Phase} {w : Window} (h : p.rank < 5) :
    Follows p m ⟨w, .malformed (some m)⟩ := ⟨.inr h, rfl⟩

theorem follows_readBody (m : Method) (t : Text) (h : Headers) (n : Nat) (w : Window) :
    Follows .body m (readBody m t h n w) := by
  unfold readBody
  split
  · exact ⟨.refl _, rfl⟩
  · exact follows_ready (by decide) rfl

theorem follows_readHeaders (m : Method) (t : Text) (w : Window) (scanned : Nat) :
    Follows .headers m (readHeaders m t w scanned) := by
  unfold readHeaders
  split
  · exact ⟨.refl _, rfl⟩
  split
  · exact follows_malformed (by decide)
  split
  · exact follows_malformed (by decide)
  · exact follows_ready (by decide) rfl
  · exact (follows_readBody m t _ _ _).mono (.inr (by decide))

theorem follows_readVersion (m : Method) (t : Text) (w : Window) :
    Follows .version m (readVersion m t w) := by
  unfold readVersion
  split
  · exact ⟨.refl _, rfl⟩
  split
  · exact (follows_readHeaders m t _ _).mono (.inr (by decide))
  · exact follows_malformed (by decide)

theorem follows_readTarget (m : Method) (w : Window) (scanned : Nat) :
    Follows .target m (readTarget m w scanned) := by
  unfold readTarget
  split
  · exact ⟨.refl _, rfl⟩
  split
  · split
    · exact (follows_readVersion m _ _).mono (.inr (by decide))
    · exact follows_malformed (by decide)
  · exact follows_malformed (by decide)

/-! ## Any pieces -/

/-- Before the two last phases there is nothing to keep but the method. -/
theorem keeps_of_pending (hrequest : a.request? = none) (hmalformed : a.isMalformed = false)
    (hphase : a.stage.phase.LeadsTo b.stage.phase)
    (hmethod : ∀ m, a.method? = some m → b.method? = some m) : a.Keeps b more where
  phase := hphase
  method m hm := ⟨hmethod m hm, fun _ => method_of_request? (hmethod m hm)⟩
  ready ha := by simp [isReady, hrequest] at ha
  malformed ha := by simp [hmalformed] at ha
  request ha := by simp [isReady, hrequest, hmalformed] at ha
  finish r rest ha := by simp [finish?, hrequest] at ha

theorem Follows.keeps {p : Phase} (h : Follows p m b) (hphase : a.stage.phase = p)
    (hmethod : a.method? = some m) (hrequest : a.request? = none)
    (hmalformed : a.isMalformed = false) : a.Keeps b more := by
  refine keeps_of_pending hrequest hmalformed (hphase ▸ h.phase) fun n hn => ?_
  obtain rfl := Option.some.inj (hmethod.symm.trans hn)
  exact h.method

theorem keeps_feed (a : Assembly) (piece : Bytes) : a.Keeps (a.feed piece) piece := by
  rcases a with ⟨w, stage⟩
  cases stage with
  -- Without a decided method any outcome is a way forward.
  | method => exact keeps_of_pending rfl rfl (Phase.method_leadsTo _) nofun
  | target m scanned => exact (follows_readTarget m _ _).keeps rfl rfl rfl rfl
  | version m t => exact (follows_readVersion m t _).keeps rfl rfl rfl rfl
  | headers m t scanned => exact (follows_readHeaders m t _ _).keeps rfl rfl rfl rfl
  | body m t h n => exact (follows_readBody m t h n _).keeps rfl rfl rfl rfl
  | ready request => exact keeps_of_stage fun _ _ hfinish => finish?_feed_of_finish? hfinish piece
  | malformed m => exact keeps_of_stage nofun

theorem keeps_feedAll (a : Assembly) (pieces : List Bytes) :
    a.Keeps (a.feedAll pieces) pieces.flatten := by
  induction pieces generalizing a with
  | nil => exact .refl a
  | cons piece pieces ih => exact (keeps_feed a piece).trans (ih (a.feed piece))

theorem feedAll_append (a : Assembly) (pieces later : List Bytes) :
    a.feedAll (pieces ++ later) = (a.feedAll pieces).feedAll later := List.foldl_append

/-- Whatever pieces arrive later, nothing settled is revised: the phase has only gone forward, a
method stays and is the method of the request, an end stays an end with the same request, and the
later octets stand behind those that were left over. The same holds of the forms, whose answers tell
after each piece whether the request is complete. -/
theorem keeps_feedAll_append (pieces later : List Bytes) :
    (empty.feedAll pieces).Keeps (empty.feedAll (pieces ++ later)) later.flatten ∧
      ∃ f, Form.new.feedAll (pieces ++ later) = .ok (empty.readiness (pieces ++ later), f) ∧
        f.phase = (empty.feedAll (pieces ++ later)).stage.phase ∧
        f.method? = (empty.feedAll (pieces ++ later)).method? ∧
        f.request = (empty.feedAll (pieces ++ later)).request? ∧
        f.finish? = (empty.feedAll (pieces ++ later)).finish? := by
  obtain ⟨f, hf, hshows⟩ :=
    (Form.Shows.method (w := .empty)).feedAll resting_empty (pieces ++ later)
  refine ⟨?_, f, hf, hshows.phase_eq, hshows.method?_eq, hshows.request_eq, hshows.finish?_eq⟩
  rw [feedAll_append]
  exact keeps_feedAll _ later

end Assembly

end HttpExchange
