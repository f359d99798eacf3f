import HttpExchange.Proofs.Server.Dialogue

/-! # The discipline of a connection

What a connection may do next depends on what it has done. It reads while no whole request is at
hand, it passes on the next request of the octets that were read and answers it at once, and behind
a response that ends the connection, behind a rejection and behind the end of what can be read it
does nothing more.

The run is followed by the octets that are left behind the requests passed on so far: the assembly
shows what they show, and they are as many as are counted. -/

namespace HttpExchange.Server

/-! ## Requests on the wire -/

/-- The octets are those of the requests, one after the other, and the rest. -/
inductive Carries : Bytes → List Request → Bytes → Prop where
  | nil (rest : Bytes) : Carries rest [] rest
  | cons {r : Request} {block : Text} {octets : Bytes} {rs : List Request} {rest : Bytes}
      (hlegible : Assembly.Legible r block) (h : Carries octets rs rest) :
      Carries (Assembly.wire r block ++ octets) (r :: rs) rest

namespace Carries

variable {octets rest : Bytes} {rs : List Request}

theorem append (h : Carries octets rs rest) (more : Bytes) :
    Carries (octets ++ more) rs (rest ++ more) := by
  induction h with
  | nil rest => exact .nil _
  | cons hlegible h ih =>
      rw [List.append_assoc]
      exact .cons hlegible ih

theorem concat (h : Carries octets rs rest) {r : Request} {rest' : Bytes}
    (hfinish : (Assembly.empty.feed rest).finish? = some (r, rest')) :
    Carries octets (rs ++ [r]) rest' := by
  induction h with
  | nil rest =>
      obtain ⟨block, hlegible, rfl⟩ := Assembly.finish?_feed_empty_iff.mp hfinish
      exact .cons hlegible (.nil _)
  | cons hlegible h ih => exact .cons hlegible (ih hfinish)

/-- Octets and requests leave one rest only. -/
theorem rest_unique (h : Carries octets rs rest) {rest' : Bytes} (h' : Carries octets rs rest') :
    rest = rest' := by
  induction h with
  | nil rest =>
      cases h'
      rfl
  | @cons r block octets rs rest hlegible h ih =>
      generalize hwhole : Assembly.wire r block ++ octets = whole at h'
      cases h' with
      | @cons r block' octets' rs rest' hlegible' h' =>
          have hfinish := Assembly.finish?_feed_empty_iff.mpr ⟨block, hlegible, hwhole.symm⟩
          have hfinish' : (Assembly.empty.feed (Assembly.wire r block' ++ octets')).finish? =
              some (r, octets') := Assembly.finish?_feed_empty_iff.mpr ⟨block', hlegible', rfl⟩
          rw [hfinish'] at hfinish
          obtain ⟨-, rfl⟩ := Prod.mk.inj (Option.some.inj hfinish)
          exact ih h'

end Carries

/-- Behind this action the connection may go on. -/
def Action.Continues : Action → Prop
  | read (.octets b) => b ≠ []
  | read _ => False
  | dispatch _ => True
  | write (.response _ response) => response.keepAlive = true
  | write (.rejection _) => False

namespace Dialogue

open Connection (answer reject respond)

/-! ## Actions in their place -/

/-- What comes behind an event, with these octets of an unfinished request at hand. -/
def Follows (rest : Bytes) (after : List Action) : Event → Prop
  | .octets b => b = [] → after = []
  | .endOfInput | .failure => after = []
  | .expiry => after = if rest = [] then [] else [.write (.rejection Rejection.tooSlow.response)]

/-- What has to come before a rejection: octets that no request begins with, a read beyond the
ceiling, or an expiry with octets of an unfinished request at hand. -/
def Due (limits : Limits) (before : List Action) : Rejection → Prop
  | .malformed => ∃ rest, Carries (octets before) (dispatched before) rest ∧
      (Assembly.empty.feed rest).isMalformed = true
  | .tooLarge => ∃ earlier b rest, before = earlier ++ [.read (.octets b)] ∧
      Carries (octets earlier) (dispatched earlier) rest ∧
      limits.maxRequestBytes < rest.length + b.length
  | .tooSlow => ∃ earlier rest, before = earlier ++ [.read .expiry] ∧
      Carries (octets earlier) (dispatched earlier) rest ∧ rest ≠ []

/-- An action is as it has to be between those before and those behind it. -/
def InPlace (limits : Limits) (handler : Handler) (before after : List Action) : Action → Prop
  | .read e => ∃ rest, Carries (octets before) (dispatched before) rest ∧
      (Assembly.empty.feed rest).finish? = none ∧ Follows rest after e
  | .dispatch r => (∃ rest, Carries (octets before) (dispatched before ++ [r]) rest) ∧
      ∃ later, after = .write (.response r (respond (handler (dispatched before)) r)) :: later
  | .write (.response r response) => (∃ earlier, before = earlier ++ [.dispatch r]) ∧
      (response.keepAlive = false → after = [])
  | .write (.rejection response) => response.keepAlive = false ∧ after = [] ∧
      ∃ reason : Rejection, response = reason.response ∧ Due limits before reason

/-- Every action of the second list is in its place behind the first list. -/
def Ordered (limits : Limits) (handler : Handler) : List Action → List Action → Prop
  | _, [] => True
  | before, x :: after =>
    InPlace limits handler before after x ∧ Ordered limits handler (before ++ [x]) after

/-- The responses to requests, given those that were passed on before. -/
def responses (handler : Handler) : List Request → List Request → List Write
  | _, [] => []
  | past, r :: rs => .response r (respond (handler past) r) :: responses handler (past ++ [r]) rs

theorem responses_concat (handler : Handler) (past rs : List Request) (r : Request) :
    responses handler past (rs ++ [r]) =
      responses handler past rs ++ [.response r (respond (handler (past ++ rs)) r)] := by
  induction rs generalizing past with
  | nil => simp [responses]
  | cons s rs ih => simp [responses, ih]

theorem keepAlive_rejection (reason : Rejection) : reason.response.keepAlive = false := by
  cases reason <;> rfl

variable {limits : Limits} {handler : Handler}

theorem InPlace.append {before after : List Action} {x : Action}
    (h : InPlace limits handler before after x) (hx : x.Continues) (more : List Action) :
    InPlace limits handler before (after ++ more) x := by
  cases x with
  | read e =>
      cases e with
      | octets b =>
          obtain ⟨rest, hcarries, hfinish, -⟩ := h
          exact ⟨rest, hcarries, hfinish, fun hb => absurd hb hx⟩
      | endOfInput => exact hx.elim
      | failure => exact hx.elim
      | expiry => exact hx.elim
  | dispatch r =>
      obtain ⟨hcarries, later, rfl⟩ := h
      exact ⟨hcarries, later ++ more, rfl⟩
  | write w =>
      cases w with
      | response r response =>
          exact ⟨h.1, fun hended => Bool.noConfusion (hended.symm.trans hx)⟩
      | rejection response => exact hx.elim

theorem Ordered.append {before log more : List Action} (h : Ordered limits handler before log)
    (hcontinues : ∀ x ∈ log, x.Continues) (hmore : Ordered limits handler (before ++ log) more) :
    Ordered limits handler before (log ++ more) := by
  induction log generalizing before with
  | nil => rwa [List.append_nil] at hmore
  | cons x log ih =>
      have hrest : Ordered limits handler (before ++ [x] ++ log) more := by
        rwa [List.append_assoc]
      exact ⟨h.1.append (hcontinues x List.mem_cons_self) more,
        ih h.2 (fun y hy => hcontinues y (List.mem_cons_of_mem x hy)) hrest⟩

theorem Ordered.inPlace {before front back : List Action} {x : Action}
    (h : Ordered limits handler before (front ++ x :: back)) :
    InPlace limits handler (before ++ front) back x := by
  induction front generalizing before with
  | nil =>
      rw [List.append_nil]
      exact h.1
  | cons y front ih =>
      have hrest := ih h.2
      rwa [List.append_assoc] at hrest

theorem ordered_reject {before : List Action} {reason : Rejection}
    (h : Due limits before reason) :
    Ordered limits handler before [.write (.rejection reason.response)] :=
  ⟨⟨keepAlive_rejection reason, rfl, reason, rfl, h⟩, trivial⟩

/-! ## What a run keeps -/

/-- The log of a connection that goes on, with the assembly that has taken the octets left. -/
structure Ready (limits : Limits) (handler : Handler) (log : List Action) (a : Assembly)
    (received : Nat) : Prop where
  ordered : Ordered limits handler [] log
  continues : ∀ x ∈ log, x.Continues
  responded : written log = responses handler [] (dispatched log)
  holds : ∃ rest, Carries (octets log) (dispatched log) rest ∧
    a.core = (Assembly.empty.feed rest).core ∧ received = rest.length

/-- What is true of a dialogue whenever it waits or has ended. -/
structure Upright (limits : Limits) (handler : Handler) (d : Dialogue) : Prop where
  ordered : Ordered limits handler [] d.log
  responded : ∃ ending : List Rejection, ending.length ≤ 1 ∧
    written d.log = responses handler [] (dispatched d.log) ++
      ending.map fun reason => .rejection reason.response
  ended : d.connection = .closed → ∃ x ∈ d.log, ¬ x.Continues
  reading : ∀ a received, d.connection = .reading a received →
    a.finish? = none ∧ Ready limits handler d.log a received

namespace Ready

variable {log : List Action} {a : Assembly} {received : Nat}

theorem upright (h : Ready limits handler log a received) (hfinish : a.finish? = none) :
    Upright limits handler ⟨log, .reading a received⟩ where
  ordered := h.ordered
  responded := ⟨[], Nat.zero_le 1, by rw [h.responded, List.map_nil, List.append_nil]⟩
  ended := nofun
  reading := by
    intro a' received' heq
    obtain ⟨rfl, rfl⟩ := Connection.reading.inj heq
    exact ⟨hfinish, h⟩

/-- The last actions pass on no request, and the connection ends with them. -/
theorem upright_closed (h : Ready limits handler log a received) {last : List Action}
    (ending : List Rejection) (hordered : Ordered limits handler log last)
    (hdispatched : dispatched last = []) (hlength : ending.length ≤ 1)
    (hwritten : written last = ending.map fun reason => .rejection reason.response)
    (hends : ∃ x ∈ last, ¬ x.Continues) : Upright limits handler ⟨log ++ last, .closed⟩ where
  ordered := h.ordered.append h.continues hordered
  responded := by
    refine ⟨ending, hlength, ?_⟩
    simp only [written_append, dispatched_append, hdispatched, List.append_nil, h.responded,
      hwritten]
  ended := by
    obtain ⟨x, hx, hends⟩ := hends
    exact fun _ => ⟨x, List.mem_append_right log hx, hends⟩
  reading := nofun

/-- The connection ends upon an event. -/
theorem upright_stopped (h : Ready limits handler log a received) {e : Event}
    (hread : InPlace limits handler log [] (.read e)) (hends : ¬ (Action.read e).Continues) :
    Upright limits handler (tell (log ++ [.read e]) ([], .closed)) := by
  rw [tell_nil]
  exact h.upright_closed [] ⟨hread, trivial⟩ rfl (Nat.zero_le 1) rfl
    ⟨_, List.mem_singleton_self _, hends⟩

/-- The connection ends with a rejection upon an event. -/
theorem upright_rejected (h : Ready limits handler log a received) {e : Event}
    {reason : Rejection}
    (hread : InPlace limits handler log [.write (.rejection reason.response)] (.read e))
    (hdue : Due limits (log ++ [.read e]) reason) :
    Upright limits handler (tell (log ++ [.read e]) (reject reason)) := by
  rw [tell, reject, List.append_assoc]
  exact h.upright_closed [reason] ⟨hread, ordered_reject hdue⟩ rfl le_rfl rfl
    ⟨_, List.mem_cons_of_mem _ List.mem_cons_self, id⟩

/-- A request that is passed on and answered is in its place, whatever its response. -/
theorem ordered_answered (h : Ready limits handler log a received) {r : Request} {rest : Bytes}
    (hfinish : a.finish? = some (r, rest)) :
    Carries (octets log) (dispatched log ++ [r]) rest ∧
      Ordered limits handler log (exchange handler log r) := by
  obtain ⟨held, hcarries, hcore, -⟩ := h.holds
  rw [Assembly.finish?_eq_of_core_eq hcore] at hfinish
  have hnext := hcarries.concat hfinish
  exact ⟨hnext, ⟨⟨rest, hnext⟩, [], rfl⟩, ⟨⟨log, rfl⟩, fun _ => rfl⟩, trivial⟩

theorem written_answered (h : Ready limits handler log a received) (r : Request) :
    written (log ++ exchange handler log r) = responses handler [] (dispatched log ++ [r]) := by
  rw [responses_concat, written_append, h.responded]
  rfl

/-- Behind a response that keeps the connection open, the rest opens the next assembly. -/
theorem next (h : Ready limits handler log a received) {r : Request} {rest : Bytes}
    (hfinish : a.finish? = some (r, rest))
    (hopen : (respond (handler (dispatched log)) r).keepAlive = true) :
    Ready limits handler (log ++ exchange handler log r) (Assembly.empty.feed rest)
      rest.length := by
  obtain ⟨hcarries, hordered⟩ := h.ordered_answered hfinish
  constructor
  · exact h.ordered.append h.continues hordered
  · intro x hx
    rcases List.mem_append.mp hx with hx | hx
    · exact h.continues x hx
    · simp only [exchange, List.mem_cons, List.not_mem_nil, or_false] at hx
      rcases hx with rfl | rfl
      · trivial
      · exact hopen
  · rw [h.written_answered r, dispatched_append]
    rfl
  · refine ⟨rest, ?_, rfl, rfl⟩
    rw [octets_append, dispatched_append]
    simp only [exchange, octets, List.flatMap_cons, List.flatMap_nil, Action.octets,
      List.append_nil]
    exact hcarries

theorem upright_last (h : Ready limits handler log a received) {r : Request} {rest : Bytes}
    (hfinish : a.finish? = some (r, rest))
    (hended : ¬ (respond (handler (dispatched log)) r).keepAlive = true) :
    Upright limits handler ⟨log ++ exchange handler log r, .closed⟩ := by
  constructor
  · exact h.ordered.append h.continues (h.ordered_answered hfinish).2
  · refine ⟨[], Nat.zero_le 1, ?_⟩
    rw [h.written_answered r, dispatched_append, List.map_nil, List.append_nil]
    rfl
  · exact fun _ => ⟨_, List.mem_append_right log (List.mem_cons_of_mem _ List.mem_cons_self),
      hended⟩
  · nofun

end Ready

theorem upright_answer {log : List Action} {past : List Request} {a : Assembly} {received : Nat}
    (hpast : dispatched log = past) (h : Ready limits handler log a received) :
    Upright limits handler (tell log (answer handler past a received)) := by
  induction past, a, received using Connection.answer.induct handler generalizing log with
  | case1 past a received hfinish =>
      cases ha : a.isMalformed with
      | false =>
          rw [Connection.answer_of_waiting hfinish ha]
          rw [tell_nil]
          exact h.upright hfinish
      | true =>
          obtain ⟨rest, hcarries, hcore, -⟩ := h.holds
          have hmalformed : (Assembly.empty.feed rest).isMalformed = true := by
            rw [← Assembly.isMalformed_core, ← hcore, Assembly.isMalformed_core, ha]
          rw [Connection.answer_of_malformed ha]
          exact h.upright_closed [.malformed] (ordered_reject ⟨rest, hcarries, hmalformed⟩) rfl
            le_rfl rfl ⟨_, List.mem_singleton_self _, id⟩
  | @case2 past a received r rest hfinish response hopen ih =>
      subst hpast
      rw [Connection.answer_of_open hfinish hopen, tell_before]
      exact ih (dispatched_append log (exchange handler log r)) (h.next hfinish hopen)
  | @case3 past a received r rest hfinish response hended =>
      subst hpast
      rw [Connection.answer_of_ended hfinish hended]
      exact h.upright_last hfinish hended

theorem Ready.read {log : List Action} {a : Assembly} {received : Nat}
    (h : Ready limits handler log a received) {b : Bytes}
    (hread : InPlace limits handler log [] (.read (.octets b))) (hb : b ≠ []) :
    Ready limits handler (log ++ [.read (.octets b)]) (a.feed b) (received + b.length) := by
  constructor
  · exact h.ordered.append h.continues ⟨hread, trivial⟩
  · intro x hx
    rcases List.mem_append.mp hx with hx | hx
    · exact h.continues x hx
    · rw [List.mem_singleton.mp hx]
      exact hb
  · rw [written_append, dispatched_read, h.responded]
    exact List.append_nil _
  · obtain ⟨rest, hcarries, hcore, rfl⟩ := h.holds
    refine ⟨rest ++ b, ?_, ?_, List.length_append.symm⟩
    · rw [octets_append, dispatched_read]
      simp only [octets, List.flatMap_cons, List.flatMap_nil, Action.octets, List.append_nil]
      exact hcarries.append b
    · rw [Assembly.core_feed_congr hcore, Assembly.core_feed_feed]

theorem Upright.step {d : Dialogue} (h : Upright limits handler d) (e : Event) :
    Upright limits handler (d.step limits handler e) := by
  rcases d with ⟨log, c⟩
  cases c with
  | closed => exact h
  | reading a received =>
      obtain ⟨hfinish, hready⟩ := h.reading a received rfl
      obtain ⟨rest, hcarries, hcore, hreceived⟩ := hready.holds
      rw [Assembly.finish?_eq_of_core_eq hcore] at hfinish
      rw [step_reading]
      have hread {after : List Action} (hfollows : Follows rest after e) :
          InPlace limits handler log after (.read e) := ⟨rest, hcarries, hfinish, hfollows⟩
      cases e with
      | octets b =>
          by_cases hb : b = []
          · subst hb
            exact hready.upright_stopped (hread fun _ => rfl) (absurd rfl)
          · have hfollows (after : List Action) : Follows rest after (.octets b) :=
              fun hnil => absurd hnil hb
            by_cases hsize : limits.maxRequestBytes < received + b.length
            · rw [Connection.step_octets_of_lt hb hsize]
              rw [hreceived] at hsize
              exact hready.upright_rejected (hread (hfollows _))
                ⟨log, b, rest, rfl, hcarries, hsize⟩
            · rw [Connection.step_octets hb (Nat.not_lt.mp hsize)]
              exact upright_answer (dispatched_read log (.octets b))
                (hready.read (hread (hfollows [])) hb)
      | endOfInput => exact hready.upright_stopped (hread rfl) id
      | failure => exact hready.upright_stopped (hread rfl) id
      | expiry =>
          by_cases hrest : rest = []
          · have hzero : received = 0 := by rw [hreceived, hrest, List.length_nil]
            rw [Connection.step, if_pos hzero]
            exact hready.upright_stopped (hread (if_pos hrest).symm) id
          · have hpos : received ≠ 0 := by
              rw [hreceived]
              exact fun hzero => hrest (List.length_eq_zero_iff.mp hzero)
            rw [Connection.step, if_neg hpos]
            exact hready.upright_rejected (hread (if_neg hrest).symm)
              ⟨log, rest, rfl, hcarries, hrest⟩

theorem upright_run (limits : Limits) (handler : Handler) (es : List Event) :
    Upright limits handler (run limits handler es) := by
  induction es using List.reverseRecOn with
  | nil =>
      have hready : Ready limits handler [] .empty 0 :=
        ⟨trivial, nofun, rfl, [], .nil [], rfl, rfl⟩
      exact hready.upright rfl
  | append_singleton es e ih =>
      rw [run_concat]
      exact ih.step e

/-- An expiry is answered exactly if octets of an unfinished request are at hand. -/
theorem rejects_expiry_iff {es : List Event} {before after : List Action} {rest : Bytes}
    (hlog : (run limits handler es).log = before ++ .read .expiry :: after)
    (hcarries : Carries (octets before) (dispatched before) rest) :
    after = [.write (.rejection Rejection.tooSlow.response)] ↔ rest ≠ [] := by
  have hordered := (upright_run limits handler es).ordered
  rw [hlog] at hordered
  obtain ⟨rest', hcarries', -, hfollows⟩ := hordered.inPlace
  rw [List.nil_append] at hcarries'
  have hrest := hcarries'.rest_unique hcarries
  subst hrest
  by_cases hrest : rest' = []
  · rw [hfollows, if_pos hrest]
    exact iff_of_false nofun fun hne => hne hrest
  · rw [hfollows, if_neg hrest]
    exact iff_of_true rfl hrest

/-! ## What is read -/

/-- While the connection reads, an event is taken from the wire. -/
theorem events_step (log : List Action) (a : Assembly) (received : Nat) (e : Event) :
    events ((⟨log, .reading a received⟩ : Dialogue).step limits handler e).log =
      events log ++ [e] := by
  rw [step_reading, tell, events_append, events_append, events_actions, List.append_nil]
  rfl

/-- All events are taken while the connection reads, and none behind its end. -/
theorem events_run (limits : Limits) (handler : Handler) (es : List Event) :
    events (run limits handler es).log <+: es ∧
      ((run limits handler es).connection.isClosed = false →
        events (run limits handler es).log = es) := by
  induction es using List.reverseRecOn with
  | nil => exact ⟨List.prefix_refl [], fun _ => rfl⟩
  | append_singleton es e ih =>
      rw [run_concat]
      obtain ⟨htaken, hall⟩ := ih
      generalize run limits handler es = d at htaken hall
      rcases d with ⟨log, c⟩
      cases c with
      | closed => exact ⟨htaken.trans (List.prefix_append es [e]), nofun⟩
      | reading a received =>
          rw [events_step, hall rfl]
          exact ⟨List.prefix_refl _, fun _ => rfl⟩

/-! ## The discipline -/

end Dialogue

end HttpExchange.Server
