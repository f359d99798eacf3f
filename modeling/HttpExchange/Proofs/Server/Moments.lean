import HttpExchange.Proofs.Server.Transcript
import Mathlib.Data.List.Induction

/-! # Moments of a connection

A connection goes from one moment to the next by a read, which its assembly takes, or by answering
the finished request, whose rest opens the next assembly. A moment keeps what the connection itself
forgets: the events so far, what was written upon them, and the pieces that the current assembly was
given. Every run goes from moment to moment up to a last one, and each way in which it is left there
is told by what its assembly holds then. -/

namespace HttpExchange.Server.Connection

/-- How far a connection has come. -/
structure Moment where
  events : List Event
  written : List Write
  /-- What the assembly was given, the octets behind the request before it included. -/
  pieces : List Bytes
  received : Nat

namespace Moment

def assembly (m : Moment) : Assembly := Assembly.empty.feedAll m.pieces

def start : Moment := ⟨[], [], [], 0⟩

def take (m : Moment) (b : Bytes) : Moment :=
  ⟨m.events ++ [.octets b], m.written, m.pieces ++ [b], m.received + b.length⟩

/-- The response to a request that is finished now. -/
def response (handler : Handler) (m : Moment) (r : Request) : Response :=
  respond (handler (answered m.written)) r

def dispatch (handler : Handler) (m : Moment) (r : Request) (rest : Bytes) : Moment :=
  ⟨m.events, m.written ++ [.response r (m.response handler r)], [rest], rest.length⟩

/-- More octets may finish the request. -/
structure Waits (m : Moment) : Prop where
  unfinished : m.assembly.finish? = none
  unspoilt : m.assembly.isMalformed = false

/-- Nothing is written upon this event: the input is over or broken, or the time is up before a
request has begun. -/
def Silent (m : Moment) : Event → Prop
  | .octets b => b = []
  | .endOfInput | .failure => True
  | .expiry => m.received = 0

/-- What is done from a moment on, with the events that come behind it, up to the end of the run or
of the events. -/
inductive Ends (limits : Limits) (handler : Handler) (m : Moment) :
    List Event → List Write × Connection → Prop where
  | waiting (h : m.Waits) : Ends limits handler m [] ([], reading m.assembly m.received)
  | answered {r : Request} {rest : Bytes} (hfinish : m.assembly.finish? = some (r, rest))
      (hended : ¬ (m.response handler r).keepAlive = true) (unread : List Event) :
      Ends limits handler m unread ([.response r (m.response handler r)], closed)
  | malformed (h : m.assembly.isMalformed = true) (unread : List Event) :
      Ends limits handler m unread (reject .malformed)
  | tooLarge (h : m.Waits) {b : Bytes} (hne : b ≠ [])
      (hsize : limits.maxRequestBytes < m.received + b.length) (unread : List Event) :
      Ends limits handler m (.octets b :: unread) (reject .tooLarge)
  | tooSlow (h : m.Waits) (hbegun : m.received ≠ 0) (unread : List Event) :
      Ends limits handler m (.expiry :: unread) (reject .tooSlow)
  | silent (h : m.Waits) {e : Event} (hsilent : m.Silent e) (unread : List Event) :
      Ends limits handler m (e :: unread) ([], closed)

@[simp] theorem assembly_take (m : Moment) (b : Bytes) :
    (m.take b).assembly = m.assembly.feed b := by
  simp [assembly, take, Assembly.feedAll]

theorem core_assembly (m : Moment) :
    m.assembly.core = (Assembly.empty.feed m.pieces.flatten).core :=
  Assembly.core_feedAll m.pieces

theorem finish?_assembly (m : Moment) :
    m.assembly.finish? = (Assembly.empty.feed m.pieces.flatten).finish? :=
  Assembly.finish?_eq_of_core_eq m.core_assembly

end Moment

variable (limits : Limits) (handler : Handler)

/-- The moments that a connection can reach. -/
inductive Reached : Moment → Prop where
  | start : Reached .start
  | take {m : Moment} (h : Reached m) (hwaits : m.Waits) {b : Bytes} (hne : b ≠ [])
      (hsize : m.received + b.length ≤ limits.maxRequestBytes) : Reached (m.take b)
  | dispatch {m : Moment} (h : Reached m) {r : Request} {rest : Bytes}
      (hfinish : m.assembly.finish? = some (r, rest))
      (hopen : (m.response handler r).keepAlive = true) : Reached (m.dispatch handler r rest)

variable {limits handler}

/-! ## The moments give the run -/

/-- What is answered at a moment to the octets that its assembly holds. -/
def Moment.answer (handler : Handler) (m : Moment) : List Write × Connection :=
  Connection.answer handler (answered m.written) m.assembly m.received

theorem Moment.Waits.answer {m : Moment} (h : m.Waits) :
    m.answer handler = ([], reading m.assembly m.received) := by
  rw [Moment.answer, answer_of_waiting h.unfinished h.unspoilt]

theorem Moment.answered_dispatch (m : Moment) (r : Request) (rest : Bytes) :
    Connection.answered (m.dispatch handler r rest).written =
      Connection.answered m.written ++ [r] := by
  simp [dispatch, Connection.answered, Write.request?]

/-- The answer goes on at the moment behind a request. -/
theorem Moment.answer_of_open {m : Moment} {r : Request} {rest : Bytes}
    (hfinish : m.assembly.finish? = some (r, rest))
    (hopen : (m.response handler r).keepAlive = true) :
    m.answer handler = Write.before (.response r (m.response handler r))
      ((m.dispatch handler r rest).answer handler) := by
  rw [answer, Connection.answer_of_open hfinish hopen, answer, answered_dispatch]
  rfl

theorem Moment.waits_start : Moment.start.Waits := ⟨rfl, rfl⟩

/-- Up to a moment the run has written what was written then, and goes on with the answer to what
the assembly holds. -/
theorem Reached.serve_eq {m : Moment} (h : Reached limits handler m) :
    serve limits handler [] opened m.events =
      (m.written ++ (m.answer handler).1, (m.answer handler).2) := by
  induction h with
  | start =>
      rw [Moment.waits_start.answer]
      rfl
  | @take m h hwaits b hne hsize ih =>
      rw [hwaits.answer, List.append_nil] at ih
      change serve limits handler [] opened (m.events ++ [.octets b]) = _
      rw [serve_append, ih, resume, serve_cons, step_octets hne hsize, resume_nil,
        Moment.answer, Moment.assembly_take]
      rfl
  | @dispatch m h r rest hfinish hopen ih =>
      change serve limits handler [] opened m.events = _
      rw [ih, Moment.answer_of_open hfinish hopen]
      simp [Moment.dispatch, Write.before]

/-! ## The run gives the moments -/

theorem step_of_silent {m : Moment} {e : Event} (h : m.Silent e) (past : List Request) :
    step limits handler past (reading m.assembly m.received) e = ([], closed) := by
  cases e with
  | octets b =>
      have hb : b = [] := h
      rw [hb]
      rfl
  | endOfInput => rfl
  | failure => rfl
  | expiry => exact if_pos h

/-- A run goes up to a last moment and is left there. -/
inductive Course (limits : Limits) (handler : Handler) :
    List Event → List Write × Connection → Prop where
  | intro {m : Moment} (h : Reached limits handler m) {more : List Event}
      {last : List Write × Connection} (hends : m.Ends limits handler more last) :
      Course limits handler (m.events ++ more) (m.written ++ last.1, last.2)

theorem Course.execution {events : List Event} {out : List Write × Connection}
    (h : Course limits handler events out) : serve limits handler [] opened events = out := by
  cases h with
  | @intro m hreached more last hends =>
      rw [serve_append, hreached.serve_eq]
      cases hends with
      | waiting h => rw [resume_nil, h.answer]
      | answered hfinish hended unread =>
          rw [Moment.answer, answer_of_ended hfinish hended, resume_closed]
          rfl
      | malformed h unread =>
          rw [Moment.answer, answer_of_malformed h, reject, resume_closed]
      | tooLarge h hne hsize unread =>
          simp only [h.answer, List.append_nil, resume, serve_cons, step_octets_of_lt hne hsize,
            reject, serve_closed]
      | tooSlow h hbegun unread =>
          simp only [h.answer, List.append_nil, resume, serve_cons, step, if_neg hbegun, reject,
            serve_closed]
      | silent h hsilent unread =>
          simp only [h.answer, List.append_nil, resume, serve_cons, step_of_silent hsilent,
            serve_closed]

/-- Every request that the octets of an assembly finish is one moment further. -/
theorem Reached.course_answer {m : Moment} (h : Reached limits handler m) {past : List Request}
    {a : Assembly} {received : Nat} (hpast : answered m.written = past) (ha : m.assembly = a)
    (hreceived : m.received = received) :
    Course limits handler m.events
      (m.written ++ (Connection.answer handler past a received).1,
        (Connection.answer handler past a received).2) := by
  induction past, a, received using answer.induct handler generalizing m with
  | case1 past a received hfinish =>
      subst ha hreceived
      rw [← List.append_nil m.events]
      cases hm : m.assembly.isMalformed with
      | true =>
          rw [answer_of_malformed hm]
          exact .intro h (.malformed hm [])
      | false =>
          rw [answer_of_waiting hfinish hm]
          exact .intro h (.waiting ⟨hfinish, hm⟩)
  | @case2 past a received r rest hfinish response hopen ih =>
      subst hpast ha
      have hlater := ih (h.dispatch hfinish hopen) (m.answered_dispatch r rest) rfl rfl
      rw [answer_of_open hfinish hopen]
      simpa [Moment.dispatch, Moment.response, Write.before] using hlater
  | @case3 past a received r rest hfinish response hended =>
      subst hpast ha
      rw [answer_of_ended hfinish hended, ← List.append_nil m.events]
      exact .intro h (.answered hfinish hended [])

theorem Reached.course_step {m : Moment} (h : Reached limits handler m) (hwaits : m.Waits)
    (e : Event) :
    let out := step limits handler (answered m.written) (reading m.assembly m.received) e
    Course limits handler (m.events ++ [e]) (m.written ++ out.1, out.2) := by
  have hend (hsilent : m.Silent e) :
      Course limits handler (m.events ++ [e]) (m.written ++ [], closed) :=
    .intro h (.silent hwaits hsilent [])
  cases e with
  | octets b =>
      by_cases hne : b = []
      · subst hne
        exact hend rfl
      · by_cases hsize : m.received + b.length ≤ limits.maxRequestBytes
        · rw [step_octets hne hsize, ← Moment.assembly_take]
          exact (h.take hwaits hne hsize).course_answer rfl rfl rfl
        · rw [step_octets_of_lt hne (Nat.not_le.mp hsize)]
          exact .intro h (.tooLarge hwaits hne (Nat.not_le.mp hsize) [])
  | endOfInput => exact hend trivial
  | failure => exact hend trivial
  | expiry =>
      by_cases hzero : m.received = 0
      · simp only [step, if_pos hzero]
        exact hend hzero
      · simp only [step, if_neg hzero]
        exact .intro h (.tooSlow hwaits hzero [])

/-- A connection that has ended takes no more events. -/
theorem Moment.Ends.append {m : Moment} {unread : List Event} {written : List Write}
    (h : m.Ends limits handler unread (written, closed)) (more : List Event) :
    m.Ends limits handler (unread ++ more) (written, closed) := by
  cases h with
  | answered hfinish hended unread => exact .answered hfinish hended (unread ++ more)
  | malformed h unread => exact .malformed h (unread ++ more)
  | tooLarge h hne hsize unread => exact .tooLarge h hne hsize (unread ++ more)
  | tooSlow h hbegun unread => exact .tooSlow h hbegun (unread ++ more)
  | silent h hsilent unread => exact .silent h hsilent (unread ++ more)

theorem course_serve (limits : Limits) (handler : Handler) (events : List Event) :
    Course limits handler events (serve limits handler [] opened events) := by
  induction events using List.reverseRecOn with
  | nil => exact .intro .start (.waiting Moment.waits_start)
  | append_singleton events e ih =>
      rw [serve_append]
      generalize serve limits handler [] opened events = out at ih
      cases ih with
      | @intro m h more last hends =>
          obtain ⟨written, c⟩ := last
          cases c with
          | closed =>
              rw [resume_closed, List.append_assoc]
              exact .intro h (hends.append [e])
          | reading a received =>
              cases hends with
              | waiting hwaits =>
                  rw [List.append_nil, List.append_nil, resume, serve_cons, resume_nil,
                    List.nil_append]
                  exact h.course_step hwaits e

theorem course_iff {events : List Event} {out : List Write × Connection} :
    Course limits handler events out ↔ serve limits handler [] opened events = out := by
  refine ⟨Course.execution, ?_⟩
  rintro rfl
  exact course_serve limits handler events

/-! ## The responses -/

/-- Every response that is written up to a moment was given at one, at which all that was written
before had been written. -/
theorem Reached.exists_of_response {m : Moment} (h : Reached limits handler m)
    {front back : List Write} {r : Request} {response : Response}
    (hwritten : m.written = front ++ .response r response :: back) :
    ∃ m' rest, Reached limits handler m' ∧ m'.events <+: m.events ∧ m'.written = front ∧
      m'.assembly.finish? = some (r, rest) ∧ response = m'.response handler r := by
  induction h generalizing back with
  | start => exact absurd hwritten.symm (List.append_ne_nil_of_right_ne_nil front nofun)
  | @take m h hwaits b hne hsize ih =>
      obtain ⟨m', rest, hreached, hevents, hm'⟩ := ih hwritten
      exact ⟨m', rest, hreached, hevents.trans (List.prefix_append _ _), hm'⟩
  | @dispatch m h r' rest hfinish hopen ih =>
      rcases List.eq_nil_or_concat back with rfl | ⟨back, w, rfl⟩
      · obtain ⟨hfront, hlast⟩ := List.append_inj' hwritten rfl
        obtain ⟨rfl, rfl⟩ := Write.response.inj (List.cons.inj hlast).1
        exact ⟨m, rest, h, List.prefix_refl _, hfront, hfinish, rfl⟩
      · rw [List.concat_eq_append, ← List.cons_append, ← List.append_assoc] at hwritten
        exact ih (List.append_inj' hwritten rfl).1

theorem rejection_ne (reason : Rejection) {front back : List Write} {r : Request}
    {response : Response} : (reject reason).1 ≠ front ++ .response r response :: back := by
  intro heq
  rcases List.singleton_eq_append_iff.mp heq with ⟨-, heq⟩ | ⟨-, heq⟩ <;> cases heq

/-- The response that ends a connection is given at its last moment. -/
theorem Moment.Ends.exists_of_response {m : Moment} {more : List Event}
    {last : List Write × Connection} (h : m.Ends limits handler more last)
    {front back : List Write} {r : Request} {response : Response}
    (hlast : last.1 = front ++ .response r response :: back) :
    front = [] ∧ response = m.response handler r ∧
      ∃ rest, m.assembly.finish? = some (r, rest) := by
  cases h with
  | waiting h => exact absurd hlast.symm (List.append_ne_nil_of_right_ne_nil front nofun)
  | answered hfinish hended unread =>
      rcases List.singleton_eq_append_iff.mp hlast with ⟨rfl, heq⟩ | ⟨-, heq⟩
      · obtain ⟨rfl, rfl⟩ := Write.response.inj (List.cons.inj heq).1
        exact ⟨rfl, rfl, _, hfinish⟩
      · cases heq
  | malformed h unread => exact absurd hlast (rejection_ne .malformed)
  | tooLarge h hne hsize unread => exact absurd hlast (rejection_ne .tooLarge)
  | tooSlow h hbegun unread => exact absurd hlast (rejection_ne .tooSlow)
  | silent h hsilent unread =>
      exact absurd hlast.symm (List.append_ne_nil_of_right_ne_nil front nofun)

theorem Course.exists_of_response {events : List Event} {out : List Write × Connection}
    (h : Course limits handler events out) {front back : List Write} {r : Request}
    {response : Response} (hwritten : out.1 = front ++ .response r response :: back) :
    ∃ m rest, Reached limits handler m ∧ m.events <+: events ∧ m.written = front ∧
      m.assembly.finish? = some (r, rest) ∧ response = m.response handler r := by
  cases h with
  | @intro m h more last hends =>
      have hmore := List.prefix_append m.events more
      rcases List.append_eq_append_iff.mp hwritten with ⟨gap, rfl, hlast⟩ | ⟨gap, hm, hlast⟩
      · obtain ⟨rfl, rfl, rest, hfinish⟩ := hends.exists_of_response hlast
        exact ⟨m, rest, h, hmore, (List.append_nil _).symm, hfinish, rfl⟩
      · cases gap with
        | nil =>
            have hlast : last.1 = [] ++ .response r response :: back := hlast.symm
            obtain ⟨-, rfl, rest, hfinish⟩ := hends.exists_of_response hlast
            rw [List.append_nil] at hm
            exact ⟨m, rest, h, hmore, hm, hfinish, rfl⟩
        | cons w gap =>
            obtain ⟨rfl, -⟩ := List.cons.inj hlast
            obtain ⟨m', rest, hreached, hevents, hm'⟩ := h.exists_of_response hm
            exact ⟨m', rest, hreached, hevents.trans hmore, hm'⟩

end HttpExchange.Server.Connection
