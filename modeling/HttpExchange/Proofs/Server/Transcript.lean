import HttpExchange.Proofs.Pipeline.Pieces
import HttpExchange.Server.Connection

/-! # The transcript of a connection

What a connection writes depends on the octets that it reads and not on how they are cut into
reads, whatever its handler. Reads that are followed by the end of the input are answered as if all
of their octets had been taken at once, and for an application that does not remember this is the
transcript of the requests that they hold. -/

namespace HttpExchange.Server.Connection

/-! ## The answer to what was taken -/

section

variable {handler : Handler} {a : Assembly}

theorem answer_of_none (h : a.finish? = none) (past : List Request) (received : Nat) :
    answer handler past a received = await a received := by
  rw [answer]
  split
  · rfl
  · rename_i heq
    rw [h] at heq
    cases heq

theorem answer_of_malformed (h : a.isMalformed = true) (past : List Request) (received : Nat) :
    answer handler past a received = reject .malformed := by
  rw [answer_of_none (Assembly.finish?_of_malformed h), await, if_pos h]

theorem answer_of_waiting (hfinish : a.finish? = none) (h : a.isMalformed = false)
    (past : List Request) (received : Nat) :
    answer handler past a received = ([], reading a received) := by
  rw [answer_of_none hfinish, await, if_neg (by simp [h])]

theorem answer_of_some {r : Request} {rest : Bytes} (h : a.finish? = some (r, rest))
    (past : List Request) (received : Nat) :
    answer handler past a received =
      if (respond (handler past) r).keepAlive then
        Write.before (.response r (respond (handler past) r))
          (answer handler (past ++ [r]) (Assembly.empty.feed rest) rest.length)
      else ([.response r (respond (handler past) r)], closed) := by
  rw [answer]
  split
  · rename_i heq
    rw [h] at heq
    cases heq
  · rename_i heq
    rw [h] at heq
    obtain ⟨rfl, rfl⟩ := Prod.mk.inj (Option.some.inj heq)
    rfl

theorem answer_of_open {r : Request} {rest : Bytes} (h : a.finish? = some (r, rest))
    {past : List Request} (hopen : (respond (handler past) r).keepAlive = true)
    (received : Nat) :
    answer handler past a received =
      Write.before (.response r (respond (handler past) r))
        (answer handler (past ++ [r]) (Assembly.empty.feed rest) rest.length) := by
  rw [answer_of_some h, if_pos hopen]

theorem answer_of_ended {r : Request} {rest : Bytes} (h : a.finish? = some (r, rest))
    {past : List Request} (hended : ¬ (respond (handler past) r).keepAlive = true)
    (received : Nat) :
    answer handler past a received = ([.response r (respond (handler past) r)], closed) := by
  rw [answer_of_some h, if_neg hended]

/-- The octets that a malformed assembly holds do not count. -/
theorem answer_congr {b : Assembly} (h : a.core = b.core) (past : List Request)
    (received : Nat) : answer handler past a received = answer handler past b received := by
  cases ha : a.isMalformed with
  | false => rw [Assembly.eq_of_core_eq h ha]
  | true =>
      have hb : b.isMalformed = true := by
        rw [← Assembly.isMalformed_core, ← h, Assembly.isMalformed_core, ha]
      rw [answer_of_malformed ha, answer_of_malformed hb]

end

/-! ## One event, and any number of them -/

section

variable {limits : Limits} {handler : Handler} {past : List Request} {a : Assembly}
  {received : Nat} {b : Bytes}

theorem step_octets (hne : b ≠ []) (hsize : received + b.length ≤ limits.maxRequestBytes) :
    step limits handler past (reading a received) (.octets b) =
      answer handler past (a.feed b) (received + b.length) := by
  simp only [step, List.isEmpty_eq_false_iff.mpr hne, Bool.false_eq_true, if_false, read,
    if_neg (Nat.not_lt.mpr hsize)]

theorem step_octets_of_lt (hne : b ≠ [])
    (hsize : limits.maxRequestBytes < received + b.length) :
    step limits handler past (reading a received) (.octets b) = reject .tooLarge := by
  simp only [step, List.isEmpty_eq_false_iff.mpr hne, Bool.false_eq_true, if_false, read,
    if_pos hsize]

end

@[simp] theorem answered_append (written later : List Write) :
    answered (written ++ later) = answered written ++ answered later := List.filterMap_append

section

variable (limits : Limits) (handler : Handler) (past : List Request)

/-- What follows upon events when something was written before. -/
def resume (out : List Write × Connection) (events : List Event) : List Write × Connection :=
  let later := serve limits handler (past ++ answered out.1) out.2 events
  (out.1 ++ later.1, later.2)

theorem serve_cons (c : Connection) (e : Event) (events : List Event) :
    serve limits handler past c (e :: events) =
      resume limits handler past (c.step limits handler past e) events := rfl

@[simp] theorem serve_closed (events : List Event) :
    serve limits handler past closed events = ([], closed) := by
  induction events generalizing past with
  | nil => rfl
  | cons e events ih =>
      rw [serve_cons]
      exact ih _

@[simp] theorem resume_closed (written : List Write) (events : List Event) :
    resume limits handler past (written, closed) events = (written, closed) := by
  simp [resume]

@[simp] theorem resume_nil (out : List Write × Connection) :
    resume limits handler past out [] = out := by
  simp [resume, serve]

theorem resume_silent (c : Connection) (events : List Event) :
    resume limits handler past ([], c) events = serve limits handler past c events := by
  simp [resume, answered]

/-- Behind the response to a request, what follows is answered in the light of it. -/
theorem resume_response (r : Request) (response : Response) (out : List Write × Connection)
    (events : List Event) :
    resume limits handler past (Write.before (.response r response) out) events =
      Write.before (.response r response) (resume limits handler (past ++ [r]) out events) := by
  simp [resume, Write.before, answered, Write.request?]

theorem serve_append (c : Connection) (events more : List Event) :
    serve limits handler past c (events ++ more) =
      resume limits handler past (serve limits handler past c events) more := by
  induction events generalizing past c with
  | nil => rw [List.nil_append, serve, resume_silent]
  | cons e events ih =>
      rw [List.cons_append, serve_cons, serve_cons, resume, ih]
      simp [resume]

end

/-! ## Any cut into reads -/

/-- The events of reads that are followed by the end of the input. -/
def streamed (reads : List Bytes) : List Event := reads.map .octets ++ [.endOfInput]

/-- On a connection that waits for the rest of a request, the reads are answered as if the octets
of the request had come with them. -/
def Continues (limits : Limits) (handler : Handler) (reads : List Bytes) : Prop :=
  ∀ past octets received count, (Assembly.empty.feed octets).finish? = none →
    (Assembly.empty.feed octets).isMalformed = false → octets.length ≤ received →
    received + reads.flatten.length ≤ limits.maxRequestBytes →
    (serve limits handler past (reading (Assembly.empty.feed octets) received)
        (streamed reads)).1 =
      (answer handler past (Assembly.empty.feed (octets ++ reads.flatten)) count).1

section

variable {limits : Limits} {handler : Handler} {reads : List Bytes}

theorem Continues.resume (hreads : Continues limits handler reads) (past : List Request)
    (octets : Bytes) (received count : Nat) (hle : octets.length ≤ received)
    (hsize : received + reads.flatten.length ≤ limits.maxRequestBytes) :
    (resume limits handler past (answer handler past (Assembly.empty.feed octets) received)
        (streamed reads)).1 =
      (answer handler past (Assembly.empty.feed (octets ++ reads.flatten)) count).1 := by
  induction octets using Pipeline.ofBytes.induct generalizing past received count with
  | case1 octets a h =>
      cases hm : (Assembly.empty.feed octets).isMalformed with
      | true =>
          have hmore := Assembly.isMalformed_feed_append hm reads.flatten
          rw [answer_of_malformed hm, answer_of_malformed hmore, reject, resume_closed]
      | false =>
          rw [answer_of_waiting h hm, resume_silent]
          exact hreads past octets received count h hm hle hsize
  | case2 octets a r rest h ih =>
      have hmore := Assembly.finish?_feed_append h reads.flatten
      have hlt := Assembly.finish?_feed_empty_length_lt h
      by_cases hopen : (respond (handler past) r).keepAlive = true
      · have hrest := ih (past ++ [r]) rest.length (rest ++ reads.flatten).length le_rfl
          (by omega)
        rw [answer_of_open h hopen, answer_of_open hmore hopen, resume_response]
        simp only [Write.before, hrest]
      · rw [answer_of_ended h hopen, answer_of_ended hmore hopen, resume_closed]

theorem continues_of_ne_nil (hne : ∀ b ∈ reads, b ≠ []) : Continues limits handler reads := by
  induction reads with
  | nil =>
      intro past octets received count h hm _ _
      rw [List.flatten_nil, List.append_nil, answer_of_waiting h hm]
      rfl
  | cons b reads ih =>
      intro past octets received count h hm hle hsize
      have hreads := ih fun c hc => hne c (List.mem_cons_of_mem b hc)
      rw [List.flatten_cons, List.length_append] at hsize
      have hread : received + b.length ≤ limits.maxRequestBytes := by omega
      have hstep : (reading (Assembly.empty.feed octets) received).step limits handler past
          (.octets b) =
            answer handler past (Assembly.empty.feed (octets ++ b)) (received + b.length) := by
        rw [step_octets (hne b List.mem_cons_self) hread,
          answer_congr (Assembly.core_feed_feed octets b)]
      have hrun := hreads.resume past (octets ++ b) (received + b.length) count (by
        rw [List.length_append]
        omega) (by omega)
      have hevents : streamed (b :: reads) = .octets b :: streamed reads := rfl
      rw [List.flatten_cons, ← List.append_assoc, ← hrun, hevents, serve_cons, hstep]

end

/-! ## The transcript of an application -/

variable (app : Request → Response)

/-- Behind this request the connection stays open, as peer and application want it. -/
def staysOpen (r : Request) : Bool := r.keepAlive && (app r).keepAlive

/-- The octets that are to be written for what a pipeline has made of its octets: the responses in
order, up to the first one behind which the connection ends, and if there is none such, a
rejection of what is malformed. -/
def transcript (p : Pipeline) : Bytes :=
  (p.finished.takeWhile (staysOpen app)).flatMap (fun r => (app r).toBytes) ++
    match p.finished.dropWhile (staysOpen app) with
    | r :: _ => ((app r).withKeepAlive false).toBytes
    | [] =>
      if p.current.isMalformed then
        (((Response.new .badRequest).withText "Bad Request".toList).withKeepAlive false).toBytes
      else []

theorem respond_of_staysOpen {r : Request} (h : staysOpen app r = true) :
    respond app r = app r := by
  simp only [staysOpen, Bool.and_eq_true] at h
  rw [respond, if_pos h.1]

theorem respond_of_not_staysOpen {r : Request} (h : ¬ staysOpen app r = true) :
    respond app r = (app r).withKeepAlive false := by
  rw [respond]
  split
  · rename_i hpeer
    have happ : (app r).keepAlive = false := by simpa [staysOpen, hpeer] using h
    rw [Response.withKeepAlive, ← happ]
  · rfl

theorem keepAlive_respond (r : Request) : (respond app r).keepAlive = staysOpen app r := by
  by_cases h : staysOpen app r = true
  · rw [respond_of_staysOpen app h, h]
    simp only [staysOpen, Bool.and_eq_true] at h
    exact h.2
  · rw [respond_of_not_staysOpen app h, Response.withKeepAlive, eq_comm]
    simpa using h

theorem transcript_after_of_staysOpen {r : Request} (h : staysOpen app r = true)
    (p : Pipeline) : transcript app (p.after [r]) = (app r).toBytes ++ transcript app p := by
  rw [transcript, transcript, Pipeline.after, List.singleton_append,
    List.takeWhile_cons_of_pos h, List.dropWhile_cons_of_pos h, List.flatMap_cons,
    List.append_assoc]

theorem transcript_after_of_not_staysOpen {r : Request} (h : ¬ staysOpen app r = true)
    (p : Pipeline) : transcript app (p.after [r]) = ((app r).withKeepAlive false).toBytes := by
  simp only [transcript, Pipeline.after, List.singleton_append, List.takeWhile_cons_of_neg h,
    List.dropWhile_cons_of_neg h, List.flatMap_nil, List.nil_append]

theorem toBytes_answer (past : List Request) (octets : Bytes) (received : Nat) :
    (answer (fun _ => app) past (Assembly.empty.feed octets) received).1.flatMap Write.toBytes =
      transcript app (Pipeline.ofBytes octets) := by
  induction octets using Pipeline.ofBytes.induct generalizing past received with
  | case1 octets a h =>
      rw [Pipeline.ofBytes_of_none h]
      cases hm : (Assembly.empty.feed octets).isMalformed with
      | true =>
          rw [answer_of_malformed hm]
          simp [transcript, hm, reject, Write.toBytes, Rejection.response]
      | false =>
          rw [answer_of_waiting h hm]
          simp [transcript, hm]
  | case2 octets a r rest h ih =>
      rw [Pipeline.ofBytes_of_some h]
      by_cases hopen : staysOpen app r = true
      · have hkeep := (keepAlive_respond app r).trans hopen
        rw [answer_of_open h hkeep, transcript_after_of_staysOpen app hopen, Write.before,
          List.flatMap_cons, ih, Write.toBytes, respond_of_staysOpen app hopen]
      · have hkeep : ¬ (respond app r).keepAlive = true := by
          rw [keepAlive_respond]
          exact hopen
        rw [answer_of_ended h hkeep, transcript_after_of_not_staysOpen app hopen,
          List.flatMap_singleton, Write.toBytes, respond_of_not_staysOpen app hopen]

/-- Reads of at least one octet that stay below the ceiling together, followed by the end of the
input, are answered by the transcript of the requests that their octets hold. -/
theorem toBytes_run_streamed (limits : Limits) (octets : Bytes) (reads : List Bytes)
    (h : reads.flatten = octets) (hne : ∀ b ∈ reads, b ≠ [])
    (hsize : octets.length ≤ limits.maxRequestBytes) :
    (run limits app opened (streamed reads)).1.flatMap Write.toBytes =
      transcript app (Pipeline.ofBytes octets) := by
  have hsize' : 0 + reads.flatten.length ≤ limits.maxRequestBytes := by
    rw [h]
    omega
  have hcontinues : Continues limits (fun _ => app) reads := continues_of_ne_nil hne
  have hrun := hcontinues [] [] 0 octets.length rfl rfl le_rfl hsize'
  rw [List.nil_append, h] at hrun
  rw [← toBytes_answer app [] octets octets.length, ← hrun]
  rfl

/-- Three requests in reads that end within them; the second one asks for the end, and the third
stays unanswered. -/
theorem toBytes_run_three_gets :
    let octets := Utf8.encode ("GET /a HTTP/1.1\r\n\r\nGET /b HTTP/1.1\r\n".toList ++
      "Connection: close\r\n\r\nGET /c HTTP/1.1\r\n\r\n".toList)
    let reads := [Utf8.encode "GET /a HTTP/1.1\r\n\r".toList,
      Utf8.encode "\nGET /b HTTP/1.1\r\n".toList,
      Utf8.encode "Connection: close\r\n\r\nGET /c HTTP/1.1\r\n\r\n".toList]
    let app : Request → Response := fun r => (Response.new .ok).withText r.target
    let first := "HTTP/1.1 200 OK\r\nContent-Type: text/plain; charset=utf-8\r\n".toList ++
      "Connection: keep-alive\r\nContent-Length: 2\r\n\r\n/a".toList
    let second := "HTTP/1.1 200 OK\r\nContent-Type: text/plain; charset=utf-8\r\n".toList ++
      "Connection: close\r\nContent-Length: 2\r\n\r\n/b".toList
    reads.flatten = octets ∧ (∀ b ∈ reads, b ≠ []) ∧
      octets.length ≤ Limits.standard.maxRequestBytes ∧
      (run Limits.standard app opened (streamed reads)).1.flatMap Write.toBytes =
        transcript app (Pipeline.ofBytes octets) ∧
      transcript app (Pipeline.ofBytes octets) = Utf8.encode (first ++ second) := by
  intro octets reads app first second
  have hreads : reads.flatten = octets := by decide
  have hne : ∀ b ∈ reads, b ≠ [] := by decide
  have hsize : octets.length ≤ Limits.standard.maxRequestBytes := by decide
  have hoctets : transcript app (Pipeline.ofBytes octets) = Utf8.encode (first ++ second) := by
    decide +kernel
  exact ⟨hreads, hne, hsize,
    toBytes_run_streamed app Limits.standard octets reads hreads hne hsize, hoctets⟩

end HttpExchange.Server.Connection
