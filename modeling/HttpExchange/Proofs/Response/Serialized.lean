import HttpExchange.Proofs.Response.Cookies

/-! # Responses that are made and read

A response is made in steps: fields add up in the order of the steps, and of the bodies, as of the
words on the connection, the last one counts. When every field can have a line of its own, the
octets that are sent fall apart at their first empty line into just what the steps asked for. -/

namespace HttpExchange.Response

open Assembly (crlf terminator)

/-! ## What the steps ask for -/

/-- One step in the making of a response. -/
inductive Step where
  | header (name value : Text)
  | cookie (c : Cookie)
  | text (body : Text)
  | octets (body : Bytes)
  | connection (keepAlive : Bool)

namespace Step

/-- The field that is added. -/
def field? : Step → Option (Text × Text)
  | header name value => some (name, value)
  | cookie c => if c.hasValidName then some (cookieField c) else none
  | _ => none

def body? : Step → Option Bytes
  | text body => some (Utf8.encode body)
  | octets body => some body
  | _ => none

def keepAlive? : Step → Option Bool
  | connection keepAlive => some keepAlive
  | _ => none

end Step

/-- The response after one more step. -/
def apply (r : Response) : Step → Response
  | .header name value => r.withHeader name value
  | .cookie c => r.withCookie c
  | .text body => r.withText body
  | .octets body => r.withBody body
  | .connection keepAlive => r.withKeepAlive keepAlive

/-- The response that the steps make. -/
def made (status : Status) (steps : List Step) : Response := steps.foldl apply (new status)

def fieldsOf (steps : List Step) : List (Text × Text) := steps.filterMap Step.field?

/-- The body that was set last. -/
def bodyOf (steps : List Step) : Bytes := (steps.filterMap Step.body?).getLast?.getD []

/-- What was said last about the connection, which stays open when nothing was. -/
def keepAliveOf (steps : List Step) : Bool :=
  (steps.filterMap Step.keepAlive?).getLast?.getD true

theorem apply_eq (r : Response) (step : Step) : r.apply step =
    ⟨r.status, ⟨r.headers.toList ++ step.field?.toList⟩, step.body?.getD r.body,
      step.keepAlive?.getD r.keepAlive⟩ := by
  cases step with
  | cookie c =>
      by_cases hname : c.hasValidName = true
      · rw [apply, withCookie, if_pos hname, Step.field?, if_pos hname]
        rfl
      · rw [apply, withCookie, if_neg hname, Step.field?, if_neg hname, Option.toList_none,
          List.append_nil]
        rfl
  | _ =>
      simp [apply, withHeader, Headers.insert, withText, withBody, withKeepAlive, Step.field?,
        Step.body?, Step.keepAlive?]

theorem status_foldl (steps : List Step) (r : Response) :
    (steps.foldl apply r).status = r.status := by
  induction steps generalizing r with
  | nil => rfl
  | cons step steps ih => rw [List.foldl_cons, ih, apply_eq]

theorem headers_foldl (steps : List Step) (r : Response) :
    (steps.foldl apply r).headers.toList = r.headers.toList ++ fieldsOf steps := by
  induction steps generalizing r with
  | nil => exact (List.append_nil _).symm
  | cons step steps ih =>
      rw [List.foldl_cons, ih, apply_eq, List.append_assoc, fieldsOf, fieldsOf]
      cases hfield : step.field? with
      | none => simp [hfield]
      | some field => simp [hfield]

theorem body_foldl (steps : List Step) (r : Response) :
    (steps.foldl apply r).body = (steps.filterMap Step.body?).getLast?.getD r.body := by
  have hstep (s : Response) (step : Step) :
      (s.apply step).body = (step.body?.map id).getD s.body := by
    rw [apply_eq, Option.map_id_fun, id]
  have hlast := foldl_eq_getLast? Response.body Step.body? id hstep steps r
  rwa [Option.map_id_fun, id] at hlast

theorem keepAlive_foldl (steps : List Step) (r : Response) : (steps.foldl apply r).keepAlive =
    (steps.filterMap Step.keepAlive?).getLast?.getD r.keepAlive := by
  have hstep (s : Response) (step : Step) :
      (s.apply step).keepAlive = (step.keepAlive?.map id).getD s.keepAlive := by
    rw [apply_eq, Option.map_id_fun, id]
  have hlast := foldl_eq_getLast? Response.keepAlive Step.keepAlive? id hstep steps r
  rwa [Option.map_id_fun, id] at hlast

/-- The steps make a response of just what they ask for. -/
theorem made_eq (status : Status) (steps : List Step) :
    made status steps = ⟨status, ⟨fieldsOf steps⟩, bodyOf steps, keepAliveOf steps⟩ := by
  have hstatus : (made status steps).status = status := status_foldl steps (new status)
  have hheaders : (made status steps).headers = ⟨fieldsOf steps⟩ :=
    congrArg Headers.mk (headers_foldl steps (new status))
  have hbody : (made status steps).body = bodyOf steps := body_foldl steps (new status)
  have hkeepAlive : (made status steps).keepAlive = keepAliveOf steps :=
    keepAlive_foldl steps (new status)
  exact congr (congr (congr (congrArg Response.mk hstatus) hheaders) hbody) hkeepAlive

theorem linear_of_mem_added {fields : List (Text × Text)} {body : Bytes} {keepAlive : Bool}
    {field : Text × Text} (h : field ∈ added fields body keepAlive) : Headers.Linear field := by
  apply linear_of_mem_framing (r := ⟨.ok, .empty, body, keepAlive⟩)
  rcases List.mem_append.mp h with h | h
  · apply List.mem_append_left
    split_ifs at h with hadded
    · rwa [if_neg hadded.1]
    · cases h
  · exact List.mem_append_right _ h

/-! ## The first empty line -/

/-- Octets that begin with this line, have this block up to their first empty line, and this body
behind it. -/
structure Parts (octets : Bytes) (line block : Text) (body : Bytes) : Prop where
  octets_eq : octets =
    Utf8.encode line ++ crlf ++ (Utf8.encode block ++ terminator ++ body)
  first_line : (Window.mk octets).find? crlf 0 = some (Utf8.encode line).length
  empty_line : (Window.mk octets).find? terminator 0 =
    some (Utf8.encode line ++ crlf ++ Utf8.encode block).length

theorem Parts.unique {octets body body' : Bytes} {line line' block block' : Text}
    (h : Parts octets line block body) (h' : Parts octets line' block' body') :
    line = line' ∧ block = block' ∧ body = body' := by
  have hline : (Utf8.encode line).length = (Utf8.encode line').length :=
    Option.some.inj (h.first_line.symm.trans h'.first_line)
  have hempty := Option.some.inj (h.empty_line.symm.trans h'.empty_line)
  have hoctets := h.octets_eq.symm.trans h'.octets_eq
  simp only [List.append_assoc] at hoctets
  obtain ⟨hfirst, hbehind⟩ := List.append_inj hoctets hline
  have hblock : (Utf8.encode block).length = (Utf8.encode block').length := by
    simp only [List.length_append, hline] at hempty
    exact Nat.add_left_cancel hempty
  obtain ⟨hsecond, hrest⟩ := List.append_inj (List.append_cancel_left hbehind) hblock
  exact ⟨Utf8.encode_injective hfirst, Utf8.encode_injective hsecond,
    List.append_cancel_left hrest⟩

/-- Before lines that hold something and end at the first terminator another line may stand. -/
theorem closed_line_append {line lines : Bytes} (hline : ¬ crlf <:+: line)
    (hstart : crlf <+: lines)
    (hlines : ∀ i < lines.length, ¬ Window.Occurs terminator (lines ++ terminator) i) :
    ∀ i < (line ++ lines).length, ¬ Window.Occurs terminator (line ++ lines ++ terminator) i := by
  obtain ⟨more, rfl⟩ := hstart
  intro i hi hoccurs
  rcases Nat.lt_or_ge i line.length with hinside | hbehind
  · -- half a terminator would be a line break that begins before the line ends
    have hhalf : crlf <+: terminator := List.prefix_append crlf crlf
    have hfront : line ++ (crlf ++ more) ++ terminator =
        line ++ crlf ++ (more ++ terminator) := by simp only [List.append_assoc]
    have hfits : i + crlf.length ≤ (line ++ crlf).length := by
      rw [List.length_append]
      exact Nat.add_le_add_right hinside.le _
    rw [hfront] at hoccurs
    have hbreak := (Window.occurs_append_iff _ hfits).mp (hhalf.trans hoccurs)
    exact closed_line hline i hinside hbreak
  · obtain ⟨j, rfl⟩ := Nat.exists_eq_add_of_le hbehind
    rw [Window.Occurs, List.append_assoc, ← List.drop_drop, List.drop_left] at hoccurs
    rw [List.length_append] at hi
    exact hlines j (Nat.lt_of_add_lt_add_left hi) hoccurs

theorem parts_of_unbroken {line : Text} {h : Headers} (hline : ¬ crlf <:+: Utf8.encode line)
    (hne : h.toList ≠ []) (hunbroken : h.Unbroken) (body : Bytes) :
    Parts (Utf8.encode line ++ crlf ++ (Utf8.encode h.joined ++ terminator ++ body)) line h.joined
      body := by
  have hblock : Utf8.encode h.block = crlf ++ Utf8.encode h.joined := by
    rw [Headers.block_eq_append_joined hne, Utf8.encode_append]
    rfl
  -- the line break behind the first line is the one before the first field
  have hclosed := closed_line_append hline ⟨_, hblock.symm⟩ (Assembly.closed_block hunbroken)
  rw [hblock, ← List.append_assoc] at hclosed
  refine ⟨rfl, ?_, ?_⟩
  · exact (Window.find?_zero_eq_some_iff (by decide)).mpr
      ⟨Utf8.encode line, Utf8.encode h.joined ++ terminator ++ body, rfl, rfl, closed_line hline⟩
  · refine (Window.find?_zero_eq_some_iff (by decide)).mpr
      ⟨Utf8.encode line ++ crlf ++ Utf8.encode h.joined, body, ?_, rfl, hclosed⟩
    simp only [List.append_assoc]

theorem parts_toBytes_of_unbroken {r : Response} (h : r.sent.Unbroken) :
    Parts r.toBytes r.statusLine r.sent.joined r.body := by
  have hparts := parts_of_unbroken r.not_crlf_infix_statusLine r.sent_ne_nil h r.body
  rwa [← toBytes_eq] at hparts

theorem parts_toBytes {r : Response} (h : ∀ field ∈ r.sent.toList, Headers.Linear field) :
    Parts r.toBytes r.statusLine r.sent.joined r.body :=
  parts_toBytes_of_unbroken (Headers.unbroken_of_linear h)

/-- Octets tell the status, the fields that are sent and the body. -/
theorem toBytes_eq_iff {r r' : Response} (h : ∀ field ∈ r.sent.toList, Headers.Linear field)
    (h' : ∀ field ∈ r'.sent.toList, Headers.Linear field) :
    r.toBytes = r'.toBytes ↔ r.status = r'.status ∧ r.sent = r'.sent ∧ r.body = r'.body := by
  constructor
  · intro hbytes
    have hparts := parts_toBytes h'
    rw [← hbytes] at hparts
    obtain ⟨hline, hjoined, hbody⟩ := (parts_toBytes h).unique hparts
    have hread := congrArg Headers.parseBlock? hjoined
    rw [Headers.parseBlock?_joined r.sent_ne_nil h,
      Headers.parseBlock?_joined r'.sent_ne_nil h'] at hread
    exact ⟨Status.render_injective (List.append_cancel_left hline), Option.some.inj hread, hbody⟩
  · rintro ⟨hstatus, hsent, hbody⟩
    have hline : r.statusLine = r'.statusLine :=
      congrArg (fun status : Status => "HTTP/1.1 ".toList ++ status.render) hstatus
    rw [toBytes_eq r, toBytes_eq r', hline, hsent, hbody]

/-- When every field can have a line of its own, what is sent is the line of the status, a block
that reads as the fields in their order with those that are added, and behind the first empty line
the body. -/
theorem parts_toBytes_made (status : Status) (steps : List Step)
    (h : ∀ field ∈ fieldsOf steps, Headers.Linear field) :
    ∃ block : Text,
      Parts (made status steps).toBytes ("HTTP/1.1 ".toList ++ status.render) block
        (bodyOf steps) ∧
      Headers.parseBlock? block =
        some ⟨fieldsOf steps ++ added (fieldsOf steps) (bodyOf steps) (keepAliveOf steps)⟩ := by
  rw [made_eq]
  set r : Response := ⟨status, ⟨fieldsOf steps⟩, bodyOf steps, keepAliveOf steps⟩
  have hfields := toList_sent r
  have hlinear : ∀ field ∈ r.sent.toList, Headers.Linear field := by
    rw [hfields]
    intro field hfield
    rcases List.mem_append.mp hfield with hfield | hfield
    · exact h field hfield
    · exact linear_of_mem_added hfield
  refine ⟨r.sent.joined, parts_toBytes hlinear, ?_⟩
  rw [Headers.parseBlock?_joined r.sent_ne_nil hlinear]
  exact congrArg (some ∘ Headers.mk) hfields

/-- A field without a name or a value, a value that ends in half a line break, a content type in
other letters, a cookie that is dropped, and of two bodies one that is a terminator. -/
theorem parts_toBytes_made_csv :
    let steps := [.header [] [], .cookie (Cookie.new "a b".toList "1".toList),
      .text "first".toList, .header "Note".toList "a: b\r".toList, .connection false,
      .cookie (Cookie.new "sid".toList "x y".toList),
      .header "CONTENT-type".toList "text/csv".toList, .octets terminator]
    (∀ field ∈ fieldsOf steps, Headers.Linear field) ∧
    ∃ block : Text,
      Parts (made .ok steps).toBytes "HTTP/1.1 200 OK".toList block terminator ∧
      Headers.parseBlock? block = some ⟨[([], []), ("Note".toList, "a: b\r".toList),
        ("Set-Cookie".toList, "sid=\"x y\"".toList), ("CONTENT-type".toList, "text/csv".toList),
        ("Connection".toList, "close".toList), ("Content-Length".toList, "4".toList)]⟩ := by
  intro steps
  have hlinear : ∀ field ∈ fieldsOf steps, Headers.Linear field := by decide +kernel
  obtain ⟨block, hparts, hparse⟩ := parts_toBytes_made .ok steps hlinear
  have hline : "HTTP/1.1 ".toList ++ Status.ok.render = "HTTP/1.1 200 OK".toList := by decide
  have hbody : bodyOf steps = terminator := by decide
  rw [hline, hbody] at hparts
  exact ⟨hlinear, block, hparts, hparse.trans (by decide)⟩

end HttpExchange.Response
