import HttpExchange.Http.Response
import HttpExchange.Proofs.Assembly.Written
import HttpExchange.Proofs.Headers.RoundTrip

/-! # The head of a response

The head lies between the status line and the first empty line. When every field can have a line
of its own, a reader finds in it the fields that were set and those that frame the body. -/

namespace HttpExchange

open Assembly (crlf terminator)

namespace Headers

/-- The fields as lines, with line breaks between them alone. -/
def joined (h : Headers) : Text := List.intercalate ['\r', '\n'] (h.toList.map lineOf)

theorem block_eq_append_joined {h : Headers} (hne : h.toList ≠ []) :
    h.block = ['\r', '\n'] ++ h.joined :=
  flatMap_eq_append_intercalate _ (by simpa using hne)

theorem render_eq_joined_append {h : Headers} (hne : h.toList ≠ []) :
    h.render = h.joined ++ ['\r', '\n'] := by
  have hblock := h.block_append_crlf
  rw [block_eq_append_joined hne, List.append_assoc] at hblock
  exact (List.append_cancel_left hblock).symm

/-- The fields are read as their lines show them. -/
theorem parseBlock?_joined_of_unbroken {h : Headers} (hne : h.toList ≠ [])
    (hunbroken : h.Unbroken) : parseBlock? h.joined = some ⟨h.toList.map shown⟩ := by
  have hlines : fieldLines h.joined = fieldLines h.block := by
    rw [block_eq_append_joined hne]
    rfl
  exact parseBlock?_of_fieldLines (hlines.trans (fieldLines_block hunbroken))

theorem parseBlock?_joined {h : Headers} (hne : h.toList ≠ [])
    (hlinear : ∀ field ∈ h.toList, Linear field) : parseBlock? h.joined = some h := by
  rw [parseBlock?_joined_of_unbroken hne (unbroken_of_linear hlinear), map_shown hlinear]

theorem closed_joined {h : Headers} (hne : h.toList ≠ []) (hunbroken : h.Unbroken) :
    ∀ i < (Utf8.encode h.joined).length,
      ¬ Window.Occurs terminator (Utf8.encode h.joined ++ terminator) i := by
  have hblock : Utf8.encode h.block = crlf ++ Utf8.encode h.joined := by
    rw [block_eq_append_joined hne, Utf8.encode_append]
    rfl
  intro i hi hoccurs
  apply Assembly.closed_block hunbroken (i + 2)
  · rw [hblock, List.length_append, Nat.add_comm]
    exact Nat.add_lt_add_left hi 2
  · rw [hblock]
    exact hoccurs

end Headers

namespace Response

/-- The octets between the first line and the first empty line behind it. -/
def headBlock? (octets : Bytes) : Option Bytes := do
  let line ← (Window.mk octets).find? crlf 0
  let behind := (Window.mk octets).consume (line + 2)
  let stop ← behind.find? terminator 0
  return behind.toList.take stop

/-- The fields that a reader finds in the head. -/
def received? (octets : Bytes) : Option Headers :=
  ((headBlock? octets).bind Utf8.decode?).bind Headers.parseBlock?

/-- The fields that are written, the length of the body last. -/
def sent (r : Response) : Headers :=
  r.framedHeaders.insert "Content-Length".toList (Numeral.ofNat r.body.length)

/-! ## The fields that are sent -/

theorem sent_ne_nil (r : Response) : r.sent.toList ≠ [] := by simp [sent]

/-- The fields that are added behind these: a content type when there is a body and no other
content type, the connection, and the length of the body. -/
def added (fields : List (Text × Text)) (body : Bytes) (keepAlive : Bool) : List (Text × Text) :=
  (if body ≠ [] ∧ ∀ field ∈ fields, field.1.sameLetters "content-type".toList = false then
    [("Content-Type".toList, "text/plain; charset=utf-8".toList)] else []) ++
    [("Connection".toList, if keepAlive then "keep-alive".toList else "close".toList),
      ("Content-Length".toList, Numeral.ofNat body.length)]

theorem toList_sent (r : Response) :
    r.sent.toList = r.headers.toList ++ added r.headers.toList r.body r.keepAlive := by
  have hfree : r.headers.contains "content-type".toList = false ↔
      ∀ field ∈ r.headers.toList, field.1.sameLetters "content-type".toList = false := by
    simp only [Headers.contains, List.any_eq_false, Bool.not_eq_true]
  have htyped : (!r.body.isEmpty && !r.headers.contains "content-type".toList) = true ↔
      r.body ≠ [] ∧
        ∀ field ∈ r.headers.toList, field.1.sameLetters "content-type".toList = false := by
    rw [Bool.and_eq_true, Bool.not_eq_true', Bool.not_eq_true', hfree, List.isEmpty_eq_false_iff]
  rw [sent, framedHeaders, Headers.toList_insert, Headers.toList_insert, added]
  by_cases h : r.body ≠ [] ∧
      ∀ field ∈ r.headers.toList, field.1.sameLetters "content-type".toList = false
  · rw [if_pos (htyped.mpr h), if_pos h, Headers.toList_insert]
    cases r.keepAlive <;> simp
  · rw [if_neg (mt htyped.mp h), if_neg h]
    cases r.keepAlive <;> simp

/-! ## The parts of the octets -/

theorem closed_line {line : Bytes} (h : ¬ crlf <:+: line) :
    ∀ i < line.length, ¬ Window.Occurs crlf (line ++ crlf) i := by
  intro i hi hoccurs
  have hne : line.drop i ≠ [] := by simpa using hi
  have hfree : ¬ crlf <:+: line.drop i :=
    fun hin => h (hin.trans (List.drop_suffix i line).isInfix)
  rw [Window.Occurs, List.drop_append_of_le_length hi.le] at hoccurs
  exact Assembly.not_crlf_prefix hne hfree [] (by simpa using hoccurs)

theorem headBlock?_of_closed {line block body : Bytes} (hline : ¬ crlf <:+: line)
    (hblock : ∀ i < block.length, ¬ Window.Occurs terminator (block ++ terminator) i) :
    headBlock? (line ++ crlf ++ (block ++ terminator ++ body)) = some block := by
  have hfirst : (Window.mk (line ++ crlf ++ (block ++ terminator ++ body))).find? crlf 0 =
      some line.length :=
    (Window.find?_zero_eq_some_iff (by decide)).mpr
      ⟨line, block ++ terminator ++ body, rfl, rfl, closed_line hline⟩
  have hbehind : (Window.mk (line ++ crlf ++ (block ++ terminator ++ body))).consume
      (line.length + 2) = ⟨block ++ terminator ++ body⟩ := by
    have htwo : line.length + 2 = (line ++ crlf).length := by
      rw [List.length_append]
      rfl
    rw [Window.consume, htwo, List.drop_left]
  have hstop : (Window.mk (block ++ terminator ++ body)).find? terminator 0 = some block.length :=
    (Window.find?_zero_eq_some_iff (by decide)).mpr ⟨block, body, rfl, rfl, hblock⟩
  simp only [headBlock?, hfirst, hbehind, hstop, Option.bind_eq_bind, Option.bind_some]
  rw [List.append_assoc, List.take_left]
  rfl

/-- The first line without its line break. -/
def statusLine (r : Response) : Text := "HTTP/1.1 ".toList ++ r.status.render

theorem not_crlf_infix_statusLine (r : Response) : ¬ crlf <:+: Utf8.encode r.statusLine := by
  have hparts (version code reason : Text) (hversion : '\r' ∉ version) (hcode : '\r' ∉ code)
      (hreason : '\r' ∉ reason) : '\r' ∉ version ++ (code ++ ' ' :: reason) := by
    simp [hversion, hcode, hreason]
  have hreasons : ∀ status : Status, '\r' ∉ status.reason := by
    intro status
    cases status <;> decide
  have hline : '\r' ∉ r.statusLine := by
    refine hparts _ _ _ (by decide) ?_ (hreasons r.status)
    intro hmem
    exact absurd (Numeral.isDigit_of_mem_ofNat hmem) (by decide)
  intro hin
  have htext : ['\r', '\n'] <:+: r.statusLine := Utf8.infix_of_encode (by decide) hin
  exact hline (htext.subset (by simp))

theorem render_sent (r : Response) : r.sent.render = r.framedHeaders.render ++
    Headers.renderField ("Content-Length".toList, Numeral.ofNat r.body.length) := by
  rw [sent, Headers.render, Headers.toList_insert, List.flatMap_append, List.flatMap_singleton]
  rfl

theorem head_eq (r : Response) :
    r.head = r.statusLine ++ ['\r', '\n'] ++ (r.sent.render ++ ['\r', '\n']) := by
  have hparts (line fields length : Text) :
      line ++ "\r\n".toList ++ fields ++ "Content-Length: ".toList ++ length ++
          "\r\n\r\n".toList =
        line ++ ['\r', '\n'] ++ (fields ++
          Headers.renderField ("Content-Length".toList, length) ++ ['\r', '\n']) := by
    simp only [Headers.renderField, List.append_assoc]
    rfl
  rw [render_sent]
  exact hparts r.statusLine r.framedHeaders.render (Numeral.ofNat r.body.length)

theorem toBytes_eq (r : Response) : r.toBytes = Utf8.encode r.statusLine ++ crlf ++
    (Utf8.encode r.sent.joined ++ terminator ++ r.body) := by
  have hcrlf : Utf8.encode ['\r', '\n'] = crlf := by decide
  have hterminator : terminator = crlf ++ crlf := by decide
  rw [toBytes, head_eq, Headers.render_eq_joined_append r.sent_ne_nil, hterminator]
  simp only [Utf8.encode_append, hcrlf, List.append_assoc]

/-- When each field can have a line of its own, the fields are found as they were written. -/
theorem received?_toBytes {r : Response} (h : ∀ field ∈ r.sent.toList, Headers.Linear field) :
    received? r.toBytes = some r.sent := by
  rw [received?, toBytes_eq, headBlock?_of_closed r.not_crlf_infix_statusLine
    (Headers.closed_joined r.sent_ne_nil (Headers.unbroken_of_linear h)), Option.bind_some,
    Utf8.decode?_encode, Option.bind_some, Headers.parseBlock?_joined r.sent_ne_nil h]

/-- A value that is received stands on one line. -/
theorem not_crlf_infix_of_received? {octets : Bytes} {h : Headers} {field : Text × Text}
    (hread : received? octets = some h) (hfield : field ∈ h.toList) :
    ¬ ['\r', '\n'] <:+: field.2 := by
  obtain ⟨text, -, hparse⟩ := Option.bind_eq_some_iff.mp hread
  exact (Headers.linear_of_parseBlock? hparse field hfield).value

end Response

end HttpExchange
