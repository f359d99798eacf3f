import HttpExchange.Proofs.Assembly.Grammar
import HttpExchange.Proofs.Headers.Lines
import HttpExchange.Proofs.Text.Ascii

/-! # Requests that are written and read

A request is written with its fields as the lines of a header list. It is read back, whatever
follows it, when no text of it holds a mark that ends its part: the first terminator is then the
one behind the fields, though a value may be empty or end in half a line break, and a body may
hold anything. -/

namespace HttpExchange.Assembly

/-- The octets of a request, its fields written as lines. -/
def written (r : Request) : Bytes :=
  r.method.octets ++ [32] ++ Utf8.encode r.target ++ [32] ++ versionLine ++
    Utf8.encode r.headers.render ++ crlf ++ r.payload

/-- No text of the request holds a mark that ends its part, and the fields announce the body. -/
structure Plain (r : Request) : Prop where
  version : r.version = Request.http11
  target : ' ' ∉ r.target ∧ '\r' ∉ r.target ∧ '\n' ∉ r.target
  fields : ∀ field ∈ r.headers.toList, Headers.Linear field
  framed : Headers.Framed r.headers r.body

/-! ## The first terminator -/

/-- A line break ends a line, even one that ends in a carriage return. -/
theorem not_crlf_prefix {line : Bytes} (hne : line ≠ []) (h : ¬ crlf <:+: line) (more : Bytes) :
    ¬ crlf <+: line ++ (crlf ++ more) := by
  intro hstart
  rcases line with _ | ⟨b, _ | ⟨c, line⟩⟩
  · exact hne rfl
  · obtain ⟨-, hlf⟩ := List.cons_prefix_cons.mp hstart
    obtain ⟨heq, -⟩ := List.cons_prefix_cons.mp hlf
    exact absurd heq (by decide)
  · apply h
    obtain ⟨rfl, hlf⟩ := List.cons_prefix_cons.mp hstart
    obtain ⟨rfl, -⟩ := List.cons_prefix_cons.mp hlf
    exact ⟨[], line, rfl⟩

theorem exists_flatMap_eq_crlf_append (lines : List Bytes) :
    ∃ more, lines.flatMap (crlf ++ ·) ++ terminator = crlf ++ more := by
  cases lines with
  | nil => exact ⟨crlf, rfl⟩
  | cons line lines => exact ⟨line ++ (lines.flatMap (crlf ++ ·) ++ terminator), by simp⟩

/-- Behind lines that hold something the first terminator is the one that ends them. -/
theorem closed_of_lines {lines : List Bytes} (h : ∀ line ∈ lines, line ≠ [] ∧ ¬ crlf <:+: line) :
    ∀ i < (lines.flatMap (crlf ++ ·)).length,
      ¬ Window.Occurs terminator (lines.flatMap (crlf ++ ·) ++ terminator) i := by
  have hterminator : terminator = crlf ++ crlf := rfl
  induction lines with
  | nil => exact fun i hi => absurd hi (Nat.not_lt_zero i)
  | cons line lines ih =>
      obtain ⟨hne, hfree⟩ := h line List.mem_cons_self
      have hrest := ih fun l hl => h l (List.mem_cons_of_mem line hl)
      have hoctets : (line :: lines).flatMap (crlf ++ ·) ++ terminator =
          crlf ++ (line ++ (lines.flatMap (crlf ++ ·) ++ terminator)) := by simp
      obtain ⟨more, hmore⟩ := exists_flatMap_eq_crlf_append lines
      intro i hi hoccurs
      rw [Window.Occurs, hoctets] at hoccurs
      rcases i with _ | _ | j
      · rw [hmore, hterminator] at hoccurs
        exact not_crlf_prefix hne hfree more ((List.prefix_append_right_inj crlf).mp hoccurs)
      · exact absurd (List.cons_prefix_cons.mp hoccurs).1 (by decide)
      · change terminator <+: (line ++ _).drop j at hoccurs
        rcases Nat.lt_or_ge j line.length with hj | hj
        · -- the line goes on behind the offset, and no line break begins in it
          rw [List.drop_append_of_le_length hj.le, hmore] at hoccurs
          have hne' : line.drop j ≠ [] := by simpa using hj
          have hfree' : ¬ crlf <:+: line.drop j :=
            fun hin => hfree (hin.trans (List.drop_suffix j line).isInfix)
          exact not_crlf_prefix hne' hfree' more ((List.prefix_append crlf crlf).trans hoccurs)
        · obtain ⟨k, rfl⟩ := Nat.exists_eq_add_of_le hj
          rw [← List.drop_drop, List.drop_left] at hoccurs
          refine hrest k ?_ hoccurs
          have htwo : crlf.length = 2 := rfl
          rw [List.flatMap_cons, List.length_append, List.length_append, htwo] at hi
          omega

/-! ## Plain requests -/

theorem encode_block (h : Headers) : Utf8.encode h.block =
    (h.toList.map fun field => Utf8.encode (Headers.lineOf field)).flatMap (crlf ++ ·) := by
  simp only [Headers.block, Utf8.encode_flatMap, Utf8.encode_append, List.flatMap_map]
  rfl

theorem closed_block {h : Headers} (hunbroken : h.Unbroken) :
    ∀ i < (Utf8.encode h.block).length,
      ¬ Window.Occurs terminator (Utf8.encode h.block ++ terminator) i := by
  rw [encode_block]
  apply closed_of_lines
  intro line hline
  obtain ⟨field, hfield, rfl⟩ := List.mem_map.mp hline
  constructor
  · simp [Headers.lineOf, Utf8.encode_append, Utf8.encode_cons, Utf8.encodeScalar]
  · intro hin
    exact hunbroken field hfield (Utf8.infix_of_encode (by decide) hin)

theorem Plain.legible {r : Request} (h : Plain r) : Legible r r.headers.block := by
  have hterminator : terminator = crlf ++ crlf := rfl
  refine ⟨h.version, ?_, ?_, ?_, Headers.forall₂_shows_block h.fields, h.framed⟩
  · obtain ⟨hspace, hreturn, hfeed⟩ := h.target
    intro b hb
    refine ⟨?_, ?_, ?_⟩
    · rintro rfl
      exact hspace (Utf8.mem_of_mem_encode (by decide) hb)
    · rintro rfl
      exact hreturn (Utf8.mem_of_mem_encode (by decide) hb)
    · rintro rfl
      exact hfeed (Utf8.mem_of_mem_encode (by decide) hb)
  · rw [List.append_assoc, ← hterminator, encode_block]
    obtain ⟨more, hmore⟩ := exists_flatMap_eq_crlf_append
      (r.headers.toList.map fun field => Utf8.encode (Headers.lineOf field))
    rw [hmore]
    exact List.prefix_append crlf more
  · rw [List.append_assoc, ← hterminator]
    exact closed_block (Headers.unbroken_of_linear h.fields)

/-- The line breaks before the fields and behind them are the same octets. -/
theorem written_eq_wire {r : Request} (h : r.version = Request.http11) :
    written r = wire r r.headers.block := by
  have hline : versionLine = Utf8.encode r.version ++ crlf := by
    rw [h]
    decide
  have hblock : Utf8.encode r.headers.block ++ crlf = crlf ++ Utf8.encode r.headers.render := by
    have hcrlf : crlf = Utf8.encode ['\r', '\n'] := by decide
    rw [hcrlf, ← Utf8.encode_append, Headers.block_append_crlf, Utf8.encode_append]
  simp only [written, wire, hline, List.append_assoc]
  rw [← List.append_assoc crlf (Utf8.encode _), ← hblock, List.append_assoc]

/-- A plain request is read back as it was written, in whatever pieces it comes, and what follows
it is left. -/
theorem finish?_feedAll_written {r : Request} {rest : Bytes} {pieces : List Bytes} (h : Plain r)
    (hpieces : pieces.flatten = written r ++ rest) :
    (empty.feedAll pieces).isReady = true ∧
      (empty.feedAll pieces).finish? = some (r, rest) := by
  have hfinish : (empty.feedAll pieces).finish? = some (r, rest) := by
    rw [finish?_eq_of_core_eq (core_feedAll pieces), hpieces, written_eq_wire h.version]
    exact finish?_feed_empty_iff.mpr ⟨r.headers.block, h.legible, rfl⟩
  exact ⟨isReady_iff.mpr ⟨r, rest, hfinish⟩, hfinish⟩

/-- A field without a name or a value, a value with a colon that ends in half a line break, and a
body that is a terminator, cut where the line breaks meet. -/
theorem finish?_feedAll_written_patch :
    let r : Request := ⟨.patch, "/é?a:b".toList, Request.http11,
      ⟨[([], []), ("Note".toList, "a: b\r".toList), ("CONTENT-length".toList, "+4".toList)]⟩,
      some terminator⟩
    let pieces := [Utf8.encode "PATCH /é?a:b HTTP/1.1\r\n: \r\nNote: a: b\r".toList,
      Utf8.encode "\r\nCONTENT-length: +4\r\n\r".toList, [10, 13, 10], [13, 10, 71]]
    Plain r ∧ (empty.feedAll pieces).finish? = some (r, [71]) := by
  intro r pieces
  have hplain : Plain r := by
    refine ⟨rfl, by decide, ?_, Headers.framed_iff.mpr (by decide)⟩
    intro field hfield
    rcases List.mem_cons.mp hfield with rfl | hfield
    · exact ⟨by decide, by decide, by decide, Text.trimStart_eq_self_iff.mp (by decide)⟩
    rcases List.mem_cons.mp hfield with rfl | hfield
    · exact ⟨by decide, by decide, by decide, Text.trimStart_eq_self_iff.mp (by decide)⟩
    · obtain rfl := List.mem_singleton.mp hfield
      exact ⟨by decide, by decide, by decide, Text.trimStart_eq_self_iff.mp (by decide)⟩
  have hpieces : pieces.flatten = written r ++ [71] := by decide
  exact ⟨hplain, (finish?_feedAll_written hplain hpieces).2⟩

end HttpExchange.Assembly
