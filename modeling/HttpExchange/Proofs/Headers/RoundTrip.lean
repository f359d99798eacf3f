import HttpExchange.Proofs.Headers.Lines
import HttpExchange.Proofs.Headers.Refusal
import HttpExchange.Proofs.Text.Trim

/-! # Header lists, written and read again

A header list is read back from its lines exactly when each of its fields can have a line of its
own. Whatever is read from a block has only such fields, so it is written and read again without a
change; only the spelling of the block is lost, in its empty lines and in the blanks behind colons. -/

namespace HttpExchange.Headers

/-! ## What is read -/

/-- What a line shows can have a line of its own. -/
theorem linear_of_shows {line : Text} {field : Text × Text} (hline : ¬ ['\r', '\n'] <:+: line)
    (h : Shows line field) : Linear field := by
  obtain ⟨after, rfl, hcolon, hvalue⟩ := h
  have hname : field.1 <:+: field.1 ++ ':' :: after := (List.prefix_append _ _).isInfix
  have hafter : after <:+ field.1 ++ ':' :: after :=
    (List.suffix_cons ':' after).trans (List.suffix_append field.1 _)
  have hrest : field.2 <:+: field.1 ++ ':' :: after := by
    rw [hvalue]
    exact ((Text.trimStart_suffix_self after).trans hafter).isInfix
  refine ⟨hcolon, fun hin => hline (hin.trans hname), fun hin => hline (hin.trans hrest), ?_⟩
  rw [hvalue, ← Text.trimStart_eq_self_iff]
  exact Text.trimStart_trimStart after

theorem linear_of_parseBlock? {block : Text} {h : Headers} (hparse : parseBlock? block = some h) :
    ∀ field ∈ h.toList, Linear field := by
  intro field hfield
  obtain ⟨line, hline, hshows⟩ := (mem_toList_iff_of_parseBlock? hparse field).mp hfield
  exact linear_of_shows (Text.not_infix_of_mem_lines (List.mem_filter.mp hline).1) hshows

/-! ## What is written -/

/-- The lines of a written header list are its fields, and what follows the last line break. -/
theorem lines_render {h : Headers} (hunbroken : h.Unbroken) :
    Text.lines h.render = h.toList.map lineOf ++ [[]] := by
  rcases h with ⟨fields⟩
  simp only [render]
  induction fields with
  | nil => rfl
  | cons field fields ih =>
      have hrest := ih fun f hf => hunbroken f (List.mem_cons_of_mem field hf)
      have hfirst : renderField field ++ fields.flatMap renderField =
          lineOf field ++ '\r' :: '\n' :: fields.flatMap renderField := by
        simp [renderField, lineOf]
      rw [List.flatMap_cons, hfirst, Text.lines_append_crlf _ (hunbroken field List.mem_cons_self),
        hrest, List.map_cons, List.cons_append]

theorem fieldLines_render {h : Headers} (hunbroken : h.Unbroken) :
    fieldLines h.render = h.toList.map lineOf := by
  rw [fieldLines, lines_render hunbroken, List.filter_append, filter_map_lineOf]
  simp

theorem parseBlock?_render {h : Headers} (hlinear : ∀ field ∈ h.toList, Linear field) :
    parseBlock? h.render = some h := by
  rw [parseBlock?_of_fieldLines (fieldLines_render (unbroken_of_linear hlinear)),
    map_shown hlinear]

/-- Writing is undone by reading exactly for lists whose fields can each have a line of their own,
and reading gives no others; a block gives nothing exactly if some line of it lacks its colon. -/
theorem parseBlock?_render_iff :
    (∀ h : Headers, parseBlock? h.render = some h ↔ ∀ field ∈ h.toList, Linear field) ∧
      (∀ (block : Text) (h : Headers), parseBlock? block = some h →
        (∀ field ∈ h.toList, Linear field) ∧ parseBlock? h.render = some h) ∧
      ∀ block : Text,
        parseBlock? block = none ↔ ∃ line ∈ Text.lines block, line ≠ [] ∧ ':' ∉ line := by
  refine ⟨fun h => ⟨linear_of_parseBlock?, parseBlock?_render⟩, ?_, ?_⟩
  · intro block h hparse
    have hlinear := linear_of_parseBlock? hparse
    exact ⟨hlinear, parseBlock?_render hlinear⟩
  · intro block
    simp [parseBlock?_eq_none_iff, fieldLines, and_assoc]

/-- Empty lines, a port behind a second colon, a field without name and value, and halves of line
breaks in a name, at the end of a value and in front of a name. -/
theorem parseBlock?_render_half_breaks :
    let block := "\r\nHost: x:80\r\n\r\n:\r\na\rb:\u3000 c \r\r\n\nz:\t".toList
    let h : Headers := ⟨[("Host".toList, "x:80".toList), ([], []),
      ("a\rb".toList, "c \r".toList), ("\nz".toList, [])]⟩
    parseBlock? block = some h ∧ (∀ field ∈ h.toList, Linear field) ∧
      h.render = "Host: x:80\r\n: \r\na\rb: c \r\r\n\nz: \r\n".toList ∧
      parseBlock? h.render = some h := by
  intro block h
  have hparse : parseBlock? block = some h := by decide
  obtain ⟨hlinear, hagain⟩ := parseBlock?_render_iff.2.1 block h hparse
  exact ⟨hparse, hlinear, by decide, hagain⟩

end HttpExchange.Headers
