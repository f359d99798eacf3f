import HttpExchange.Text.Basic

/-! # Lines

A line ends with the pair CRLF; a lone carriage return or line feed is a character like others.
The lines of a text, joined by CRLF, are the text. -/

namespace HttpExchange.Text

/-- The parts between the CRLF pairs, empty ones included. A lone CR or LF belongs to its part. -/
def lines : Text → List Text
  | [] => [[]]
  | '\r' :: '\n' :: rest => [] :: lines rest
  | c :: rest => (lines rest).modifyHead (c :: ·)

@[simp] theorem lines_ne_nil (s : Text) : lines s ≠ [] := by
  fun_induction lines s with
  | case1 => simp
  | case2 => simp
  | case3 c rest _ ih =>
      cases h : lines rest with
      | nil => exact absurd h ih
      | cons line others => simp

/-- The lines, joined by CRLF, are the text. -/
theorem intercalate_lines (s : Text) : List.intercalate ['\r', '\n'] (lines s) = s := by
  fun_induction lines s with
  | case1 => rfl
  | case2 rest ih =>
      cases h : lines rest with
      | nil => exact absurd h (lines_ne_nil rest)
      | cons line others => rw [h] at ih; simp [ih]
  | case3 c rest _ ih =>
      cases h : lines rest with
      | nil => exact absurd h (lines_ne_nil rest)
      | cons line others => rw [h] at ih; cases others <;> simp_all

/-- No line holds a CRLF. -/
theorem not_infix_of_mem_lines {s line : Text} (h : line ∈ lines s) :
    ¬ ['\r', '\n'] <:+: line := by
  fun_induction lines s generalizing line with
  | case1 => simp_all
  | case2 rest ih =>
      rcases List.mem_cons.1 h with rfl | h
      · simp
      · exact ih h
  | case3 c rest hno ih =>
      cases hlines : lines rest with
      | nil => exact absurd hlines (lines_ne_nil rest)
      | cons first others =>
          rw [hlines] at h ih
          rcases List.mem_cons.1 h with rfl | h
          · intro hin
            rcases List.infix_cons_iff.1 hin with hin | hin
            · obtain ⟨hc, tail, hfirst⟩ := List.cons_prefix_cons.1 hin
              have hrest := intercalate_lines rest
              rw [hlines, ← hfirst] at hrest
              cases others with
              | nil => exact hno _ hc.symm (by simpa using hrest.symm)
              | cons next others =>
                  rw [List.intercalate_cons_cons] at hrest
                  exact hno _ hc.symm (by simpa using hrest.symm)
            · exact ih List.mem_cons_self hin
          · exact ih (List.mem_cons_of_mem _ h)

/-- The part before the first CRLF is the first line. -/
theorem lines_append_crlf {line : Text} (rest : Text) (h : ¬ ['\r', '\n'] <:+: line) :
    lines (line ++ '\r' :: '\n' :: rest) = line :: lines rest := by
  induction line with
  | nil => simp [lines]
  | cons c line ih =>
      have hline : ¬ ['\r', '\n'] <:+: line := fun hin => h (List.infix_cons hin)
      rw [List.cons_append, lines, ih hline, List.modifyHead_cons]
      intro tail hc htail
      subst hc
      cases line with
      | nil => simp at htail
      | cons d line =>
          obtain ⟨hd, -⟩ := List.cons.inj htail
          subst hd
          exact h ⟨[], line, by simp⟩

end HttpExchange.Text
