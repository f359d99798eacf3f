import HttpExchange.Proofs.Headers.Block

/-! # Fields as lines

A header list is written with one line for each field. The lines are found again unless a text breaks
them, and they show the fields that they were written for when no name holds a colon and no value
begins with a blank. -/

namespace HttpExchange

/-! ## Texts cut into lines -/

namespace Text

theorem lines_of_not_infix {line : Text} (h : ¬ ['\r', '\n'] <:+: line) : lines line = [line] := by
  have hjoin := intercalate_lines line
  cases hlines : lines line with
  | nil => exact absurd hlines (lines_ne_nil line)
  | cons first others =>
      rw [hlines] at hjoin
      cases others with
      | nil => simpa using hjoin
      | cons next others =>
          rw [List.intercalate_cons_cons] at hjoin
          exact absurd ⟨first, _, hjoin⟩ h

theorem lines_append_flatMap {front : Text} {parts : List Text}
    (hfront : ¬ ['\r', '\n'] <:+: front) (hparts : ∀ part ∈ parts, ¬ ['\r', '\n'] <:+: part) :
    lines (front ++ parts.flatMap (['\r', '\n'] ++ ·)) = front :: parts := by
  induction parts generalizing front with
  | nil =>
      rw [List.flatMap_nil, List.append_nil]
      exact lines_of_not_infix hfront
  | cons part parts ih =>
      have hrest := ih (hparts part List.mem_cons_self) fun p hp =>
        hparts p (List.mem_cons_of_mem part hp)
      rw [List.flatMap_cons, List.append_assoc]
      exact (lines_append_crlf _ hfront).trans (congrArg (front :: ·) hrest)

end Text

namespace Headers

/-- A field that a line of its own can show. -/
structure Linear (field : Text × Text) : Prop where
  colonless : ':' ∉ field.1
  name : ¬ ['\r', '\n'] <:+: field.1
  value : ¬ ['\r', '\n'] <:+: field.2
  start : ∀ c ∈ field.2.head?, Text.isBlank c = false

theorem linear_iff {field : Text × Text} : Linear field ↔
    ':' ∉ field.1 ∧ ¬ ['\r', '\n'] <:+: field.1 ∧ ¬ ['\r', '\n'] <:+: field.2 ∧
      field.2.trimStart = field.2 := by
  constructor
  · intro h
    exact ⟨h.colonless, h.name, h.value, Text.trimStart_eq_self_iff.mpr h.start⟩
  · rintro ⟨hcolon, hname, hvalue, hstart⟩
    exact ⟨hcolon, hname, hvalue, Text.trimStart_eq_self_iff.mp hstart⟩

instance (field : Text × Text) : Decidable (Linear field) := decidable_of_iff _ linear_iff.symm

/-- One field without its line break. -/
def lineOf (field : Text × Text) : Text := field.1 ++ ':' :: ' ' :: field.2

/-- The fields as a block, each line behind its line break. -/
def block (h : Headers) : Text := (h.toList.map lineOf).flatMap (['\r', '\n'] ++ ·)

/-- No field breaks its line. -/
def Unbroken (h : Headers) : Prop := ∀ field ∈ h.toList, ¬ ['\r', '\n'] <:+: lineOf field

/-- What the line of a field shows: a colon in the name ends it there, and blanks at the front of
the value are lost. -/
def shown (field : Text × Text) : Text × Text :=
  match Text.splitOnce? ':' field.1 with
  | some (name, rest) => (name, Text.trimStart (rest ++ ':' :: ' ' :: field.2))
  | none => (field.1, field.2.trimStart)

/-! ## One line -/

theorem lineOf_ne_nil (field : Text × Text) : lineOf field ≠ [] := by simp [lineOf]

theorem not_infix_lineOf {field : Text × Text} (hname : ¬ ['\r', '\n'] <:+: field.1)
    (hvalue : ¬ ['\r', '\n'] <:+: field.2) : ¬ ['\r', '\n'] <:+: lineOf field := by
  have hback : ¬ ['\r', '\n'] <:+: [] ++ ' ' :: field.2 :=
    not_infix_append_cons (by decide) (by simp) hvalue
  exact not_infix_append_cons (by decide) hname hback

theorem unbroken_of_linear {h : Headers} (hlinear : ∀ field ∈ h.toList, Linear field) :
    h.Unbroken :=
  fun field hfield => not_infix_lineOf (hlinear field hfield).name (hlinear field hfield).value

theorem shown_of_colonless {field : Text × Text} (h : ':' ∉ field.1) :
    shown field = (field.1, field.2.trimStart) := by
  rw [shown, Text.splitOnce?_eq_none_iff.mpr h]

theorem shows_lineOf (field : Text × Text) : Shows (lineOf field) (shown field) := by
  unfold shown
  cases hcut : Text.splitOnce? ':' field.1 with
  | none =>
      have hblank : Text.isBlank ' ' = true := by decide
      refine ⟨' ' :: field.2, rfl, Text.splitOnce?_eq_none_iff.mp hcut, ?_⟩
      rw [Text.trimStart, Text.trimStart, List.dropWhile_cons_of_pos hblank]
  | some parts =>
      obtain ⟨hname, hcolon⟩ := Text.splitOnce?_eq_some_iff.mp hcut
      refine ⟨parts.2 ++ ':' :: ' ' :: field.2, ?_, hcolon, rfl⟩
      rw [lineOf, hname, List.append_assoc, List.cons_append]

theorem Linear.shown_eq {field : Text × Text} (h : Linear field) : shown field = field := by
  rw [shown_of_colonless h.colonless, Text.trimStart_eq_self_iff.mpr h.start]

theorem map_shown {fields : List (Text × Text)} (hlinear : ∀ field ∈ fields, Linear field) :
    fields.map shown = fields := by
  rw [List.map_congr_left fun field hfield => (hlinear field hfield).shown_eq, List.map_id']

/-! ## All lines -/

theorem block_append_crlf (h : Headers) :
    h.block ++ ['\r', '\n'] = ['\r', '\n'] ++ h.render := by
  have hfield : ∀ field, renderField field = lineOf field ++ ['\r', '\n'] := fun _ => rfl
  rcases h with ⟨fields⟩
  simp only [block, render]
  induction fields with
  | nil => rfl
  | cons field fields ih =>
      rw [List.map_cons, List.flatMap_cons, List.flatMap_cons, List.append_assoc, ih, hfield]
      simp only [List.append_assoc]

theorem filter_map_lineOf (fields : List (Text × Text)) :
    (fields.map lineOf).filter (fun line => !line.isEmpty) = fields.map lineOf := by
  rw [List.filter_eq_self]
  intro line hline
  obtain ⟨field, -, rfl⟩ := List.mem_map.mp hline
  simp [lineOf_ne_nil]

theorem fieldLines_block {h : Headers} (hunbroken : h.Unbroken) :
    fieldLines h.block = h.toList.map lineOf := by
  have hsplit : Text.lines h.block = [] :: h.toList.map lineOf := by
    have hnil : ¬ ['\r', '\n'] <:+: ([] : Text) := by simp
    apply Text.lines_append_flatMap hnil
    intro line hline
    obtain ⟨field, hfield, rfl⟩ := List.mem_map.mp hline
    exact hunbroken field hfield
  rw [fieldLines, hsplit, List.filter_cons_of_neg (by simp), filter_map_lineOf]

theorem forall₂_shows_lines (fields : List (Text × Text)) :
    List.Forall₂ Shows (fields.map lineOf) (fields.map shown) := by
  rw [List.forall₂_map_left_iff, List.forall₂_map_right_iff, List.forall₂_same]
  exact fun field _ => shows_lineOf field

/-- A block that has these lines is read as what they show. -/
theorem parseBlock?_of_fieldLines {block : Text} {fields : List (Text × Text)}
    (hlines : fieldLines block = fields.map lineOf) :
    parseBlock? block = some ⟨fields.map shown⟩ := by
  rw [parseBlock?_eq_some_iff, hlines]
  exact forall₂_shows_lines fields

/-- The block of a header list shows its fields. -/
theorem forall₂_shows_block {h : Headers} (hlinear : ∀ field ∈ h.toList, Linear field) :
    List.Forall₂ Shows (fieldLines h.block) h.toList := by
  have hshows := forall₂_shows_lines h.toList
  rwa [map_shown hlinear, ← fieldLines_block (unbroken_of_linear hlinear)] at hshows

end Headers

end HttpExchange
