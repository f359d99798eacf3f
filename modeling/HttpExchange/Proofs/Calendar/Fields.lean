import HttpExchange.Calendar.Format
import HttpExchange.Proofs.Text.Trim
import HttpExchange.Text.Numeral
import Mathlib.Tactic.IntervalCases

/-! # Fields of a date

Each field of a date is read back from its text, whatever follows: a number of full width, because
no further digit would be taken, and a shorter one before anything but a digit. -/

namespace HttpExchange.DateFormat

open Text

variable {digits rest : Text} {width n : Nat} {c c' : Civil}

/-! ## Numbers -/

/-- A number with zeros in front up to a width. -/
def padded (width n : Nat) : Text := List.leftpad width '0' (Numeral.ofNat n)

theorem isDigit_of_mem_padded {d : Char} (h : d ∈ padded width n) : d.isDigit = true := by
  rcases List.mem_append.mp h with h | h
  · rw [List.eq_of_mem_replicate h]
    rfl
  · exact Numeral.isDigit_of_mem_ofNat h

theorem length_padded (hwidth : 0 < width) (h : n < 10 ^ width) :
    (padded width n).length = width := by
  have hle : (Numeral.ofNat n).length ≤ width :=
    (Nat.length_toDigits_le_iff (by decide) hwidth).mpr h
  rw [padded, List.length_leftpad, Nat.max_eq_left hle]

theorem ofDigitChars_padded (width n : Nat) : Nat.ofDigitChars 10 (padded width n) 0 = n := by
  rw [padded, List.leftpad, Nat.ofDigitChars_append, Nat.ofDigitChars_replicate_zero]
  exact Nat.ofDigitChars_ten_toDigits

/-- Digits are read up to the width, and before that up to the first other character. -/
theorem readDigits_append (hne : digits ≠ []) (hdigits : ∀ d ∈ digits, d.isDigit = true)
    (hlen : digits.length ≤ width)
    (hrest : digits.length = width ∨ ∀ d ∈ rest.head?, d.isDigit = false) :
    readDigits width (digits ++ rest) = some (Nat.ofDigitChars 10 digits 0, rest) := by
  have htaken : ((digits ++ rest).take width).takeWhile Char.isDigit = digits := by
    have hstop : (rest.take (width - digits.length)).takeWhile Char.isDigit = [] := by
      rcases hrest with hfull | hrest
      · simp [hfull]
      · cases rest with
        | nil => simp
        | cons d rest =>
            have hd := hrest d rfl
            cases width - digits.length with
            | zero => rfl
            | succ k => rw [List.take_succ_cons, List.takeWhile_cons_of_neg (by simp [hd])]
    rw [List.take_append, List.take_of_length_le hlen, List.takeWhile_append_of_pos hdigits, hstop,
      List.append_nil]
  unfold readDigits
  simp only [htaken]
  simp [hne]

theorem visible_of_isDigit {d : Char} (h : d.isDigit = true) : Visible d := by
  apply visible_of_isAlphanum
  rw [Char.isAlphanum, h, Bool.or_true]

theorem isDigit_of_mem_head? (hne : digits ≠ []) (hdigits : ∀ d ∈ digits, d.isDigit = true)
    (rest : Text) : ∀ d ∈ (digits ++ rest).head?, d.isDigit = true := by
  obtain ⟨d, others, rfl⟩ := List.exists_cons_of_ne_nil hne
  intro e he
  obtain rfl : d = e := Option.some.inj he
  exact hdigits d List.mem_cons_self

theorem trimStart_append (hne : digits ≠ []) (hdigits : ∀ d ∈ digits, d.isDigit = true)
    (rest : Text) : trimStart (digits ++ rest) = digits ++ rest := by
  rw [trimStart_eq_self_iff]
  intro d hd
  exact (visible_of_isDigit (isDigit_of_mem_head? hne hdigits rest d hd)).isBlank

theorem padded_ne_nil (width n : Nat) : padded width n ≠ [] :=
  List.append_ne_nil_of_right_ne_nil _ (Numeral.ofNat_ne_nil n)

theorem trimStart_padded (width n : Nat) (rest : Text) :
    trimStart (padded width n ++ rest) = padded width n ++ rest :=
  trimStart_append (padded_ne_nil width n) (fun _ => isDigit_of_mem_padded) rest

theorem trimStart_ofNat (n : Nat) (rest : Text) :
    trimStart (Numeral.ofNat n ++ rest) = Numeral.ofNat n ++ rest :=
  trimStart_append (Numeral.ofNat_ne_nil n) (fun _ => Numeral.isDigit_of_mem_ofNat) rest

/-- A number of full width is read whatever follows it. -/
theorem readDigits_padded (hwidth : 0 < width) (h : n < 10 ^ width) (rest : Text) :
    readDigits width (padded width n ++ rest) = some (n, rest) := by
  have hlen : (padded width n).length = width := length_padded hwidth h
  rw [readDigits_append (padded_ne_nil width n) (fun _ => isDigit_of_mem_padded) hlen.le
    (.inl hlen), ofDigitChars_padded]

/-- A number without zeros in front is read before anything but a digit. -/
theorem readDigits_ofNat (hwidth : 0 < width) (h : n < 10 ^ width)
    (hrest : ∀ d ∈ rest.head?, d.isDigit = false) :
    readDigits width (Numeral.ofNat n ++ rest) = some (n, rest) := by
  have hle : (Numeral.ofNat n).length ≤ width :=
    (Nat.length_toDigits_le_iff (by decide) hwidth).mpr h
  rw [readDigits_append (Numeral.ofNat_ne_nil n) (fun _ => Numeral.isDigit_of_mem_ofNat) hle
    (.inr hrest), Numeral.ofNat, Nat.ofDigitChars_ten_toDigits]

theorem readYear_padded (h : n < 10 ^ 4) (rest : Text) :
    readYear (padded 4 n ++ rest) = some ((n : Int), rest) := by
  -- a digit comes first, so there is no sign
  have hhead := isDigit_of_mem_head? (padded_ne_nil 4 n) (fun _ => isDigit_of_mem_padded) rest
  unfold readYear
  split
  · rename_i others heq
    rw [heq] at hhead
    exact absurd (hhead '-' rfl) (by decide)
  · rename_i others heq
    rw [heq] at hhead
    exact absurd (hhead '+' rfl) (by decide)
  · rw [readDigits_padded (by decide) h]
    rfl

/-! ## Names of months -/

/-- The names of the months as they are written. -/
def monthTexts : List Text :=
  ["Jan".toList, "Feb".toList, "Mar".toList, "Apr".toList, "May".toList, "Jun".toList,
    "Jul".toList, "Aug".toList, "Sep".toList, "Oct".toList, "Nov".toList, "Dec".toList]

/-- The name of a month by its number. -/
def monthText (month : Nat) : Text := monthTexts.getD (month - 1) []

theorem readMonthName_monthText {month : Nat} (h : 1 ≤ month ∧ month ≤ 12) (rest : Text) :
    readMonthName (monthText month ++ rest) = some (month, rest) := by
  obtain ⟨hlow, hhigh⟩ := h
  interval_cases month <;> rfl

/-- No month begins with a hyphen. -/
theorem readMonthName_hyphen (rest : Text) : readMonthName ('-' :: rest) = none := by
  simp [readMonthName, monthNames, sameLetters, lowercase]

theorem trimStart_monthText {month : Nat} (h : 1 ≤ month ∧ month ≤ 12) (rest : Text) :
    trimStart (monthText month ++ rest) = monthText month ++ rest := by
  obtain ⟨hlow, hhigh⟩ := h
  interval_cases month <;> rfl

/-! ## One item after the other -/

/-- A number is put into the place of its field. -/
def Field.put (f : Field) (c : Civil) (n : Nat) : Civil :=
  match f with
  | day => { c with day := n }
  | monthName => { c with month := n }
  | shortYear => { c with year := centuryOf n }
  | year => { c with year := n }
  | hour => { c with hour := n }
  | minute => { c with minute := n }
  | second => { c with second := n }

variable (items : List Item) (c : Civil) (rest : Text)

/-- A field of two digits reads two digits, whatever they mean and whatever follows. -/
theorem readFrom_digits {f : Field} (hf : f ∈ [.day, .shortYear, .hour, .minute, .second])
    (hlen : digits.length = 2) (hdigits : ∀ d ∈ digits, d.isDigit = true) :
    readFrom (.field f :: items) c (digits ++ rest) =
      readFrom items (f.put c (Nat.ofDigitChars 10 digits 0)) rest := by
  have hne : digits ≠ [] := List.ne_nil_of_length_pos (by omega)
  have hread : readDigits 2 (trimStart (digits ++ rest)) =
      some (Nat.ofDigitChars 10 digits 0, rest) := by
    rw [trimStart_append hne hdigits, readDigits_append hne hdigits hlen.le (.inl hlen)]
  simp only [List.mem_cons, List.not_mem_nil, or_false] at hf
  rcases hf with rfl | rfl | rfl | rfl | rfl <;>
    simp only [readFrom, Item.read, Field.read, hread, Option.map_some, Option.bind_some, Field.put]

theorem readFrom_padded {f : Field} (hf : f ∈ [.day, .shortYear, .hour, .minute, .second])
    (h : n < 10 ^ 2) :
    readFrom (.field f :: items) c (padded 2 n ++ rest) = readFrom items (f.put c n) rest := by
  rw [readFrom_digits items c rest hf (length_padded (by decide) h)
    (fun _ => isDigit_of_mem_padded), ofDigitChars_padded]

theorem readFrom_day (h : n < 10 ^ 2) (hrest : ∀ d ∈ rest.head?, d.isDigit = false) :
    readFrom (.field .day :: items) c (Numeral.ofNat n ++ rest) =
      readFrom items (Field.day.put c n) rest := by
  simp only [readFrom, Item.read, Field.read, trimStart_ofNat,
    readDigits_ofNat (by decide) h hrest, Option.map_some, Option.bind_some, Field.put]

theorem readFrom_year (h : n < 10 ^ 4) :
    readFrom (.field .year :: items) c (padded 4 n ++ rest) =
      readFrom items (Field.year.put c n) rest := by
  simp only [readFrom, Item.read, Field.read, trimStart_padded, readYear_padded h,
    Option.map_some, Option.bind_some, Field.put]

theorem readFrom_monthName {month : Nat} (h : 1 ≤ month ∧ month ≤ 12) :
    readFrom (.field .monthName :: items) c (monthText month ++ rest) =
      readFrom items (Field.monthName.put c month) rest := by
  simp only [readFrom, Item.read, Field.read, readMonthName_monthText h, Option.map_some,
    Option.bind_some, Field.put]

theorem readFrom_mark (m : Char) :
    readFrom (.mark m :: items) c (m :: rest) = readFrom items c rest := by
  simp only [readFrom, Item.read, if_true, Option.bind_some]

theorem readFrom_mark_of_ne {m d : Char} (h : d ≠ m) :
    readFrom (.mark m :: items) c (d :: rest) = none := by
  simp only [readFrom, Item.read, if_neg h, Option.bind_none]

theorem readFrom_gap : readFrom (.gap :: items) c rest = readFrom items c rest.trimStart := rfl

end HttpExchange.DateFormat
