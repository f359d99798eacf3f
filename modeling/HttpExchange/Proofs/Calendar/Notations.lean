import HttpExchange.Calendar.HttpDate
import HttpExchange.Proofs.Calendar.Fields
import HttpExchange.Proofs.Calendar.Ticks
import HttpExchange.Proofs.Text.Words

/-! # Notations of a date

A civil time has four notations: three behind a weekday and a comma, with or without a zone, and
one of words alone. Each format reads its own notation. The formats that are tried before it do not
fit: no month begins with a hyphen, and two digits of a year of four leave two more where the clock
should begin. -/

namespace HttpExchange.HttpDate

open Text DateFormat

variable {c : Civil}

/-- As in `08:49:37`. -/
def clockText (c : Civil) : Text :=
  padded 2 c.hour ++ ':' :: (padded 2 c.minute ++ ':' :: padded 2 c.second)

/-- As in `06 Nov 1994 08:49:37`. -/
def spacedWords (c : Civil) : List Text :=
  [padded 2 c.day, monthText c.month, padded 4 c.year.toNat, clockText c]

/-- Day, month and a text for the year between hyphens. -/
def hyphenWords (c : Civil) (year : Text) : List Text :=
  [padded 2 c.day ++ '-' :: (monthText c.month ++ '-' :: year), clockText c]

/-- As in `06-Nov-1994 08:49:37`. -/
def hyphenatedWords (c : Civil) : List Text := hyphenWords c (padded 4 c.year.toNat)

/-- As in `06-Nov-94 08:49:37`. -/
def shortWords (c : Civil) : List Text := hyphenWords c (padded 2 (c.year % 100).toNat)

/-- As in `Nov 6 08:49:37 1994`. -/
def monthFirstWords (c : Civil) : List Text :=
  [monthText c.month, Numeral.ofNat c.day, clockText c, padded 4 c.year.toNat]

theorem readFrom_clock (hc : c.Exists) (items : List Item) (d : Civil) (rest : Text) :
    readFrom (clock ++ items) d (clockText c ++ rest) =
      readFrom items { d with hour := c.hour, minute := c.minute, second := c.second } rest := by
  obtain ⟨-, -, -, -, hhour, hminute, hsecond⟩ := hc
  simp only [clock, clockText, List.append_assoc, List.cons_append, List.nil_append]
  rw [readFrom_padded _ _ _ (by decide) (by omega), readFrom_mark,
    readFrom_padded _ _ _ (by decide) (by omega), readFrom_mark,
    readFrom_padded _ _ _ (by decide) (by omega)]
  rfl

/-! ## Each format reads its own notation -/

/-- Before anything is read. -/
def blank : Civil := ⟨0, 0, 0, 0, 0, 0⟩

theorem trimStart_clockText (c : Civil) : trimStart (clockText c) = clockText c := by
  rw [clockText, trimStart_padded]

theorem trimStart_space (s : Text) : trimStart (' ' :: s) = trimStart s := rfl

theorem trimStart_hyphen (s : Text) : trimStart ('-' :: s) = '-' :: s := rfl

theorem intercalate_hyphenWords (c : Civil) (year : Text) :
    List.intercalate [' '] (hyphenWords c year) = padded 2 c.day ++ '-' ::
      (monthText c.month ++ '-' :: (year ++ ' ' :: clockText c)) := by
  simp [hyphenWords]

section

variable (hc : c.Exists) (hyear : 0 ≤ c.year ∧ c.year ≤ 9999)

include hc

theorem readFrom_clock_end {d : Civil}
    (hdate : d.year = c.year ∧ d.month = c.month ∧ d.day = c.day) :
    readFrom clock d (clockText c) = some c := by
  have hread := readFrom_clock hc [] d []
  rw [List.append_nil, List.append_nil] at hread
  rw [hread, hdate.1, hdate.2.1, hdate.2.2]
  rfl

/-- No name of a month begins with a hyphen. -/
theorem readFrom_spaced_none (year : Text) :
    readFrom spaced blank (List.intercalate [' '] (hyphenWords c year)) = none := by
  have hday := hc.day_le
  rw [intercalate_hyphenWords]
  simp only [spaced, List.cons_append, List.nil_append]
  rw [readFrom_padded _ _ _ (by decide) (by omega), readFrom_gap, trimStart_hyphen]
  simp only [readFrom, Item.read, Field.read, readMonthName_hyphen, Option.map_none,
    Option.bind_none]

theorem readFrom_shortWords (hcentury : 1970 ≤ c.year ∧ c.year ≤ 2069) :
    readFrom hyphenatedShort blank (List.intercalate [' '] (shortWords c)) = some c := by
  have hday := hc.day_le
  have hcenturyOf : centuryOf (c.year % 100).toNat = c.year := by
    unfold centuryOf
    split_ifs <;> omega
  rw [shortWords, intercalate_hyphenWords]
  simp only [hyphenatedShort, List.cons_append, List.nil_append]
  rw [readFrom_padded _ _ _ (by decide) (by omega), readFrom_mark,
    readFrom_monthName _ _ _ hc.month_mem, readFrom_mark,
    readFrom_padded _ _ _ (by decide) (by omega), readFrom_gap, trimStart_space,
    trimStart_clockText]
  exact readFrom_clock_end hc ⟨hcenturyOf, rfl, rfl⟩

include hyear

theorem readFrom_spacedWords :
    readFrom spaced blank (List.intercalate [' '] (spacedWords c)) = some c := by
  have hday := hc.day_le
  have htext : List.intercalate [' '] (spacedWords c) = padded 2 c.day ++ ' ' ::
      (monthText c.month ++ ' ' :: (padded 4 c.year.toNat ++ ' ' :: clockText c)) := by
    simp [spacedWords]
  rw [htext]
  simp only [spaced, List.cons_append, List.nil_append]
  rw [readFrom_padded _ _ _ (by decide) (by omega), readFrom_gap, trimStart_space,
    trimStart_monthText hc.month_mem, readFrom_monthName _ _ _ hc.month_mem,
    readFrom_gap, trimStart_space, trimStart_padded, readFrom_year _ _ _ (by omega),
    readFrom_gap, trimStart_space, trimStart_clockText]
  exact readFrom_clock_end hc ⟨Int.toNat_of_nonneg hyear.1, rfl, rfl⟩

theorem readFrom_hyphenatedWords :
    readFrom hyphenated blank (List.intercalate [' '] (hyphenatedWords c)) = some c := by
  have hday := hc.day_le
  rw [hyphenatedWords, intercalate_hyphenWords]
  simp only [hyphenated, List.cons_append, List.nil_append]
  rw [readFrom_padded _ _ _ (by decide) (by omega), readFrom_mark,
    readFrom_monthName _ _ _ hc.month_mem, readFrom_mark, readFrom_year _ _ _ (by omega),
    readFrom_gap, trimStart_space, trimStart_clockText]
  exact readFrom_clock_end hc ⟨Int.toNat_of_nonneg hyear.1, rfl, rfl⟩

/-- Two digits of four leave two more, and no colon follows these. -/
theorem readFrom_hyphenatedShort_none :
    readFrom hyphenatedShort blank (List.intercalate [' '] (hyphenatedWords c)) = none := by
  have hday := hc.day_le
  have hlen : (padded 4 c.year.toNat).length = 4 := length_padded (by decide) (by omega)
  obtain ⟨front, back, hfront, hback, heq⟩ : ∃ front back : Text,
      front.length = 2 ∧ back.length = 2 ∧ front ++ back = padded 4 c.year.toNat :=
    ⟨_, _, by simp [hlen], by simp [hlen], List.take_append_drop 2 _⟩
  have hdigits : ∀ d ∈ front ++ back, d.isDigit = true :=
    fun _ hd => isDigit_of_mem_padded (heq ▸ hd)
  have hfrontDigits := fun d hd => hdigits d (List.mem_append_left back hd)
  have hbackDigits := fun d hd => hdigits d (List.mem_append_right front hd)
  have hne : back ≠ [] := List.ne_nil_of_length_pos (by omega)
  rw [hyphenatedWords, intercalate_hyphenWords, ← heq, List.append_assoc]
  simp only [hyphenatedShort, clock, List.cons_append, List.nil_append]
  rw [readFrom_padded _ _ _ (by decide) (by omega), readFrom_mark,
    readFrom_monthName _ _ _ hc.month_mem, readFrom_mark,
    readFrom_digits _ _ _ (by decide) hfront hfrontDigits, readFrom_gap,
    trimStart_append hne hbackDigits, readFrom_digits _ _ _ (by decide) hback hbackDigits,
    readFrom_mark_of_ne _ _ _ (by decide)]

theorem readFrom_monthFirstWords :
    readFrom monthFirst blank (List.intercalate [' '] (monthFirstWords c)) = some c := by
  have hday := hc.day_le
  have htext : List.intercalate [' '] (monthFirstWords c) = monthText c.month ++ ' ' ::
      (Numeral.ofNat c.day ++ ' ' :: (clockText c ++ ' ' :: padded 4 c.year.toNat)) := by
    simp [monthFirstWords]
  have hclock : ∀ rest, trimStart (clockText c ++ rest) = clockText c ++ rest := by
    intro rest
    rw [clockText, List.append_assoc, trimStart_padded]
  rw [htext]
  simp only [monthFirst, List.cons_append, List.nil_append]
  rw [readFrom_monthName _ _ _ hc.month_mem, readFrom_gap, trimStart_space, trimStart_ofNat,
    readFrom_day _ _ _ (by omega) (by simp), readFrom_gap, trimStart_space, hclock,
    readFrom_clock hc, readFrom_gap, trimStart_space, ← List.append_nil (padded 4 _),
    trimStart_padded, readFrom_year _ _ _ (by omega)]
  simp [readFrom, Field.put, Int.toNat_of_nonneg hyear.1]

end

/-! ## Dates as words -/

theorem isWord_padded (width n : Nat) : IsWord (padded width n) :=
  ⟨padded_ne_nil width n, fun _ hd => (visible_of_isDigit (isDigit_of_mem_padded hd)).isBlank⟩

theorem isWord_ofNat (n : Nat) : IsWord (Numeral.ofNat n) :=
  ⟨Numeral.ofNat_ne_nil n,
    fun _ hd => (visible_of_isDigit (Numeral.isDigit_of_mem_ofNat hd)).isBlank⟩

theorem isWord_monthText {month : Nat} (h : 1 ≤ month ∧ month ≤ 12) : IsWord (monthText month) := by
  obtain ⟨hlow, hhigh⟩ := h
  interval_cases month <;> decide

theorem isWord_clockText (c : Civil) : IsWord (clockText c) :=
  (isWord_padded 2 c.hour).append_cons (by decide)
    ((isWord_padded 2 c.minute).append_cons (by decide) (isWord_padded 2 c.second))

theorem isWord_of_mem_hyphenWords (hc : c.Exists) {year : Text} (hyear : IsWord year) :
    ∀ w ∈ hyphenWords c year, IsWord w := by
  have hhyphen : isBlank '-' = false := by decide
  have hmonth := isWord_monthText hc.month_mem
  have hdate := (isWord_padded 2 c.day).append_cons hhyphen (hmonth.append_cons hhyphen hyear)
  simpa [hyphenWords, isWord_clockText] using hdate

theorem isWord_of_mem_monthFirstWords (hc : c.Exists) :
    ∀ w ∈ monthFirstWords c, IsWord w ∧ ',' ∉ w := by
  have hmonth : ',' ∉ monthText c.month := by
    obtain ⟨hlow, hhigh, -⟩ := hc
    interval_cases c.month <;> decide
  have hpadded : ∀ width n, ',' ∉ padded width n := by
    intro width n hmem
    exact absurd (isDigit_of_mem_padded hmem) (by decide)
  have hday : ',' ∉ Numeral.ofNat c.day := by
    intro hmem
    exact absurd (Numeral.isDigit_of_mem_ofNat hmem) (by decide)
  have hclock : ',' ∉ clockText c := by simp [clockText, hpadded]
  simp only [monthFirstWords, List.forall_mem_cons]
  exact ⟨⟨isWord_monthText hc.month_mem, hmonth⟩, ⟨isWord_ofNat c.day, hday⟩,
    ⟨isWord_clockText c, hclock⟩, ⟨isWord_padded 4 _, hpadded 4 _⟩, nofun⟩

theorem isDigit_of_mem_getLast?_clockText (c : Civil) :
    ∀ d ∈ (clockText c).getLast?, d.isDigit = true := by
  intro d hd
  have hne := padded_ne_nil 2 c.second
  have hlast : (clockText c).getLast? = (padded 2 c.second).getLast? := by
    rw [clockText, List.getLast?_append, List.getLast?_cons, List.getLast?_append,
      List.getLast?_cons, List.getLast?_eq_some_getLast hne]
    simp
  rw [hlast] at hd
  exact isDigit_of_mem_padded (List.mem_of_getLast? hd)

/-! ## The text around a date -/

/-- The zones that may follow a date behind a comma. -/
def zones : List (List Text) := [[], ["GMT".toList], ["UTC".toList]]

theorem dropSuffix?_append (s tail : Text) : dropSuffix? tail (s ++ tail) = some s := by
  rw [dropSuffix?, if_pos (List.isSuffixOf_iff_suffix.mpr (List.suffix_append s tail))]
  simp

theorem dropSuffix?_of_getLast? {s tail : Text} (htail : tail ≠ [])
    (h : s.getLast? ≠ tail.getLast?) : dropSuffix? tail s = none := by
  apply if_neg
  intro hsuffix
  obtain ⟨front, rfl⟩ := List.isSuffixOf_iff_suffix.mp hsuffix
  apply h
  rw [List.getLast?_append, List.getLast?_eq_some_getLast htail, Option.some_or]

/-- The zone goes, and what stands before it stays if it ends with a digit. -/
theorem dropZone_intercalate {date zone : List Text} (hzone : zone ∈ zones) (hne : date ≠ [])
    (hlast : ∀ d ∈ (List.intercalate [' '] date).getLast?, d.isDigit = true) :
    dropZone (List.intercalate [' '] (date ++ zone)) = List.intercalate [' '] date := by
  have hother : ∀ d : Char, d.isDigit = false →
      (List.intercalate [' '] date).getLast? ≠ some d := by
    intro d hd heq
    simpa [hd] using hlast d heq
  simp only [zones, List.mem_cons, List.not_mem_nil, or_false] at hzone
  rcases hzone with rfl | rfl | rfl
  · rw [List.append_nil, dropZone, dropSuffix?_of_getLast? (by decide) (hother 'T' (by decide)),
      dropSuffix?_of_getLast? (by decide) (hother 'C' (by decide))]
    rfl
  · have htext : List.intercalate [' '] (date ++ ["GMT".toList]) =
        List.intercalate [' '] date ++ " GMT".toList := intercalate_append hne (by simp)
    rw [htext, dropZone, dropSuffix?_append]
  · have htext : List.intercalate [' '] (date ++ ["UTC".toList]) =
        List.intercalate [' '] date ++ " UTC".toList := intercalate_append hne (by simp)
    rw [htext, dropZone, dropSuffix?_of_getLast? (by decide) (by simp), dropSuffix?_append]
    rfl

/-- A weekday, a comma, and a date with or without a zone. -/
def afterWeekday (weekday : Text) (date zone : List Text) : Text :=
  weekday ++ ',' :: ' ' :: List.intercalate [' '] (date ++ zone)

theorem parse?_of_afterWeekday {weekday s : Text} {date zone : List Text} (hweekday : ',' ∉ weekday)
    (hzone : zone ∈ zones) (hne : date ≠ []) (hdate : ∀ w ∈ date, IsWord w)
    (hlast : ∀ d ∈ (List.intercalate [' '] date).getLast?, d.isDigit = true)
    (hs : Respaced (afterWeekday weekday date zone) s) :
    parse? s = afterComma.findSome? fun format => read format (List.intercalate [' '] date) := by
  have hzoneWords : ∀ w ∈ zone, IsWord w := by
    simp only [zones, List.mem_cons, List.not_mem_nil, or_false] at hzone
    rcases hzone with rfl | rfl | rfl <;> decide
  have hwords : ∀ w ∈ date ++ zone, IsWord w := List.forall_mem_append.mpr ⟨hdate, hzoneWords⟩
  have hback : words (List.intercalate [' '] (date ++ zone)) ≠ [] := by
    rw [words_intercalate, flatMap_words hwords]
    exact List.append_ne_nil_of_left_ne_nil hne zone
  obtain ⟨before, hbefore, heq⟩ := exists_singleSpaced_append_mark (by decide) hweekday hback
  rw [singleSpaced_intercalate hwords] at heq
  have hcut := splitOnce?_eq_some_iff.mpr ⟨heq, hbefore⟩
  unfold parse?
  simp only [← hs.singleSpaced_eq, afterWeekday, hcut]
  rw [trim_cons_of_isBlank (by decide), trim_intercalate hwords,
    dropZone_intercalate hzone hne hlast]

/-- Without a comma the first word is skipped, and the month comes next. -/
theorem parse?_of_noComma {weekday s : Text} {date : List Text} (hweekday : IsWord weekday)
    (hcomma : ',' ∉ weekday) (hne : date ≠ []) (hdate : ∀ w ∈ date, IsWord w ∧ ',' ∉ w)
    (hs : Respaced (List.intercalate [' '] (weekday :: date)) s) :
    parse? s = read monthFirst (List.intercalate [' '] date) := by
  have hwords : ∀ w ∈ weekday :: date, IsWord w :=
    List.forall_mem_cons.mpr ⟨hweekday, fun w hw => (hdate w hw).1⟩
  have hcommas : ∀ w ∈ weekday :: date, ',' ∉ w :=
    List.forall_mem_cons.mpr ⟨hcomma, fun w hw => (hdate w hw).2⟩
  have hspace : ' ' ∉ weekday := by
    intro hmem
    exact absurd (hweekday.2 ' ' hmem) (by decide)
  have hfirst : List.intercalate [' '] (weekday :: date) =
      weekday ++ ' ' :: List.intercalate [' '] date := by
    obtain ⟨next, others, rfl⟩ := List.exists_cons_of_ne_nil hne
    rw [List.intercalate_cons_cons, List.append_assoc, List.singleton_append]
  have hcut : splitOnce? ',' (List.intercalate [' '] (weekday :: date)) = none :=
    splitOnce?_eq_none_iff.mpr (not_mem_intercalate (by decide) hcommas)
  have hskip : splitOnce? ' ' (List.intercalate [' '] (weekday :: date)) =
      some (weekday, List.intercalate [' '] date) :=
    splitOnce?_eq_some_iff.mpr ⟨hfirst, hspace⟩
  unfold parse?
  simp only [← hs.singleSpaced_eq, singleSpaced_intercalate hwords, hcut, hskip, Option.bind_some]

/-- A date that is no leap second is at a whole second. -/
theorem nanos_of_parse? {s : Text} {t : Instant} (h : parse? s = some t) (ht : t.isLeap = false) :
    t.nanos = 0 := by
  have hread : ∃ format date, read format date = some t := by
    dsimp only [parse?] at h
    split at h
    · obtain ⟨format, -, hread⟩ := List.exists_of_findSome?_eq_some h
      exact ⟨format, _, hread⟩
    · obtain ⟨⟨_, date⟩, -, hread⟩ := Option.bind_eq_some_iff.mp h
      exact ⟨monthFirst, date, hread⟩
  obtain ⟨format, date, hread⟩ := hread
  obtain ⟨c, -, hc⟩ := Option.bind_eq_some_iff.mp hread
  exact Civil.nanos_of_toInstant? hc ht

/-! ## All notations of one time -/

/-- The civil time in one of the four notations. The last one is that of `asctime`; the second
space that it has in front of a day of one digit is a run of blanks like any other. -/
inductive Rendered (c : Civil) : Text → Prop where
  | rfc1123 {weekday : Text} {zone : List Text} (hweekday : ',' ∉ weekday) (hzone : zone ∈ zones) :
      Rendered c (afterWeekday weekday (spacedWords c) zone)
  | netscape {weekday : Text} {zone : List Text} (hweekday : ',' ∉ weekday)
      (hzone : zone ∈ zones) : Rendered c (afterWeekday weekday (hyphenatedWords c) zone)
  | rfc850 {weekday : Text} {zone : List Text} (hweekday : ',' ∉ weekday) (hzone : zone ∈ zones)
      (hcentury : 1970 ≤ c.year ∧ c.year ≤ 2069) :
      Rendered c (afterWeekday weekday (shortWords c) zone)
  | asctime {weekday : Text} (hweekday : IsWord weekday) (hcomma : ',' ∉ weekday) :
      Rendered c (List.intercalate [' '] (weekday :: monthFirstWords c))

example :
    let c : Civil := ⟨1994, 11, 6, 8, 49, 37⟩
    afterWeekday "Sun".toList (spacedWords c) ["GMT".toList] =
        "Sun, 06 Nov 1994 08:49:37 GMT".toList ∧
      afterWeekday "Sun".toList (hyphenatedWords c) ["GMT".toList] =
        "Sun, 06-Nov-1994 08:49:37 GMT".toList ∧
      afterWeekday "Sunday".toList (shortWords c) ["GMT".toList] =
        "Sunday, 06-Nov-94 08:49:37 GMT".toList ∧
      List.intercalate [' '] ("Sun".toList :: monthFirstWords c) =
        "Sun Nov 6 08:49:37 1994".toList := by decide

theorem read_of_readFrom {format : List Item} {text : Text} {o : Option Civil}
    (h : readFrom format blank text = o) : read format text = o.bind Civil.toInstant? :=
  congrArg (·.bind Civil.toInstant?) h

/-- The formats that are tried before the one that fits do not fit. -/
theorem parse?_of_rendered (hc : c.Exists) (hyear : 0 ≤ c.year ∧ c.year ≤ 9999) {s t : Text}
    {i : Instant} (hi : c.toInstant? = some i) (h : Rendered c s) (hst : Respaced s t) :
    parse? t = some i := by
  have hmonth := isWord_monthText hc.month_mem
  have hclock := isWord_clockText c
  have hlastOf : ∀ front : List Text, ∀ d ∈
      (List.intercalate [' '] (front ++ [clockText c])).getLast?, d.isDigit = true := by
    intro front
    rw [getLast?_intercalate_concat front hclock.1]
    exact isDigit_of_mem_getLast?_clockText c
  cases h with
  | rfc1123 hweekday hzone =>
      have hdate : ∀ w ∈ spacedWords c, IsWord w := by
        simp [spacedWords, isWord_padded, hmonth, hclock]
      have hspaced := read_of_readFrom (readFrom_spacedWords hc hyear)
      have hne : spacedWords c ≠ [] := List.cons_ne_nil _ _
      rw [parse?_of_afterWeekday hweekday hzone hne hdate (hlastOf [_, _, _]) hst]
      simp only [afterComma, List.findSome?_cons, hspaced, Option.bind_some, hi]
  | netscape hweekday hzone =>
      have hdate := isWord_of_mem_hyphenWords hc (isWord_padded 4 c.year.toNat)
      have hspaced : read spaced (List.intercalate [' '] (hyphenatedWords c)) = none :=
        read_of_readFrom (readFrom_spaced_none hc _)
      have hshort : read hyphenatedShort (List.intercalate [' '] (hyphenatedWords c)) = none :=
        read_of_readFrom (readFrom_hyphenatedShort_none hc hyear)
      have hlong := read_of_readFrom (readFrom_hyphenatedWords hc hyear)
      have hne : hyphenatedWords c ≠ [] := List.cons_ne_nil _ _
      rw [parse?_of_afterWeekday hweekday hzone hne hdate (hlastOf [_]) hst]
      simp only [afterComma, List.findSome?_cons, hspaced, hshort, hlong, Option.bind_some, hi]
  | rfc850 hweekday hzone hcentury =>
      have hdate := isWord_of_mem_hyphenWords hc (isWord_padded 2 (c.year % 100).toNat)
      have hspaced : read spaced (List.intercalate [' '] (shortWords c)) = none :=
        read_of_readFrom (readFrom_spaced_none hc _)
      have hshort := read_of_readFrom (readFrom_shortWords hc hcentury)
      have hne : shortWords c ≠ [] := List.cons_ne_nil _ _
      rw [parse?_of_afterWeekday hweekday hzone hne hdate (hlastOf [_]) hst]
      simp only [afterComma, List.findSome?_cons, hspaced, hshort, Option.bind_some, hi]
  | asctime hweekday hcomma =>
      have hread := read_of_readFrom (readFrom_monthFirstWords hc hyear)
      rw [parse?_of_noComma hweekday hcomma (List.cons_ne_nil _ _)
        (isWord_of_mem_monthFirstWords hc) hst]
      exact hread.trans hi

/-- The notations agree: a civil time denotes one point of time, and every notation of it, with
any weekday and any blanks, is read as that. -/
theorem exists_denotes_of_rendered (hc : c.Regular) (hyear : 0 ≤ c.year ∧ c.year ≤ 9999) :
    ∃ i, c.Denotes i ∧ ∀ s t, Rendered c s → Respaced s t → parse? t = some i := by
  obtain ⟨i, hi, hdenotes⟩ := Civil.exists_toInstant? hc (by omega)
  exact ⟨i, hdenotes, fun s t hs hst => parse?_of_rendered hc.1 hyear hi hs hst⟩

/-- The day after a leap day, with two spaces before the day and with tabs behind the comma. -/
theorem exists_denotes_of_rendered_first_of_march :
    let c : Civil := ⟨2000, 3, 1, 12, 5, 9⟩
    c.Regular ∧ (0 ≤ c.year ∧ c.year ≤ 9999) ∧ ∃ i, c.Denotes i ∧ i.seconds = 951912309 ∧
      parse? "Wed Mar  1 12:05:09 2000".toList = some i ∧
      parse? "Wednesday,\t\t01-Mar-00 12:05:09 UTC".toList = some i := by
  intro c
  have hc : c.Regular := by decide
  have hyear : 0 ≤ c.year ∧ c.year ≤ 9999 := by decide
  obtain ⟨i, hi, hread⟩ := exists_denotes_of_rendered hc hyear
  have hcount : c.unixSeconds = 951912309 := by decide
  have hpadded : Respaced "Wed Mar 1 12:05:09 2000".toList "Wed Mar  1 12:05:09 2000".toList :=
    (Respaced.refl "Wed Mar".toList).append
      ((respaced_space (by decide : "  ".toList ≠ []) (by decide)).append
        (Respaced.refl "1 12:05:09 2000".toList))
  have htabs : Respaced "Wednesday, 01-Mar-00 12:05:09 UTC".toList
      "Wednesday,\t\t01-Mar-00 12:05:09 UTC".toList :=
    (Respaced.refl "Wednesday,".toList).append
      ((respaced_space (by decide : "\t\t".toList ≠ []) (by decide)).append
        (Respaced.refl "01-Mar-00 12:05:09 UTC".toList))
  have hasctime : Rendered c "Wed Mar 1 12:05:09 2000".toList := by
    have htext : List.intercalate [' '] ("Wed".toList :: monthFirstWords c) =
        "Wed Mar 1 12:05:09 2000".toList := by decide
    exact htext ▸ .asctime (by decide) (by decide)
  have hrfc850 : Rendered c "Wednesday, 01-Mar-00 12:05:09 UTC".toList := by
    have htext : afterWeekday "Wednesday".toList (shortWords c) ["UTC".toList] =
        "Wednesday, 01-Mar-00 12:05:09 UTC".toList := by decide
    exact htext ▸ .rfc850 (by decide) (by decide) (by decide)
  exact ⟨hc, hyear, i, hi, ((Civil.denotes_iff hc i).mp hi).2.trans hcount,
    hread _ _ hasctime hpadded, hread _ _ hrfc850 htabs⟩

end HttpExchange.HttpDate
