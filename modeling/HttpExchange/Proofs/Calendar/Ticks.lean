import HttpExchange.Calendar.Civil
import Mathlib.Algebra.Order.BigOperators.Group.List
import Mathlib.Data.Int.Order.Basic
import Mathlib.Logic.Function.Iterate
import Mathlib.Order.Monotone.Basic
import Mathlib.Tactic.IntervalCases

/-! # The ticks of the civil clock

The civil clock goes on by one second at a time, through minutes, hours, days, months and years of
the calendar. The seconds that are counted for a civil time are its ticks since the start of 1970,
and no two civil times have the same count. -/

namespace HttpExchange.Civil

variable {c d : Civil}

/-! ## Months and years -/

/-- The days of a month. -/
def monthLength (year : Int) (month : Nat) : Nat := (monthLengths year).getD (month - 1) 0

/-- The days of a year before a month. -/
def daysBeforeMonth (year : Int) (month : Nat) : Nat :=
  ((monthLengths year).take (month - 1)).foldr (· + ·) 0

/-- The days of a year. -/
def yearLength (year : Int) : Nat := if isLeapYear year then 366 else 365

theorem daysBeforeYear_succ (year : Int) :
    daysBeforeYear (year + 1) = daysBeforeYear year + yearLength year := by
  unfold daysBeforeYear yearLength isLeapYear
  simp only [Bool.and_eq_true, Bool.or_eq_true, beq_iff_eq, bne_iff_ne, ne_eq]
  split_ifs <;> push_cast <;> omega

theorem daysBeforeMonth_succ (year : Int) {month : Nat} (h : 1 ≤ month ∧ month ≤ 12) :
    daysBeforeMonth year (month + 1) = daysBeforeMonth year month + monthLength year month := by
  obtain ⟨hlow, hhigh⟩ := h
  unfold daysBeforeMonth monthLength monthLengths
  cases isLeapYear year <;> interval_cases month <;> rfl

theorem daysBeforeMonth_one (year : Int) : daysBeforeMonth year 1 = 0 := rfl

theorem daysBeforeMonth_thirteen (year : Int) : daysBeforeMonth year 13 = yearLength year := by
  unfold daysBeforeMonth yearLength monthLengths
  cases isLeapYear year <;> rfl

theorem one_le_monthLength (year : Int) {month : Nat} (h : 1 ≤ month ∧ month ≤ 12) :
    1 ≤ monthLength year month := by
  obtain ⟨hlow, hhigh⟩ := h
  unfold monthLength monthLengths
  cases isLeapYear year <;> interval_cases month <;> decide

theorem daysBeforeMonth_add_le (year : Int) {month : Nat} (h : 1 ≤ month ∧ month ≤ 12) :
    daysBeforeMonth year month + monthLength year month ≤ yearLength year := by
  obtain ⟨hlow, hhigh⟩ := h
  unfold daysBeforeMonth monthLength yearLength monthLengths
  cases isLeapYear year <;> interval_cases month <;> decide

theorem dayNumber_eq (c : Civil) : dayNumber c =
    daysBeforeYear c.year - daysBeforeYear 1970 + daysBeforeMonth c.year c.month + c.day - 1 :=
  rfl

theorem Exists.month_mem (hc : c.Exists) : 1 ≤ c.month ∧ c.month ≤ 12 := ⟨hc.1, hc.2.1⟩

theorem Exists.day_le_monthLength (hc : c.Exists) : c.day ≤ monthLength c.year c.month := by
  obtain ⟨-, -, -, hday, -⟩ := hc
  exact hday

theorem Exists.day_le (hc : c.Exists) : c.day ≤ 31 := by
  have hday := hc.day_le_monthLength
  obtain ⟨hmonth, hmonth', -⟩ := hc
  have hlong : monthLength c.year c.month ≤ 31 := by
    unfold monthLength monthLengths
    cases isLeapYear c.year <;> interval_cases c.month <;> decide
  omega

/-! ## The next second -/

/-- The first second of the next day. -/
def nextDay (c : Civil) : Civil :=
  if c.day < monthLength c.year c.month then ⟨c.year, c.month, c.day + 1, 0, 0, 0⟩
  else if c.month < 12 then ⟨c.year, c.month + 1, 1, 0, 0, 0⟩
  else ⟨c.year + 1, 1, 1, 0, 0, 0⟩

/-- The next second, leap seconds left out. -/
def next (c : Civil) : Civil :=
  if c.second < 59 then { c with second := c.second + 1 }
  else if c.minute < 59 then { c with minute := c.minute + 1, second := 0 }
  else if c.hour < 23 then { c with hour := c.hour + 1, minute := 0, second := 0 }
  else c.nextDay

/-- The time exists and is no leap second. -/
def Regular (c : Civil) : Prop := c.Exists ∧ c.second ≤ 59

instance (c : Civil) : Decidable c.Regular := by unfold Regular; infer_instance

theorem exists_nextDay (hc : c.Exists) : c.nextDay.Exists := by
  obtain ⟨hmonth, hmonth', hday, hday', -⟩ := hc
  have hnext : ∀ year month, 1 ≤ month ∧ month ≤ 12 →
      (⟨year, month, 1, 0, 0, 0⟩ : Civil).Exists := by
    intro year month hm
    exact ⟨hm.1, hm.2, le_rfl, one_le_monthLength year hm, by simp⟩
  unfold nextDay
  split_ifs with hd hm
  · exact ⟨hmonth, hmonth', by simp, hd, by simp⟩
  · exact hnext _ _ ⟨by omega, by omega⟩
  · exact hnext _ _ (by decide)

theorem dayNumber_nextDay (hc : c.Exists) : dayNumber c.nextDay = dayNumber c + 1 := by
  have hlast := hc.day_le_monthLength
  obtain ⟨hmonth, hmonth', -⟩ := hc
  have hsucc := daysBeforeMonth_succ c.year ⟨hmonth, hmonth'⟩
  unfold nextDay
  split_ifs with hd hm
  · rw [dayNumber_eq, dayNumber_eq]
    push_cast
    omega
  · rw [dayNumber_eq, dayNumber_eq, hsucc]
    push_cast
    omega
  · have htwelve : c.month = 12 := by omega
    have hyear : daysBeforeMonth c.year (12 + 1) = yearLength c.year :=
      daysBeforeMonth_thirteen c.year
    rw [htwelve] at hsucc hlast hd
    rw [dayNumber_eq, dayNumber_eq, daysBeforeYear_succ, daysBeforeMonth_one, htwelve]
    push_cast
    omega

theorem unixSeconds_of_le (h : c.second ≤ 59) :
    unixSeconds c = dayNumber c * 86400 + ((c.hour * 60 + c.minute) * 60 + c.second : Nat) := by
  rw [unixSeconds, Nat.min_eq_left h]

theorem Regular.next (hc : c.Regular) : c.next.Regular := by
  obtain ⟨hexists, hsecond⟩ := hc
  obtain ⟨hmonth, hmonth', hday, hday', hhour, hminute, -⟩ := id hexists
  unfold Civil.next
  split_ifs with hs hm hh
  · exact ⟨⟨hmonth, hmonth', hday, hday', hhour, hminute, by simp; omega⟩, by simp; omega⟩
  · exact ⟨⟨hmonth, hmonth', hday, hday', hhour, by simp; omega, by simp⟩, by simp⟩
  · exact ⟨⟨hmonth, hmonth', hday, hday', by simp; omega, by simp, by simp⟩, by simp⟩
  · refine ⟨exists_nextDay hexists, ?_⟩
    unfold nextDay
    split_ifs <;> simp

/-- The clock ticks once a second. -/
theorem unixSeconds_next (hc : c.Regular) : unixSeconds c.next = unixSeconds c + 1 := by
  have hnext := hc.next.2
  obtain ⟨hexists, hsecond⟩ := hc
  obtain ⟨-, -, -, -, hhour, hminute, -⟩ := id hexists
  rw [unixSeconds_of_le hnext, unixSeconds_of_le hsecond]
  unfold Civil.next
  split_ifs with hs hm hh
  · change dayNumber c * 86400 + _ = _
    push_cast
    omega
  · change dayNumber c * 86400 + _ = _
    push_cast
    omega
  · change dayNumber c * 86400 + _ = _
    push_cast
    omega
  · have hmidnight : c.nextDay.hour = 0 ∧ c.nextDay.minute = 0 ∧ c.nextDay.second = 0 := by
      unfold nextDay
      split_ifs <;> exact ⟨rfl, rfl, rfl⟩
    rw [dayNumber_nextDay hexists, hmidnight.1, hmidnight.2.1, hmidnight.2.2]
    push_cast
    omega

/-! ## No two times have one count -/

/-- Of intervals that lie one behind the other only one holds a number. -/
theorem eq_of_mem_intervals {ι : Type} [LinearOrder ι] {start stop : ι → Int} {a b : ι} {x : Int}
    (h : ∀ i j, i < j → stop i ≤ start j) (ha : start a ≤ x ∧ x < stop a)
    (hb : start b ≤ x ∧ x < stop b) : a = b := by
  rcases lt_trichotomy a b with hab | hab | hab
  · have hle := h a b hab
    omega
  · exact hab
  · have hle := h b a hab
    omega

theorem daysBeforeYear_succ_le {year later : Int} (h : year < later) :
    daysBeforeYear (year + 1) ≤ daysBeforeYear later := by
  unfold daysBeforeYear
  omega

theorem daysBeforeMonth_mono (year : Int) : Monotone (daysBeforeMonth year) := by
  intro month later h
  unfold daysBeforeMonth
  rw [← List.sum_eq_foldr, ← List.sum_eq_foldr]
  exact List.monotone_sum_take (monthLengths year) (Nat.sub_le_sub_right h 1)

theorem dayNumber_injective (hc : c.Exists) (hd : d.Exists) (h : dayNumber c = dayNumber d) :
    c.year = d.year ∧ c.month = d.month ∧ c.day = d.day := by
  have hspan : ∀ e : Civil, e.Exists →
      daysBeforeYear e.year ≤ dayNumber e + daysBeforeYear 1970 ∧
        dayNumber e + daysBeforeYear 1970 < daysBeforeYear (e.year + 1) := by
    intro e he
    have hlast := he.day_le_monthLength
    obtain ⟨hmonth, hmonth', hday, -⟩ := he
    have hle := daysBeforeMonth_add_le e.year ⟨hmonth, hmonth'⟩
    rw [daysBeforeYear_succ, dayNumber_eq]
    omega
  have hyear : c.year = d.year :=
    eq_of_mem_intervals (fun _ _ => daysBeforeYear_succ_le) (hspan c hc) (h ▸ hspan d hd)
  have hlast := hc.day_le_monthLength
  have dlast := hd.day_le_monthLength
  obtain ⟨hmonth, hmonth', hday, -⟩ := hc
  obtain ⟨dmonth, dmonth', dday, -⟩ := hd
  have hdays : daysBeforeMonth c.year c.month + c.day = daysBeforeMonth c.year d.month + d.day := by
    rw [dayNumber_eq, dayNumber_eq, ← hyear] at h
    omega
  have hsucc := daysBeforeMonth_succ c.year ⟨hmonth, hmonth'⟩
  have dsucc := daysBeforeMonth_succ c.year ⟨dmonth, dmonth'⟩
  rw [← hyear] at dlast
  have hmonths : c.month = d.month := by
    have hmono : ∀ i j, i < j →
        (daysBeforeMonth c.year (i + 1) : Int) ≤ daysBeforeMonth c.year j := by
      intro i j hij
      exact_mod_cast daysBeforeMonth_mono c.year hij
    apply eq_of_mem_intervals hmono (x := daysBeforeMonth c.year c.month + c.day - 1)
    · omega
    · omega
  refine ⟨hyear, hmonths, ?_⟩
  rw [hmonths] at hdays
  omega

theorem unixSeconds_injective (hc : c.Regular) (hd : d.Regular)
    (h : unixSeconds c = unixSeconds d) : c = d := by
  rw [unixSeconds_of_le hc.2, unixSeconds_of_le hd.2] at h
  obtain ⟨hexists, hsecond⟩ := hc
  obtain ⟨dexists, dsecond⟩ := hd
  obtain ⟨-, -, -, -, hhour, hminute, -⟩ := id hexists
  obtain ⟨-, -, -, -, dhour, dminute, -⟩ := id dexists
  push_cast at h
  have hday : dayNumber c = dayNumber d := by omega
  obtain ⟨hyear, hmonth, hday⟩ := dayNumber_injective hexists dexists hday
  have htime : c.hour = d.hour ∧ c.minute = d.minute ∧ c.second = d.second := by omega
  cases c
  cases d
  simp_all

/-! ## Counting ticks -/

theorem Regular.iterate (hc : c.Regular) (n : Nat) :
    (Civil.next^[n] c).Regular ∧ unixSeconds (Civil.next^[n] c) = unixSeconds c + n := by
  induction n with
  | zero => exact ⟨hc, by simp⟩
  | succ n ih =>
      obtain ⟨hregular, hcount⟩ := ih
      rw [Function.iterate_succ_apply', unixSeconds_next hregular, hcount]
      refine ⟨hregular.next, ?_⟩
      push_cast
      omega

/-- A civil time is so many ticks after another as their counts differ. -/
theorem iterate_next_eq_iff (hc : c.Regular) (hd : d.Regular) (n : Nat) :
    Civil.next^[n] c = d ↔ unixSeconds d = unixSeconds c + n := by
  obtain ⟨hregular, hcount⟩ := hc.iterate n
  constructor
  · rintro rfl
    exact hcount
  · intro h
    exact unixSeconds_injective hregular hd (hcount.trans h.symm)

/-- The first second of 1970. -/
def epoch : Civil := ⟨1970, 1, 1, 0, 0, 0⟩

/-- The point of time has no fraction of a second and is as many seconds after the start of 1970 as
the clock ticks from there to the civil time, or as many before it as the clock ticks the other way
round. -/
structure Denotes (c : Civil) (t : Instant) : Prop where
  nanos : t.nanos = 0
  after : ∀ n : Nat, t.seconds = n → Civil.next^[n] epoch = c
  before : ∀ n : Nat, t.seconds = -n → Civil.next^[n] c = epoch

theorem denotes_iff (hc : c.Regular) (t : Instant) :
    c.Denotes t ↔ t.nanos = 0 ∧ t.seconds = unixSeconds c := by
  have hepoch : epoch.Regular := by decide
  have hzero : unixSeconds epoch = 0 := by decide
  constructor
  · rintro ⟨hnanos, hafter, hbefore⟩
    refine ⟨hnanos, ?_⟩
    rcases Int.le_total 0 t.seconds with hsign | hsign
    · have h := (iterate_next_eq_iff hepoch hc _).mp
        (hafter t.seconds.toNat (Int.toNat_of_nonneg hsign).symm)
      omega
    · have h := (iterate_next_eq_iff hc hepoch _).mp
        (hbefore (-t.seconds).toNat (by omega))
      omega
  · rintro ⟨hnanos, hseconds⟩
    refine ⟨hnanos, ?_, ?_⟩
    · intro n hn
      exact (iterate_next_eq_iff hepoch hc n).mpr (by omega)
    · intro n hn
      exact (iterate_next_eq_iff hc hepoch n).mpr (by omega)

theorem unixSeconds_mem (hc : c.Exists) (hyear : -262143 ≤ c.year ∧ c.year ≤ 262142) :
    -8334601228800 ≤ unixSeconds c ∧ unixSeconds c ≤ 8210266876799 := by
  have hlast := hc.day_le_monthLength
  obtain ⟨hmonth, hmonth', hday, -, hhour, hminute, hsecond⟩ := hc
  have hle := daysBeforeMonth_add_le c.year ⟨hmonth, hmonth'⟩
  have hsucc := daysBeforeYear_succ c.year
  have hyears : daysBeforeYear (-262143) ≤ daysBeforeYear c.year ∧
      daysBeforeYear (c.year + 1) ≤ daysBeforeYear 262143 := by
    unfold daysBeforeYear
    omega
  have hborders : daysBeforeYear (-262143) = -95746130 ∧ daysBeforeYear 1970 = 719162 ∧
      daysBeforeYear 262143 = 95745399 := by decide
  rw [unixSeconds, dayNumber_eq]
  push_cast
  omega

/-- Every time in range that is no leap second has its point of time. -/
theorem exists_toInstant? (hc : c.Regular) (hyear : -262143 ≤ c.year ∧ c.year ≤ 262142) :
    ∃ t, c.toInstant? = some t ∧ c.Denotes t := by
  have hsecond : c.second ≠ 60 := by
    have := hc.2
    omega
  have hrange := unixSeconds_mem hc.1 hyear
  have hnanos : (0 : Nat) < 2000000000 ∧ (1000000000 ≤ 0 → c.unixSeconds % 60 = 59) :=
    ⟨by decide, fun h => absurd h (by decide)⟩
  refine ⟨⟨c.unixSeconds, 0, hrange.1, hrange.2, hnanos.1, hnanos.2⟩, ?_, ?_⟩
  · rw [toInstant?, if_pos hc.1, if_neg hsecond, Instant.ofUnix?, dif_pos ⟨hrange, hnanos⟩]
  · exact (denotes_iff hc _).mpr ⟨rfl, rfl⟩

/-- Only the leap second has nanoseconds, those that make it one. -/
theorem nanos_of_toInstant? {t : Instant} (h : c.toInstant? = some t) (ht : t.isLeap = false) :
    t.nanos = 0 := by
  obtain ⟨-, hunix⟩ := Option.ite_none_right_eq_some.mp h
  rw [Instant.ofUnix?, Option.dite_none_right_eq_some] at hunix
  obtain ⟨_, heq⟩ := hunix
  have hnanos : (if c.second = 60 then 1000000000 else 0) = t.nanos :=
    congrArg Instant.nanos (Option.some.inj heq)
  have hlt : t.nanos < 1000000000 := by simpa [Instant.isLeap] using ht
  split at hnanos
  · omega
  · exact hnanos.symm

end HttpExchange.Civil
