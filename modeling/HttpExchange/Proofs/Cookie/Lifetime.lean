import HttpExchange.Proofs.Calendar.Notations
import HttpExchange.Proofs.Calendar.Remaining
import HttpExchange.Proofs.Cookie.Precedence

/-! # Lifetimes from dates of expiry

Where no part tells a lifetime in seconds, the last date of expiry does: the lifetime is what
remains until then, in whole seconds and rounded up, and negative for a date that has passed. -/

namespace HttpExchange.Cookie

open Text Instant

variable {now date : Instant} {header : Text} {c : Cookie}

theorem maxAge_of_expiry (h : parse? now header = some c) (hnone : lifetimes (parts header) = [])
    (hlast : (expiries (parts header)).getLast? = some date) :
    c.maxAge = some (Int64.ofInt (date.secondsUntil now)) := by
  rw [(attributed_of_parse? h).maxAge, hnone, hlast]
  rfl

theorem nanos_of_mem_expiries {parts : List Text} (h : date ∈ expiries parts)
    (hdate : date.isLeap = false) : date.nanos = 0 := by
  obtain ⟨value, -, hread⟩ := List.mem_filterMap.mp h
  exact HttpDate.nanos_of_parse? hread hdate

/-- The lifetime is the least number of seconds after which the date has come, unless less than a
millisecond is left over whole seconds until then: that is cut off before the rounding, and one
second is missing. This happens in the last millisecond of every second before the date. -/
theorem maxAge_isLeast_iff (h : parse? now header = some c) (hnone : lifetimes (parts header) = [])
    (hlast : (expiries (parts header)).getLast? = some date) (hdate : date.isLeap = false) :
    ∃ k : Int64, c.maxAge = some k ∧
      (IsLeast {n : Int | Reached date now n} k.toInt ↔ ¬Clipped date now) ∧
      (Clipped date now → IsLeast {n : Int | Reached date now n} (k.toInt + 1)) ∧
      (now.isLeap = false →
        (∀ n, Reached date now n ↔ date.seconds < now.seconds + n ∨
          date.seconds = now.seconds + n ∧ date.nanos ≤ now.nanos) ∧
        (Clipped date now ↔ now.seconds < date.seconds ∧ 999000000 < now.nanos)) := by
  refine ⟨_, maxAge_of_expiry h hnone hlast, ?_, ?_, ?_⟩
  · rw [toInt_ofInt_secondsUntil]
    exact isLeast_secondsUntil_iff date now
  · rw [toInt_ofInt_secondsUntil]
    exact Clipped.isLeast
  · intro hnow
    have hnanos := nanos_of_mem_expiries (List.mem_of_getLast? hlast) hdate
    exact ⟨reached_iff hdate hnow, clipped_iff hnanos hnow⟩

/-- A quarter of a second more than one second after the date; neither the lifetime that is no
number nor the last date that is none counts. -/
theorem maxAge_isLeast_iff_expired :
    let header : Text :=
      "a=b; Max-Age=1d; Expires=Thu, 01 Jan 1970 00:00:10 GMT; Expires=never".toList
    let date : Instant := ⟨10, 0, by decide, by decide, by decide, by decide⟩
    let now : Instant := ⟨11, 250000000, by decide, by decide, by decide, by decide⟩
    let c : Cookie := (new "a".toList "b".toList).withMaxAge (some (-1))
    parse? now header = some c ∧ lifetimes (parts header) = [] ∧
      (expiries (parts header)).getLast? = some date ∧ date.isLeap = false ∧
      IsLeast {n : Int | Reached date now n} (-1) := by
  intro header date now c
  have hread : parse? now header = some c := by decide +kernel
  have hnone : lifetimes (parts header) = [] := by decide +kernel
  have hlast : (expiries (parts header)).getLast? = some date := by decide +kernel
  obtain ⟨k, hk, hleast, -⟩ := maxAge_isLeast_iff hread hnone hlast rfl
  obtain rfl : -1 = k := Option.some.inj hk
  exact ⟨hread, hnone, hlast, rfl, hleast.mpr (by decide)⟩

/-- Half a millisecond before the date the lifetime is over, and it should be one second. -/
theorem maxAge_zero_before_expiry :
    let header : Text := "a=b; Expires=Thu, 01 Jan 1970 00:00:10 GMT".toList
    let date : Instant := ⟨10, 0, by decide, by decide, by decide, by decide⟩
    let now : Instant := ⟨9, 999500000, by decide, by decide, by decide, by decide⟩
    (∃ c, parse? now header = some c ∧ c.maxAge = some 0) ∧ lifetimes (parts header) = [] ∧
      (expiries (parts header)).getLast? = some date ∧ date.isLeap = false ∧
      ¬IsLeast {n : Int | Reached date now n} 0 ∧ IsLeast {n : Int | Reached date now n} 1 := by
  intro header date now
  have hread : parse? now header =
      some ((new "a".toList "b".toList).withMaxAge (some 0)) := by decide +kernel
  have hnone : lifetimes (parts header) = [] := by decide +kernel
  have hlast : (expiries (parts header)).getLast? = some date := by decide +kernel
  have hclipped : Clipped date now := by decide
  exact ⟨⟨_, hread, rfl⟩, hnone, hlast, rfl, fun h => absurd h.1 (by decide : ¬Reached date now 0),
    hclipped.isLeast⟩

end HttpExchange.Cookie
