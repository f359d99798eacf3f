import HttpExchange.Http.Request
import HttpExchange.Proofs.Headers.Block
import HttpExchange.Proofs.Text.Trim

/-! # Announced lengths

What a field says that announces a body, and who reads it: the framing goes through all of these
fields, one after the other, and a request is asked for the first one. Where the fields announce a
body they cannot differ. -/

namespace HttpExchange

namespace Numeral

/-- A row of ASCII digits that denotes the number. -/
structure Digits (s : Text) (n : Nat) : Prop where
  nonempty : s ≠ []
  digits : ∀ c ∈ s, c.isDigit = true
  value : Nat.ofDigitChars 10 s 0 = n

theorem natural?_eq_some_iff {s : Text} {n : Nat} : natural? s = some n ↔ Digits s n := by
  rw [natural?, Option.ite_none_right_eq_some, Bool.and_eq_true, Bool.not_eq_true',
    List.isEmpty_eq_false_iff, List.all_eq_true, Option.some.injEq]
  constructor
  · rintro ⟨⟨hne, hdigits⟩, hvalue⟩
    exact ⟨hne, hdigits, hvalue⟩
  · intro h
    exact ⟨⟨h.nonempty, h.digits⟩, h.value⟩

theorem Digits.not_plus {s : Text} {n : Nat} (h : Digits s n) : '+' ∉ s := fun hplus =>
  absurd (h.digits '+' hplus) (by decide)

theorem bind_lt_eq_some_iff {read : Option Nat} {bound n : Nat} :
    (read.bind fun k => if k < bound then some k else none) = some n ↔
      n < bound ∧ read = some n := by
  cases read with
  | none => simp
  | some k =>
      rw [Option.bind_some, Option.ite_none_right_eq_some]
      apply and_congr_left
      intro hk
      rw [Option.some.inj hk]

/-- A number that fits is read from its digits, and a plus sign before them is passed over. -/
theorem unsigned?_eq_some_iff {bits n : Nat} {s : Text} :
    unsigned? bits s = some n ↔
      n < Nat.pow 2 bits ∧ ∃ digits, (s = digits ∨ s = '+' :: digits) ∧ Digits digits n := by
  unfold unsigned?
  split
  · rename_i digits
    refine bind_lt_eq_some_iff.trans (and_congr_right fun _ => ?_)
    rw [natural?_eq_some_iff]
    constructor
    · intro h
      exact ⟨digits, .inr rfl, h⟩
    · rintro ⟨others, rfl | heq, h⟩
      · exact absurd List.mem_cons_self h.not_plus
      · exact (List.cons.inj heq).2 ▸ h
  · rename_i hsign
    refine bind_lt_eq_some_iff.trans (and_congr_right fun _ => ?_)
    rw [natural?_eq_some_iff]
    constructor
    · intro h
      exact ⟨s, .inl rfl, h⟩
    · rintro ⟨digits, rfl | rfl, h⟩
      · exact h
      · exact absurd rfl (hsign digits)

end Numeral

namespace Headers

/-! ## One announcement after the other -/

/-- One more announcement is read, behind others that have agreed on a length or not. -/
def Framing.note (agreed : Framing) (value : Text) : Framing :=
  match agreed, bodyLength? value with
  | .bodiless, some n => .sized n
  | .sized k, some n => if n = k then .sized k else .contradictory
  | _, _ => .contradictory

theorem foldl_note_contradictory (values : List Text) :
    values.foldl Framing.note .contradictory = .contradictory := by
  induction values with
  | nil => rfl
  | cons value values ih => exact ih

theorem foldl_note_sized (k : Nat) (values : List Text) :
    values.foldl Framing.note (.sized k) =
      if values.all fun v => bodyLength? v == some k then .sized k else .contradictory := by
  induction values with
  | nil => rfl
  | cons value values ih =>
      rw [List.foldl_cons, List.all_cons]
      cases hvalue : bodyLength? value with
      | none => simpa [Framing.note, hvalue] using foldl_note_contradictory values
      | some n =>
          by_cases hn : n = k
          · simpa [Framing.note, hvalue, hn] using ih
          · simpa [Framing.note, hvalue, hn] using foldl_note_contradictory values

/-- The framing is what is left when the announcements are read in their order. -/
theorem framingOf_eq_foldl (values : List Text) :
    framingOf values = values.foldl Framing.note .bodiless := by
  cases values with
  | nil => rfl
  | cons value values =>
      rw [List.foldl_cons, framingOf]
      cases hvalue : bodyLength? value with
      | none => simpa only [Framing.note, hvalue] using (foldl_note_contradictory values).symm
      | some n => simpa only [Framing.note, hvalue] using (foldl_note_sized n values).symm

/-! ## Fields that announce a body -/

/-- Each of the announcements gives the length of the body, so there are none without a body. -/
theorem Framed.bodyLength?_eq {h : Headers} {body : Option Bytes} (hframed : Framed h body)
    {value : Text} (hvalue : value ∈ h.getAll "content-length".toList) :
    bodyLength? value = body.map List.length := by
  obtain ⟨field, hfield, hname, rfl⟩ := mem_getAll_iff.mp hvalue
  cases body with
  | none => exact absurd hname (hframed field hfield)
  | some octets => exact hframed.2 field hfield hname

theorem Framed.ne_nil_iff {h : Headers} {body : Option Bytes} (hframed : Framed h body) :
    h.getAll "content-length".toList ≠ [] ↔ body.isSome = true := by
  rw [ne_eq, getAll_eq_nil_iff]
  cases body with
  | none => exact iff_of_false (not_not.mpr hframed) Bool.false_ne_true
  | some octets =>
      obtain ⟨field, hfield, hname⟩ := hframed.1
      exact iff_of_true (fun hno => hno field hfield hname) rfl

theorem visible_of_toLower {c : Char} (h : Text.Visible c.toLower) : Text.Visible c := by
  unfold Char.toLower at h
  split at h
  · rename_i hupper
    have hlow : 'A'.toNat ≤ c.toNat := hupper.1
    have hhigh : c.toNat ≤ 'Z'.toNat := hupper.2
    exact ⟨lt_of_lt_of_le (by decide) hlow, lt_of_le_of_lt hhigh (by decide)⟩
  · exact h

/-- A name that announces has no blanks at its ends. -/
theorem trim_of_sameLetters {name : Text} (h : name.sameLetters "content-length".toList = true) :
    name.trim = name := by
  -- the letters are gone through, and not all characters
  have hall : ((Text.lowercase "content-length".toList).all fun c => decide (Text.Visible c)) =
      true := by decide
  rw [Text.sameLetters_iff] at h
  apply Text.trim_eq_self_of_visible
  intro c hc
  apply visible_of_toLower
  have hlower : c.toLower ∈ Text.lowercase "content-length".toList := h ▸ List.mem_map_of_mem hc
  exact of_decide_eq_true (List.all_eq_true.mp hall c.toLower hlower)

end Headers

/-- A request gives the length that its fields announce. -/
theorem Request.contentLength?_of_framed {r : Request} (h : Headers.Framed r.headers r.body) :
    r.contentLength? = r.body.map List.length := by
  rw [contentLength?, Headers.get?_eq_head?]
  cases hvalues : r.headers.getAll "content-length".toList with
  | nil =>
      have hbody := h.ne_nil_iff
      rw [hvalues] at hbody
      cases hb : r.body with
      | none => rfl
      | some octets => simp [hb] at hbody
  | cons value values => exact h.bodyLength?_eq (hvalues ▸ List.mem_cons_self)

end HttpExchange
