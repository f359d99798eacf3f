import HttpExchange.Proofs.Cookie.RoundTrip

/-! # The normal form of a header

A header that is read as a cookie can be written again. What is written is the normal form of the
header: it is read as the same cookie at any time, even where the header itself counts its lifetime
from the time of reading, and it is its own normal form. -/

namespace HttpExchange.Cookie

/-- The cookie of a header text as it is written. -/
def normalize? (now : Instant) (header : Text) : Option Text := (parse? now header).map render

/-- A text as canonical cookies are written. -/
def Normal (s : Text) : Prop := ∃ c : Cookie, c.Canonical ∧ c.render = s

variable {now : Instant} {header s : Text} {c d : Cookie}

/-- What can be read at all is what can be written and read back. -/
theorem exists_parse?_eq_some_iff (now : Instant) (c : Cookie) :
    (∃ header, parse? now header = some c) ↔ c.Canonical := by
  constructor
  · rintro ⟨header, h⟩
    exact canonical_of_parse? h
  · intro h
    exact ⟨c.render, parse?_render h now⟩

theorem normal_of_normalize? (h : normalize? now header = some s) : Normal s := by
  obtain ⟨c, hc, hs⟩ := Option.map_eq_some_iff.mp h
  exact ⟨c, canonical_of_parse? hc, hs⟩

theorem Normal.normalize? (h : Normal s) (now : Instant) : normalize? now s = some s := by
  rcases h with ⟨c, hc, rfl⟩
  rw [Cookie.normalize?, parse?_render hc, Option.map_some]

/-- The texts in normal form are those that normalizing keeps, whatever the time. -/
theorem normalize?_eq_self_iff (now : Instant) : Cookie.normalize? now s = some s ↔ Normal s :=
  ⟨normal_of_normalize?, fun h => h.normalize? now⟩

theorem render_inj_of_canonical (hc : c.Canonical) (hd : d.Canonical) :
    c.render = d.render ↔ c = d := by
  constructor
  · intro h
    have hread := parse?_render hc Instant.epoch
    rw [h, parse?_render hd] at hread
    exact (Option.some.inj hread).symm
  · intro h
    rw [h]

/-- A header that is read as a cookie is normalized to what this cookie is written as. That text is
read as the same cookie at any time and is its own normal form, and another header has it for its
normal form exactly if it is read as the same cookie too. -/
theorem parse?_render_of_parse? (h : parse? now header = some c) :
    (∀ later, parse? later c.render = some c ∧ normalize? later c.render = some c.render) ∧
      Normal c.render ∧
      ∀ later other, normalize? later other = some c.render ↔ parse? later other = some c := by
  have hc : c.Canonical := canonical_of_parse? h
  have hnormal : Normal c.render := ⟨c, hc, rfl⟩
  refine ⟨?_, hnormal, ?_⟩
  · intro later
    exact ⟨parse?_render hc later, hnormal.normalize? later⟩
  · intro later other
    constructor
    · intro hother
      obtain ⟨d, hd, heq⟩ := Option.map_eq_some_iff.mp hother
      rw [hd, (render_inj_of_canonical (canonical_of_parse? hd) hc).mp heq]
    · intro hother
      rw [normalize?, hother, Option.map_some]

/-- Blanks around the name, commas behind the quote, a path that is taken back, an unknown rule and
a date that has passed: the normal form has a lifetime, which is negative. -/
theorem parse?_render_of_parse?_expired :
    let header : Text := (" sid = \"a=b, ü\", , ; Path=/x; path= ; Domain = example.org ;" ++
      "SameSite=never; Expires=Thu, 01 Jan 1970 00:00:07 GMT").toList
    let now : Instant := ⟨9, 500000000, by decide, by decide, by decide, by decide⟩
    let plain : Cookie := new "sid".toList "a=b, ü".toList
    let c := ((plain.withDomain "example.org".toList).withMaxAge (some (-2))).withSameSite .strict
    let written : Text := "sid=\"a=b, ü\"; Domain=example.org; Max-Age=-2; SameSite=Strict".toList
    parse? now header = some c ∧ c.render = written ∧
      parse? Instant.epoch written = some c ∧ normalize? Instant.epoch written = some written := by
  intro header now plain c written
  have hread : parse? now header = some c := by decide +kernel
  have hwritten : c.render = written := by decide +kernel
  have hagain := (parse?_render_of_parse? hread).1 Instant.epoch
  rw [hwritten] at hagain
  exact ⟨hread, hwritten, hagain⟩

end HttpExchange.Cookie
