import HttpExchange.Proofs.Assembly.Written
import HttpExchange.Proofs.Headers.Announcement
import HttpExchange.Proofs.Headers.Refusal

/-! # The length of a body

What the fields of a finished request say of its body. The body was cut off where all of them agree
that it ends, and the request is asked for the first one only: `contentLength?_feedAll`. What they
say is told by the lines of the block, where a plus sign may lead a length and a name with blanks
around it announces nothing: `measures_of_announces`. -/

namespace HttpExchange.Assembly

open Headers (Shows fieldLines Announces)
open Numeral (Digits)

variable {pieces : List Bytes} {r : Request} {rest : Bytes}

theorem finish?_feedAll_empty_iff : (empty.feedAll pieces).finish? = some (r, rest) ↔
    ∃ block, Legible r block ∧ pieces.flatten = wire r block ++ rest := by
  rw [finish?_eq_of_core_eq (core_feedAll pieces)]
  exact finish?_feed_empty_iff

theorem plain_iff : Plain r ↔ r.version = Request.http11 ∧
    (' ' ∉ r.target ∧ '\r' ∉ r.target ∧ '\n' ∉ r.target) ∧
    (∀ field ∈ r.headers.toList, ':' ∉ field.1 ∧ ¬ ['\r', '\n'] <:+: field.1 ∧
      ¬ ['\r', '\n'] <:+: field.2 ∧ field.2.trimStart = field.2) ∧
    r.headers.framing = Headers.Framing.ofBody r.body := by
  simp only [← Headers.linear_iff, ← Headers.framed_iff]
  constructor
  · intro h
    exact ⟨h.version, h.target, h.fields, h.framed⟩
  · rintro ⟨hversion, htarget, hfields, hframed⟩
    exact ⟨hversion, htarget, hfields, hframed⟩

instance (r : Request) : Decidable (Plain r) := decidable_of_iff' _ plain_iff

theorem Plain.finish? (h : Plain r) (hpieces : pieces.flatten = wire r r.headers.block ++ rest) :
    (empty.feedAll pieces).finish? = some (r, rest) :=
  finish?_feedAll_empty_iff.mpr ⟨r.headers.block, h.legible, hpieces⟩

/-! ## Two readers of the announcements -/

/-- A request gives the length of its body, and no length if it has no body. Reading all of the
announcements in their order comes to the same as reading the first one, and so would reading any
other. -/
theorem contentLength?_feedAll (h : (empty.feedAll pieces).isReady = true) :
    ∃ r rest, (empty.feedAll pieces).finish? = some (r, rest) ∧
      r.contentLength? = r.body.map List.length ∧ (r.contentLength? = none ↔ r.body = none) ∧
      (r.headers.getAll "content-length".toList).foldl Headers.Framing.note .bodiless =
        Headers.Framing.ofBody r.body ∧
      ∀ value ∈ r.headers.getAll "content-length".toList,
        Headers.bodyLength? value = r.contentLength? := by
  obtain ⟨r, rest, hfinish⟩ := isReady_iff.mp h
  obtain ⟨block, hlegible, -⟩ := finish?_feedAll_empty_iff.mp hfinish
  have hlength := Request.contentLength?_of_framed hlegible.framed
  refine ⟨r, rest, hfinish, hlength, ?_, ?_, ?_⟩
  · rw [hlength, Option.map_eq_none_iff]
  · rw [← Headers.framingOf_eq_foldl]
    exact Headers.framed_iff.mp hlegible.framed
  · intro value hvalue
    rw [hlength]
    exact hlegible.framed.bodyLength?_eq hvalue

/-- Three announcements, spelt and padded in three ways, of a body that comes in two pieces. -/
theorem contentLength?_feedAll_three_announcements :
    let r : Request := ⟨.post, "/".toList, Request.http11,
      ⟨[("Content-Length".toList, "03".toList), ("Host".toList, "x".toList),
        ("content-LENGTH".toList, "+3 \t".toList), ("content-length".toList, "3".toList)]⟩,
      some [97, 98, 99]⟩
    let pieces := [Utf8.encode "POST / HTTP/1.1\r\nContent-Length: 03\r\nHost: x\r\n".toList,
      Utf8.encode "content-LENGTH: +3 \t\r\ncontent-length: 3\r\n\r\na".toList, [98, 99, 71]]
    (empty.feedAll pieces).isReady = true ∧ (empty.feedAll pieces).finish? = some (r, [71]) ∧
      r.contentLength? = some 3 := by
  intro r pieces
  have hplain : Plain r := by decide
  have hfinish : (empty.feedAll pieces).finish? = some (r, [71]) := hplain.finish? (by decide)
  have hready : (empty.feedAll pieces).isReady = true := isReady_iff.mpr ⟨r, [71], hfinish⟩
  obtain ⟨r', rest, hfinish', hlength, -⟩ := contentLength?_feedAll hready
  obtain ⟨rfl, -⟩ := Prod.mk.inj (Option.some.inj (hfinish.symm.trans hfinish'))
  exact ⟨hready, hfinish, hlength⟩

/-! ## What announces a body, and how -/

/-- The field announces a body to a reader who removes the blanks around its name. -/
def AnnouncesTrimmed (field : Text × Text) : Prop :=
  field.1.trim.sameLetters "content-length".toList = true

instance (field : Text × Text) : Decidable (AnnouncesTrimmed field) :=
  inferInstanceAs (Decidable (_ = true))

/-- The value is a row of digits that denotes the length of the body. -/
def Measures (body : Option Bytes) (value : Text) : Prop :=
  ∃ octets, body = some octets ∧ Digits value octets.length

/-- No line of the block can be taken for another announcement than the body was cut off by, if
blanks around names are removed and lengths are digits. -/
def Unambiguous (block : Text) (body : Option Bytes) : Prop :=
  ∀ line ∈ fieldLines block, ∀ field, Shows line field → AnnouncesTrimmed field →
    Measures body field.2.trim

theorem Measures.not_plus {body : Option Bytes} {value : Text} (h : Measures body value) :
    '+' ∉ value := by
  obtain ⟨octets, -, hdigits⟩ := h
  exact hdigits.not_plus

theorem announcesTrimmed_of_announces {field : Text × Text} (h : Announces field) :
    AnnouncesTrimmed field := by
  rw [AnnouncesTrimmed, Headers.trim_of_sameLetters h]
  exact h

theorem Legible.mem_of_shows {block line : Text} {field : Text × Text} (h : Legible r block)
    (hline : line ∈ fieldLines block) (hshows : Shows line field) : field ∈ r.headers.toList :=
  (Headers.mem_toList_iff_of_parseBlock? (Headers.parseBlock?_eq_some_iff.mpr h.fields) field).mpr
    ⟨line, hline, hshows⟩

/-- A line of a legible block that announces a body was read as the length of that body. -/
theorem Legible.announced {block line : Text} {field : Text × Text} (h : Legible r block)
    (hline : line ∈ fieldLines block) (hshows : Shows line field) (hname : Announces field) :
    ∃ digits, (field.2.trim = digits ∨ field.2.trim = '+' :: digits) ∧
      Measures r.body digits := by
  have hfield := h.mem_of_shows hline hshows
  have hframed := h.framed
  cases hbody : r.body with
  | none =>
      rw [hbody] at hframed
      exact absurd hname (hframed field hfield)
  | some octets =>
      rw [hbody] at hframed
      obtain ⟨-, digits, hsign, hdigits⟩ :=
        Numeral.unsigned?_eq_some_iff.mp (hframed.2 field hfield hname)
      exact ⟨digits, hsign, octets, rfl, hdigits⟩

/-- Two requests of which another reader makes something else: one announces its body with a plus
sign, and the other has a blank behind the name. -/
theorem not_unambiguous_plus_or_padded :
    let plus : Request := ⟨.post, "/".toList, Request.http11,
      ⟨[("Content-Length".toList, "+1".toList)]⟩, some [120]⟩
    let plusBlock := "\r\nContent-Length: +1".toList
    let plusOctets := Utf8.encode "POST / HTTP/1.1\r\nContent-Length: +1\r\n\r\nx".toList
    let padded : Request := ⟨.post, "/".toList, Request.http11,
      ⟨[("Content-Length ".toList, "x".toList)]⟩, none⟩
    let paddedBlock := "\r\nContent-Length : x".toList
    let paddedOctets := Utf8.encode "POST / HTTP/1.1\r\nContent-Length : x\r\n\r\nx".toList
    ((empty.feedAll [plusOctets]).finish? = some (plus, []) ∧
        plusOctets = wire plus plusBlock ++ [] ∧ ¬ Unambiguous plusBlock plus.body) ∧
      (empty.feedAll [paddedOctets]).finish? = some (padded, [120]) ∧
        paddedOctets = wire padded paddedBlock ++ [120] ∧
        ¬ Unambiguous paddedBlock padded.body := by
  intro plus plusBlock plusOctets padded paddedBlock paddedOctets
  have hplus : Plain plus := by decide
  have hpadded : Plain padded := by decide
  refine ⟨⟨hplus.finish? (by decide), by decide, ?_⟩, hpadded.finish? (by decide), by decide, ?_⟩
  · intro hread
    have hmeasures := hread "Content-Length: +1".toList (by decide)
      ("Content-Length".toList, "+1".toList) ⟨" +1".toList, by decide⟩ (by decide)
    exact absurd (by decide) hmeasures.not_plus
  · intro hread
    obtain ⟨octets, hbody, -⟩ := hread "Content-Length : x".toList (by decide)
      ("Content-Length ".toList, "x".toList) ⟨" x".toList, by decide⟩ (by decide)
    cases hbody

/-- Every line with the name that announces a body gives the length of the body in digits, which one
plus sign may lead. There is no other reading of the block just when no plus sign does and the lines
that only have the name when the blanks around it are removed give that length too. -/
theorem measures_of_announces (h : (empty.feedAll pieces).isReady = true) :
    ∃ r rest block, (empty.feedAll pieces).finish? = some (r, rest) ∧
      pieces.flatten = wire r block ++ rest ∧
      (∀ line ∈ fieldLines block, ∀ field, Shows line field → Announces field →
        ∃ digits, (field.2.trim = digits ∨ field.2.trim = '+' :: digits) ∧
          Measures r.body digits) ∧
      (Unambiguous block r.body ↔
        (∀ line ∈ fieldLines block, ∀ field, Shows line field → Announces field →
          '+' ∉ field.2.trim) ∧
        ∀ line ∈ fieldLines block, ∀ field, Shows line field → AnnouncesTrimmed field →
          ¬ Announces field → Measures r.body field.2.trim) := by
  obtain ⟨r, rest, hfinish⟩ := isReady_iff.mp h
  obtain ⟨block, hlegible, hpieces⟩ := finish?_feedAll_empty_iff.mp hfinish
  refine ⟨r, rest, block, hfinish, hpieces, ?_, ?_, ?_⟩
  · intro line hline field hshows hname
    exact hlegible.announced hline hshows hname
  · intro hread
    constructor
    · intro line hline field hshows hname
      exact (hread line hline field hshows (announcesTrimmed_of_announces hname)).not_plus
    · intro line hline field hshows htrimmed _
      exact hread line hline field hshows htrimmed
  · rintro ⟨hplus, hpadded⟩ line hline field hshows htrimmed
    by_cases hname : Announces field
    · obtain ⟨digits, hdigits | hdigits, hmeasures⟩ := hlegible.announced hline hshows hname
      · exact hdigits ▸ hmeasures
      · have hnone := hplus line hline field hshows hname
        rw [hdigits] at hnone
        exact absurd List.mem_cons_self hnone
    · exact hpadded line hline field hshows htrimmed hname

/-- A blank behind the name does no harm when the value is the length all the same. -/
theorem measures_of_announces_twice :
    let r : Request := ⟨.put, "/".toList, Request.http11,
      ⟨[("Content-Length".toList, "01".toList), ("content-length ".toList, "1".toList)]⟩,
      some [120]⟩
    let pieces := [Utf8.encode "PUT / HTTP/1.1\r\nContent-Length: 01\r\n".toList,
      Utf8.encode "content-length : 1\r\n\r\nxG".toList]
    (empty.feedAll pieces).isReady = true ∧ (empty.feedAll pieces).finish? = some (r, [71]) ∧
      Unambiguous r.headers.block r.body := by
  intro r pieces
  have hplain : Plain r := by decide
  have hpieces : pieces.flatten = wire r r.headers.block ++ [71] := by decide
  have hfinish : (empty.feedAll pieces).finish? = some (r, [71]) := hplain.finish? hpieces
  have hready : (empty.feedAll pieces).isReady = true := isReady_iff.mpr ⟨r, [71], hfinish⟩
  obtain ⟨r', rest, block, hfinish', hpieces', -, hread⟩ := measures_of_announces hready
  obtain ⟨rfl, rfl⟩ := Prod.mk.inj (Option.some.inj (hfinish.symm.trans hfinish'))
  obtain rfl := block_eq_of_wire_append_eq (hpieces'.symm.trans hpieces)
  refine ⟨hready, hfinish, hread.mpr ⟨?_, ?_⟩⟩
  · intro line hline field hshows _
    have hvalues : ∀ field ∈ r.headers.toList, '+' ∉ field.2.trim := by decide
    exact hvalues field (hplain.legible.mem_of_shows hline hshows)
  · intro line hline field hshows _ hname
    have hfield := hplain.legible.mem_of_shows hline hshows
    rcases List.mem_cons.mp hfield with rfl | hfield
    · exact (hname rfl).elim
    · obtain rfl := List.mem_singleton.mp hfield
      exact ⟨[120], rfl, Numeral.natural?_eq_some_iff.mp (by decide)⟩

end HttpExchange.Assembly
