import HttpExchange.Proofs.Response.Serialized

/-! # Fields that frame a response

Two fields tell a reader where the body ends and whether the connection goes on. Both are added to
every response, whether or not a field with that name was set before: the added ones tell the truth,
and a set one is sent beside them whatever it says. So the head of a response contradicts nothing
exactly when the fields that were set for it do not. -/

namespace HttpExchange.Response

open Assembly (crlf)

/-- The texts that a step gives to the head. -/
def Step.texts : Step → List Text
  | header name value => [name, value]
  | cookie c => c.texts
  | _ => []

/-- What a field says about this body and about the connection behind it is so. A field with
another name says nothing about them. -/
structure Truthful (body : Bytes) (keepAlive : Bool) (field : Text × Text) : Prop where
  length : field.1.sameLetters "content-length".toList = true →
    field.2.trim = Numeral.ofNat body.length
  connection : field.1.sameLetters "connection".toList = true →
    (field.2.trim.sameLetters "close".toList = true ↔ keepAlive = false)

theorem truthful_iff {body : Bytes} {keepAlive : Bool} {field : Text × Text} :
    Truthful body keepAlive field ↔
      (field.1.sameLetters "content-length".toList = true →
        field.2.trim = Numeral.ofNat body.length) ∧
      (field.1.sameLetters "connection".toList = true →
        (field.2.trim.sameLetters "close".toList = true ↔ keepAlive = false)) :=
  ⟨fun h => ⟨h.length, h.connection⟩, fun h => ⟨h.1, h.2⟩⟩

instance (body : Bytes) (keepAlive : Bool) (field : Text × Text) :
    Decidable (Truthful body keepAlive field) :=
  decidable_of_iff _ truthful_iff.symm

/-- The fields that a reader finds in the head are truthful about the octets behind it and about
the connection. -/
def Coherent (octets : Bytes) (keepAlive : Bool) : Prop :=
  ∃ line block body h, Parts octets line block body ∧ Headers.parseBlock? block = some h ∧
    ∀ field ∈ h.toList, Truthful body keepAlive field

/-! ## Fields that were not set -/

theorem truthful_of_other {body : Bytes} {keepAlive : Bool} {field : Text × Text}
    (hlength : field.1.sameLetters "content-length".toList = false)
    (hconnection : field.1.sameLetters "connection".toList = false) :
    Truthful body keepAlive field :=
  ⟨fun h => absurd h (ne_true_of_eq_false hlength),
    fun h => absurd h (ne_true_of_eq_false hconnection)⟩

theorem truthful_cookieField (body : Bytes) (keepAlive : Bool) (c : Cookie) :
    Truthful body keepAlive (Headers.shown (cookieField c)) := by
  have hname : ':' ∉ (cookieField c).1 := by
    show ':' ∉ "Set-Cookie".toList
    decide
  rw [Headers.shown_of_colonless hname]
  apply truthful_of_other
  · show Text.sameLetters "Set-Cookie".toList "content-length".toList = false
    decide
  · show Text.sameLetters "Set-Cookie".toList "connection".toList = false
    decide

/-- Fields that are added tell the truth. -/
theorem truthful_of_mem_added {fields : List (Text × Text)} {body : Bytes} {keepAlive : Bool}
    {field : Text × Text} (h : field ∈ added fields body keepAlive) :
    Truthful body keepAlive (Headers.shown field) := by
  have htype : Truthful body keepAlive
      ("Content-Type".toList, "text/plain; charset=utf-8".toList) :=
    truthful_of_other (by decide) (by decide)
  have hconnection : Truthful body keepAlive ("Connection".toList,
      if keepAlive then "keep-alive".toList else "close".toList) := by
    have hother : ¬ Text.sameLetters "Connection".toList "content-length".toList = true := by decide
    refine ⟨fun hname => absurd hname hother, fun _ => ?_⟩
    cases keepAlive <;> decide
  have hlength : Truthful body keepAlive ("Content-Length".toList, Numeral.ofNat body.length) := by
    have hother : ¬ Text.sameLetters "Content-Length".toList "connection".toList = true := by decide
    refine ⟨fun _ => ?_, fun hname => absurd hname hother⟩
    exact Text.trim_eq_self_of_visible fun _ => Cookie.visible_of_mem_ofInt (z := body.length)
  rw [(linear_of_mem_added h).shown_eq]
  simp only [added, List.mem_append, List.mem_ite_nil_right, List.mem_cons, List.not_mem_nil,
    or_false] at h
  rcases h with ⟨-, rfl⟩ | rfl | rfl
  · exact htype
  · exact hconnection
  · exact hlength

/-! ## All fields -/

theorem mem_fieldsOf_iff {steps : List Step} {field : Text × Text} :
    field ∈ fieldsOf steps ↔ .header field.1 field.2 ∈ steps ∨
      ∃ c, .cookie c ∈ steps ∧ c.hasValidName = true ∧ cookieField c = field := by
  rw [fieldsOf, List.mem_filterMap]
  constructor
  · rintro ⟨step, hstep, hset⟩
    cases step with
    | header name value =>
        obtain rfl := Option.some.inj hset
        exact .inl hstep
    | cookie c =>
        obtain ⟨hname, hset⟩ := Option.ite_none_right_eq_some.mp hset
        exact .inr ⟨c, hstep, hname, Option.some.inj hset⟩
    | text | octets | connection => cases hset
  · rintro (hstep | ⟨c, hstep, hname, rfl⟩)
    · exact ⟨_, hstep, rfl⟩
    · exact ⟨_, hstep, if_pos hname⟩

/-- A response whose texts hold no line break has a line for each of its fields. -/
theorem unbroken_made (status : Status) {steps : List Step}
    (h : ∀ step ∈ steps, ∀ text ∈ step.texts, ¬ ['\r', '\n'] <:+: text) :
    (made status steps).sent.Unbroken := by
  have hcookie : ¬ ['\r', '\n'] <:+: "Set-Cookie".toList := by decide
  intro field hfield
  rw [toList_sent, made_eq] at hfield
  rcases List.mem_append.mp hfield with hfield | hfield
  · rcases mem_fieldsOf_iff.mp hfield with hstep | ⟨c, hstep, -, rfl⟩
    · have htexts := h _ hstep
      exact Headers.not_infix_lineOf (htexts field.1 (by simp [Step.texts]))
        (htexts field.2 (by simp [Step.texts]))
    · exact Headers.not_infix_lineOf hcookie (Cookie.not_infix_render (h _ hstep))
  · have hlinear := linear_of_mem_added hfield
    exact Headers.not_infix_lineOf hlinear.name hlinear.value

theorem coherent_toBytes_iff {r : Response} (h : r.sent.Unbroken) :
    Coherent r.toBytes r.keepAlive ↔
      ∀ field ∈ r.sent.toList, Truthful r.body r.keepAlive (Headers.shown field) := by
  have hparts := parts_toBytes_of_unbroken h
  have hread := Headers.parseBlock?_joined_of_unbroken r.sent_ne_nil h
  constructor
  · rintro ⟨line, block, body, fields, hparts', hparse, htruthful⟩
    obtain ⟨-, rfl, rfl⟩ := hparts.unique hparts'
    obtain rfl := Option.some.inj (hread.symm.trans hparse)
    exact List.forall_mem_map.mp htruthful
  · intro htruthful
    exact ⟨_, _, _, _, hparts, hread, List.forall_mem_map.mpr htruthful⟩

/-- The head of a response contradicts neither its body nor the connection exactly when none of the
fields that were set for it does, as a reader sees them: the length they give is the one of the body
that was set last, and they speak of a close just if the connection is closed. -/
theorem coherent_made_iff (status : Status) (steps : List Step)
    (h : ∀ step ∈ steps, ∀ text ∈ step.texts, ¬ ['\r', '\n'] <:+: text) :
    Coherent (made status steps).toBytes (made status steps).keepAlive ↔
      ∀ name value : Text, Step.header name value ∈ steps →
        Truthful (bodyOf steps) (keepAliveOf steps) (Headers.shown (name, value)) := by
  rw [coherent_toBytes_iff (unbroken_made status h), toList_sent, made_eq]
  constructor
  · intro htruthful name value hstep
    have hfield : (name, value) ∈ fieldsOf steps := mem_fieldsOf_iff.mpr (.inl hstep)
    exact htruthful (name, value) (List.mem_append_left _ hfield)
  · intro htruthful field hfield
    rcases List.mem_append.mp hfield with hfield | hfield
    · rcases mem_fieldsOf_iff.mp hfield with hstep | ⟨c, -, -, rfl⟩
      · exact htruthful field.1 field.2 hstep
      · exact truthful_cookieField _ _ c
    · exact truthful_of_mem_added hfield

/-- A length in other letters and with blanks around it, a close beside the one that is added, and a
name with a colon that only begins like them; the body that counts is the last one. -/
theorem coherent_made_close :
    let steps := [.header "CONTENT-length".toList " 2\t".toList, .text "first".toList,
      .header "connection".toList "Close".toList, .connection false,
      .header "Connection-Note: close".toList "no".toList,
      .cookie (Cookie.new "sid".toList "x y".toList), .text "hi".toList]
    (∀ step ∈ steps, ∀ text ∈ step.texts, ¬ ['\r', '\n'] <:+: text) ∧
      Coherent (made .ok steps).toBytes (made .ok steps).keepAlive := by
  intro steps
  have htexts : ∀ step ∈ steps, ∀ text ∈ step.texts, ¬ ['\r', '\n'] <:+: text := by decide +kernel
  refine ⟨htexts, (coherent_made_iff .ok steps htexts).mpr ?_⟩
  have hall : ∀ field ∈ fieldsOf steps,
      Truthful (bodyOf steps) (keepAliveOf steps) (Headers.shown field) := by decide +kernel
  intro name value hstep
  exact hall (name, value) (mem_fieldsOf_iff.mpr (.inl hstep))

/-- A length and a close that were set are sent beside the added fields, which say otherwise. -/
theorem not_coherent_two_answers :
    let steps := [.header "Content-Length".toList "99".toList,
      .header "Connection".toList "close".toList, .text "hi".toList]
    let r := made .ok steps
    (∀ step ∈ steps, ∀ text ∈ step.texts, '\r' ∉ text ∧ '\n' ∉ text) ∧
      received? r.toBytes = some ⟨[("Content-Length".toList, "99".toList),
        ("Connection".toList, "close".toList),
        ("Content-Type".toList, "text/plain; charset=utf-8".toList),
        ("Connection".toList, "keep-alive".toList), ("Content-Length".toList, "2".toList)]⟩ ∧
      r.keepAlive = true ∧ ¬ Coherent r.toBytes r.keepAlive := by
  intro steps r
  have htexts : ∀ step ∈ steps, ∀ text ∈ step.texts, '\r' ∉ text ∧ '\n' ∉ text := by
    decide +kernel
  have hunbroken : r.sent.Unbroken := by
    refine unbroken_made .ok fun step hstep text htext hin => ?_
    exact (htexts step hstep text htext).1 (hin.subset (by simp))
  have hfalse : ¬ ∀ field ∈ r.sent.toList,
      Truthful r.body r.keepAlive (Headers.shown field) := by decide +kernel
  exact ⟨htexts, by decide +kernel, by decide, mt (coherent_toBytes_iff hunbroken).mp hfalse⟩

end HttpExchange.Response
