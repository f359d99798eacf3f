import HttpExchange.Proofs.Cookie.Attributes

/-! # Cookies that are read back as they were written

The pair ends at the first semicolon, its name at the first equals sign and a value in quotes at
the second quote, and blanks around a part are lost. A cookie is read back as it was written
exactly when none of its texts holds what would cut it short, and what any header is read as is
such a cookie. -/

namespace HttpExchange.Cookie

open Text

/-! ## Characters of names and values -/

theorem visible_of_isTokenChar {c : Char} (h : isTokenChar c = true) : Visible c := by
  simp only [isTokenChar, Bool.or_eq_true, List.contains_iff_mem] at h
  rcases h with h | h
  · exact visible_of_isAlphanum h
  · have hall : ("!#$%&'*+-.^_`|~".toList.all fun c => decide (Visible c)) = true := by decide
    exact of_decide_eq_true (List.all_eq_true.mp hall c h)

theorem visible_of_isValueChar {c : Char} (h : isValueChar c = true) : Visible c := by
  simp only [isValueChar, Bool.or_eq_true, Bool.and_eq_true, decide_eq_true_eq, beq_iff_eq] at h
  unfold Visible
  omega

theorem trim_eq_self_of_all_isTokenChar {s : Text} (h : s.all isTokenChar = true) : s.trim = s :=
  trim_eq_self_of_visible fun c hc => visible_of_isTokenChar (List.all_eq_true.mp h c hc)

theorem trim_eq_self_of_all_isValueChar {s : Text} (h : s.all isValueChar = true) : s.trim = s :=
  trim_eq_self_of_visible fun c hc => visible_of_isValueChar (List.all_eq_true.mp h c hc)

theorem not_mem_of_all {p : Char → Bool} {s : Text} {c : Char} (h : s.all p = true)
    (hc : p c = false) : c ∉ s := by
  intro hmem
  have := List.all_eq_true.mp h c hmem
  simp [hc] at this

/-! ## Canonical cookies -/

/-- Nothing in the cookie is cut or trimmed when it is read. -/
structure Canonical (c : Cookie) : Prop where
  name : c.name.all isTokenChar = true
  value : '"' ∉ c.value ∧ ';' ∉ c.value
  domain : ∀ d ∈ c.domain, ';' ∉ d ∧ Text.trim d = d
  path : ∀ p ∈ c.path, ';' ∉ p ∧ Text.trim p = p

/-! ## What is read is canonical -/

theorem of_unquote?_eq_some {s value : Text} {quoted : Bool}
    (h : unquote? s = some (value, quoted)) : '"' ∉ value ∧ ∀ c ∈ value, c ∈ s := by
  unfold unquote? at h
  split at h
  · obtain ⟨⟨inner, trailing⟩, hcut, h⟩ := Option.bind_eq_some_iff.mp h
    obtain ⟨hrest, hfree⟩ := splitOnce?_eq_some_iff.mp hcut
    obtain ⟨-, heq⟩ := Option.ite_none_right_eq_some.mp h
    obtain ⟨rfl, -⟩ := Prod.mk.inj (Option.some.inj heq)
    refine ⟨hfree, ?_⟩
    intro c hc
    simp [hrest, hc]
  · obtain ⟨hall, heq⟩ := Option.ite_none_right_eq_some.mp h
    obtain ⟨rfl, -⟩ := Prod.mk.inj (Option.some.inj heq)
    exact ⟨not_mem_of_all hall rfl, fun _ hc => hc⟩

theorem canonical_of_parsePair? {s : Text} {c : Cookie} (hs : ';' ∉ s)
    (h : parsePair? s = some c) : c.Canonical := by
  obtain ⟨⟨name, value⟩, hcut, hread⟩ := Option.bind_eq_some_iff.mp h
  obtain ⟨rfl, -⟩ := splitOnce?_eq_some_iff.mp hcut
  obtain ⟨hname, hread⟩ := Option.ite_none_right_eq_some.mp hread
  obtain ⟨⟨inner, quoted⟩, hvalue, heq⟩ := Option.bind_eq_some_iff.mp hread
  obtain ⟨hquote, hinner⟩ := of_unquote?_eq_some hvalue
  obtain rfl := Option.some.inj heq
  refine ⟨hname, ⟨hquote, ?_⟩, nofun, nofun⟩
  intro hmem
  apply hs
  simp [mem_of_mem_trim (hinner _ hmem)]

/-- What an attribute puts into a cookie is neither cut nor trimmed. -/
def Attribute.Canonical : Attribute → Prop
  | domain value | path value => ';' ∉ value ∧ Text.trim value = value
  | _ => True

theorem Attribute.canonical_of_ofPair? {name value : Text} {a : Attribute} (hmark : ';' ∉ value)
    (htrim : value.trim = value) (h : ofPair? name value = some a) : a.Canonical := by
  unfold ofPair? at h
  split_ifs at h
  all_goals simp only [Option.map_eq_some_iff, Option.some.injEq] at h
  · obtain ⟨_, -, rfl⟩ := h
    trivial
  · obtain ⟨_, -, rfl⟩ := h
    trivial
  · exact h ▸ ⟨hmark, htrim⟩
  · exact h ▸ ⟨hmark, htrim⟩
  all_goals exact h ▸ trivial

theorem Attribute.canonical_of_parse? {part : Text} {a : Attribute} (hmark : ';' ∉ part)
    (h : parse? part = some a) : a.Canonical := by
  unfold parse? at h
  split at h
  · rename_i name value hcut
    refine canonical_of_ofPair? ?_ (trim_trim value) h
    intro hmem
    apply hmark
    apply mem_of_mem_trim
    rw [(splitOnce?_eq_some_iff.mp hcut).1]
    simp [mem_of_mem_trim hmem]
  · exact canonical_of_ofPair? List.not_mem_nil rfl h

theorem Canonical.apply {d : Draft} {a : Attribute} (hd : d.cookie.Canonical)
    (ha : a.Canonical) : (d.apply a).cookie.Canonical := by
  have put {s : Text} (hs : ';' ∉ s ∧ s.trim = s) :
      ∀ t ∈ nonEmpty s, ';' ∉ t ∧ Text.trim t = t := by
    intro t ht
    obtain ⟨-, heq⟩ := Option.ite_none_left_eq_some.mp ht
    exact Option.some.inj heq ▸ hs
  cases a with
  | domain value => exact { hd with domain := put ha }
  | path value => exact { hd with path := put ha }
  | _ => exact { hd with }

theorem Canonical.foldl {d : Draft} {attributes : List Attribute} (hd : d.cookie.Canonical)
    (h : ∀ a ∈ attributes, a.Canonical) : (attributes.foldl Draft.apply d).cookie.Canonical := by
  induction attributes generalizing d with
  | nil => exact hd
  | cons a attributes ih =>
      exact ih (hd.apply (h a List.mem_cons_self)) fun b hb => h b (List.mem_cons_of_mem a hb)

/-- Whatever a header holds, the cookie that it is read as is canonical. -/
theorem canonical_of_parse? {now : Instant} {header : Text} {c : Cookie}
    (h : parse? now header = some c) : c.Canonical := by
  have hfree : ∀ part ∈ splitAll ';' header, ';' ∉ part := fun _ => not_mem_of_mem_splitAll
  unfold parse? at h
  split at h
  · exact absurd h nofun
  · rename_i pair parts hparts
    rw [hparts] at hfree
    obtain ⟨cookie, hpair, rfl⟩ := Option.map_eq_some_iff.mp h
    have hcookie := canonical_of_parsePair? (hfree pair List.mem_cons_self) hpair
    have hall : ∀ a ∈ parts.filterMap Attribute.parse?, a.Canonical := by
      intro a ha
      obtain ⟨part, hpart, hread⟩ := List.mem_filterMap.mp ha
      exact Attribute.canonical_of_parse? (hfree part (List.mem_cons_of_mem pair hpart)) hread
    -- the lifetime is no text
    exact { Canonical.foldl (d := ⟨cookie, none, none⟩) hcookie hall with }

/-! ## What is written is read back -/

theorem splitAll_append_flatMap {mark : Char} {front : Text} {parts : List Text}
    (hfront : mark ∉ front) (hparts : ∀ part ∈ parts, mark ∉ part) :
    splitAll mark (front ++ parts.flatMap (mark :: ·)) = front :: parts := by
  have free {part : Text} (h : mark ∉ part) : ∀ c ∈ part, (c == mark) = false := by
    intro c hc
    simpa using fun heq : c = mark => h (heq ▸ hc)
  induction parts generalizing front with
  | nil =>
      rw [List.flatMap_nil, List.append_nil]
      exact splitWhere_of_forall (free hfront)
  | cons part parts ih =>
      have hpart := hparts part List.mem_cons_self
      have hrest := ih hpart fun p hp => hparts p (List.mem_cons_of_mem part hp)
      rw [List.flatMap_cons, List.cons_append, splitAll,
        splitWhere_append_cons _ (free hfront) (by simp)]
      exact congrArg (front :: ·) hrest

theorem all_isValueChar_of_not_wrapped {c : Cookie} (h : ¬ c.wrapped = true) :
    c.value.all isValueChar = true := by
  simpa [needsQuotes] using mt c.wrapped_of_needsQuotes h

theorem renderValue_trim (c : Cookie) : c.renderValue.trim = c.renderValue := by
  unfold renderValue
  split
  · rw [trim_eq_self_iff]
    have hquote : ∀ d ∈ some '"', isBlank d = false := by
      intro d hd
      obtain rfl := Option.some.inj hd
      decide
    refine ⟨hquote, ?_⟩
    rwa [List.getLast?_concat]
  · rename_i h
    exact trim_eq_self_of_all_isValueChar (all_isValueChar_of_not_wrapped h)

theorem unquote?_renderValue {c : Cookie} (h : '"' ∉ c.value) :
    unquote? c.renderValue = some (c.value, c.wrapped) := by
  unfold renderValue
  split
  · rename_i hw
    have hcut : splitOnce? '"' (c.value ++ ['"']) = some (c.value, []) :=
      splitOnce?_eq_some_iff.mpr ⟨rfl, h⟩
    change (splitOnce? '"' (c.value ++ ['"'])).bind _ = _
    rw [hcut, hw]
    rfl
  · rename_i hw
    unfold unquote?
    split
    · rename_i heq
      exact absurd (heq ▸ List.mem_cons_self) h
    · rw [if_pos (all_isValueChar_of_not_wrapped hw), Bool.eq_false_iff.mpr hw]

theorem parsePair?_written {c : Cookie} (h : c.Canonical) :
    parsePair? (c.name ++ '=' :: c.renderValue) = some c.bare.cookie := by
  have hmark : '=' ∉ c.name := not_mem_of_all h.name rfl
  have hcut : splitOnce? '=' (c.name ++ '=' :: c.renderValue) = some (c.name, c.renderValue) :=
    splitOnce?_eq_some_iff.mpr ⟨rfl, hmark⟩
  unfold parsePair?
  rw [hcut]
  simp only [Option.bind_eq_bind, Option.bind_some, trim_eq_self_of_all_isTokenChar h.name,
    h.name, if_true, renderValue_trim, unquote?_renderValue h.value.1]
  rfl

theorem not_mem_of_mem_attributes {c : Cookie} (hdomain : ∀ d ∈ c.domain, ';' ∉ d)
    (hpath : ∀ p ∈ c.path, ';' ∉ p) : ∀ a ∈ c.attributes, ';' ∉ a := by
  intro a ha
  simp only [attributes, List.mem_append, Option.mem_toList, Option.map_eq_some_iff,
    List.mem_ite_nil_right, List.mem_singleton] at ha
  rcases ha with ((((⟨p, hp, rfl⟩ | ⟨d, hd, rfl⟩) | ⟨n, -, rfl⟩) | ⟨-, rfl⟩) | ⟨-, rfl⟩) |
    ⟨rule, -, rfl⟩
  · simpa using hpath p hp
  · simpa using hdomain d hd
  · have hdigits : ';' ∉ Numeral.ofInt n.toInt := by
      intro hmem
      rcases eq_minus_or_isDigit_of_mem_ofInt hmem with h | h
      · exact absurd h (by decide)
      · exact absurd h (by decide)
    simpa using hdigits
  · decide
  · decide
  · cases rule <;> decide

theorem parse?_render {c : Cookie} (h : c.Canonical) (now : Instant) :
    parse? now c.render = some c := by
  have hpair : ';' ∉ c.name ++ '=' :: c.renderValue := by
    have hname : ';' ∉ c.name := not_mem_of_all h.name rfl
    have hvalue : ';' ∉ c.renderValue := by
      unfold renderValue
      split <;> simp [h.value.2]
    simp [hname, hvalue]
  have hparts : ∀ part ∈ c.attributes.map (' ' :: ·), ';' ∉ part := by
    intro part hpart
    obtain ⟨a, ha, rfl⟩ := List.mem_map.mp hpart
    have hfree := not_mem_of_mem_attributes (fun d hd => (h.domain d hd).1)
      (fun p hp => (h.path p hp).1) a ha
    simp [hfree]
  have hsplit : splitAll ';' c.render =
      (c.name ++ '=' :: c.renderValue) :: c.attributes.map (' ' :: ·) := by
    rw [← splitAll_append_flatMap hpair hparts, List.flatMap_map]
    rfl
  unfold parse?
  rw [hsplit]
  simp only [parsePair?_written h, Option.map_some,
    filterMap_parse?_attributes (fun p hp => (h.path p hp).2) fun d hd => (h.domain d hd).2]
  exact congrArg some (finish_foldl_shown c now)

/-- A cookie is read back as it was written exactly if it is canonical, at any time. -/
theorem parse?_render_iff (c : Cookie) (now : Instant) :
    parse? now c.render = some c ↔
      c.name.all isTokenChar = true ∧ '"' ∉ c.value ∧ ';' ∉ c.value ∧
      (∀ d ∈ c.domain, ';' ∉ d ∧ Text.trim d = d) ∧ ∀ p ∈ c.path, ';' ∉ p ∧ Text.trim p = p := by
  constructor
  · intro h
    obtain ⟨hname, hvalue, hdomain, hpath⟩ := canonical_of_parse? h
    exact ⟨hname, hvalue.1, hvalue.2, hdomain, hpath⟩
  · rintro ⟨hname, hquote, hmark, hdomain, hpath⟩
    exact parse?_render ⟨hname, ⟨hquote, hmark⟩, hdomain, hpath⟩ now

end HttpExchange.Cookie
