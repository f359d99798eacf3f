import HttpExchange.Proofs.Cookie.RoundTrip
import HttpExchange.Proofs.Headers.Lines

/-! # Cookies on a line

A header field has one line for a cookie. A cookie can be carried there and read back exactly when
it is canonical and none of its texts holds a line break: what is read of a line lies in the line,
and what is written of such a cookie breaks it nowhere. -/

namespace HttpExchange

namespace Text

theorem trim_infix_self (s : Text) : s.trim <:+: s :=
  (trimEnd_prefix_self s.trimStart).isInfix.trans (trimStart_suffix_self s).isInfix

theorem infix_of_mem_splitAll {mark : Char} {s part : Text} (h : part ∈ splitAll mark s) :
    part <:+: s := by
  simpa only [intercalate_splitAll] using infix_intercalate [mark] h

theorem infix_of_splitOnce? {mark : Char} {s front back : Text}
    (h : splitOnce? mark s = some (front, back)) : front <:+: s ∧ back <:+: s := by
  obtain ⟨rfl, -⟩ := splitOnce?_eq_some_iff.mp h
  exact ⟨(List.prefix_append _ _).isInfix, ((List.suffix_cons mark back).trans
    (List.suffix_append front _)).isInfix⟩

theorem not_crlf_infix_of_visible {s : Text} (h : ∀ c ∈ s, Visible c) :
    ¬ ['\r', '\n'] <:+: s := by
  intro hin
  exact absurd (h '\r' (hin.subset (by simp))) (by decide)

end Text

namespace Cookie

open Text

/-! ## What is read lies in the header -/

namespace Attribute

def text? : Attribute → Option Text
  | domain value | path value => some value
  | _ => none

theorem eq_of_ofPair? {name value text : Text} {a : Attribute} (h : ofPair? name value = some a)
    (htext : a.text? = some text) : text = value := by
  unfold ofPair? at h
  split_ifs at h
  all_goals simp only [Option.map_eq_some_iff, Option.some.injEq] at h
  · obtain ⟨_, -, rfl⟩ := h
    cases htext
  · obtain ⟨_, -, rfl⟩ := h
    cases htext
  · subst h
    exact (Option.some.inj htext).symm
  · subst h
    exact (Option.some.inj htext).symm
  all_goals
    subst h
    cases htext

theorem infix_of_parse? {part text : Text} {a : Attribute} (h : parse? part = some a)
    (htext : a.text? = some text) : text <:+: part := by
  unfold parse? at h
  split at h
  · rename_i name value hcut
    rw [eq_of_ofPair? h htext]
    exact (trim_infix_self value).trans
      ((infix_of_splitOnce? hcut).2.trans (trim_infix_self part))
  · rw [eq_of_ofPair? h htext]
    exact List.nil_infix

end Attribute

theorem infix_of_unquote? {s value : Text} {quoted : Bool} (h : unquote? s = some (value, quoted)) :
    value <:+: s := by
  unfold unquote? at h
  split at h
  · obtain ⟨⟨inner, trailing⟩, hcut, h⟩ := Option.bind_eq_some_iff.mp h
    obtain ⟨-, heq⟩ := Option.ite_none_right_eq_some.mp h
    obtain ⟨rfl, -⟩ := Prod.mk.inj (Option.some.inj heq)
    exact List.infix_cons (infix_of_splitOnce? hcut).1
  · obtain ⟨-, heq⟩ := Option.ite_none_right_eq_some.mp h
    obtain ⟨rfl, -⟩ := Prod.mk.inj (Option.some.inj heq)
    exact List.infix_refl _

theorem infix_of_parsePair? {s : Text} {c : Cookie} (h : parsePair? s = some c) :
    c.value <:+: s ∧ c.domain = none ∧ c.path = none := by
  obtain ⟨⟨name, value⟩, hcut, hread⟩ := Option.bind_eq_some_iff.mp h
  obtain ⟨-, hread⟩ := Option.ite_none_right_eq_some.mp hread
  obtain ⟨⟨inner, quoted⟩, hvalue, heq⟩ := Option.bind_eq_some_iff.mp hread
  obtain rfl := Option.some.inj heq
  exact ⟨(infix_of_unquote? hvalue).trans
    ((trim_infix_self value).trans (infix_of_splitOnce? hcut).2), rfl, rfl⟩

theorem mem_of_nonEmpty_getLast? {texts : List Text} {s : Text}
    (h : (texts.getLast?.map nonEmpty).getD none = some s) : s ∈ texts := by
  cases hlast : texts.getLast? with
  | none => simp [hlast] at h
  | some last =>
      rw [hlast] at h
      obtain ⟨-, heq⟩ := Option.ite_none_left_eq_some.mp h
      obtain rfl := Option.some.inj heq
      exact List.mem_of_getLast? hlast

/-- Value, domain and path of a cookie that was read are parts of the header. -/
theorem infix_of_parse? {now : Instant} {header : Text} {c : Cookie}
    (h : parse? now header = some c) :
    c.value <:+: header ∧ (∀ d ∈ c.domain, d <:+: header) ∧ ∀ p ∈ c.path, p <:+: header := by
  have hparts : ∀ part ∈ splitAll ';' header, part <:+: header := fun _ => infix_of_mem_splitAll
  unfold parse? at h
  split at h
  · exact absurd h nofun
  · rename_i pair parts hsplit
    rw [hsplit] at hparts
    obtain ⟨cookie, hpair, rfl⟩ := Option.map_eq_some_iff.mp h
    obtain ⟨hvalue, hdomain, hpath⟩ := infix_of_parsePair? hpair
    have hread : ∀ a ∈ parts.filterMap Attribute.parse?, ∀ text, a.text? = some text →
        text <:+: header := by
      intro a ha text htext
      obtain ⟨part, hpart, hparse⟩ := List.mem_filterMap.mp ha
      exact (Attribute.infix_of_parse? hparse htext).trans
        (hparts part (List.mem_cons_of_mem pair hpart))
    refine ⟨?_, ?_, ?_⟩
    · change (List.foldl Draft.apply _ _).cookie.value <:+: header
      rw [(pair_foldl _ _).2.1]
      exact hvalue.trans (hparts pair List.mem_cons_self)
    · intro d hd
      change (List.foldl Draft.apply _ _).cookie.domain = some d at hd
      rw [domain_foldl, hdomain] at hd
      obtain ⟨a, ha, hd⟩ := List.mem_filterMap.mp (mem_of_nonEmpty_getLast? hd)
      cases a <;> first | exact hread _ ha d hd | cases hd
    · intro p hp
      change (List.foldl Draft.apply _ _).cookie.path = some p at hp
      rw [path_foldl, hpath] at hp
      obtain ⟨a, ha, hp⟩ := List.mem_filterMap.mp (mem_of_nonEmpty_getLast? hp)
      cases a <;> first | exact hread _ ha p hp | cases hp

/-! ## What is written stays on its line -/

/-- A line of a header can carry the cookie: nothing in it is cut or trimmed when it is read, and
no text of it breaks the line. -/
structure Portable (c : Cookie) : Prop extends c.Canonical where
  value_line : ¬ ['\r', '\n'] <:+: c.value
  domain_line : ∀ d ∈ c.domain, ¬ ['\r', '\n'] <:+: d
  path_line : ∀ p ∈ c.path, ¬ ['\r', '\n'] <:+: p

theorem portable_of_parse? {now : Instant} {line : Text} {c : Cookie}
    (hline : ¬ ['\r', '\n'] <:+: line) (h : parse? now line = some c) : c.Portable := by
  obtain ⟨hvalue, hdomain, hpath⟩ := infix_of_parse? h
  exact ⟨canonical_of_parse? h, fun hin => hline (hin.trans hvalue),
    fun d hd hin => hline (hin.trans (hdomain d hd)), fun p hp hin => hline (hin.trans (hpath p hp))⟩

/-- The texts of a cookie, which are written as they are. -/
def texts (c : Cookie) : List Text := c.name :: c.value :: (c.domain.toList ++ c.path.toList)

theorem Portable.not_infix_of_mem_texts {c : Cookie} (h : c.Portable) :
    ∀ text ∈ c.texts, ¬ ['\r', '\n'] <:+: text := by
  have hname : ¬ ['\r', '\n'] <:+: c.name :=
    not_crlf_infix_of_visible fun d hd => visible_of_isTokenChar (List.all_eq_true.mp h.name d hd)
  intro text htext
  simp only [texts, List.mem_cons, List.mem_append, Option.mem_toList] at htext
  rcases htext with rfl | rfl | hd | hp
  · exact hname
  · exact h.value_line
  · exact h.domain_line text hd
  · exact h.path_line text hp

theorem not_infix_renderValue {c : Cookie} (h : ¬ ['\r', '\n'] <:+: c.value) :
    ¬ ['\r', '\n'] <:+: c.renderValue := by
  unfold renderValue
  split
  · have hquoted : ¬ ['\r', '\n'] <:+: c.value ++ '"' :: [] :=
      not_infix_append_cons (by decide) h (by simp)
    exact not_infix_cons (by decide) hquoted
  · exact h

theorem not_infix_of_mem_attributes {c : Cookie} (h : ∀ text ∈ c.texts, ¬ ['\r', '\n'] <:+: text) :
    ∀ a ∈ c.attributes, ¬ ['\r', '\n'] <:+: a := by
  have named : ∀ name value : Text, '\r' ∉ name → ¬ ['\r', '\n'] <:+: value →
      ¬ ['\r', '\n'] <:+: name ++ '=' :: value := by
    intro name value hname hvalue
    exact not_infix_append_cons (by decide) (fun hin => hname (hin.subset (by simp))) hvalue
  intro a ha
  simp only [attributes, List.mem_append, Option.mem_toList, Option.map_eq_some_iff,
    List.mem_ite_nil_right, List.mem_singleton] at ha
  rcases ha with ((((⟨p, hp, rfl⟩ | ⟨d, hd, rfl⟩) | ⟨n, -, rfl⟩) | ⟨-, rfl⟩) | ⟨-, rfl⟩) |
    ⟨rule, -, rfl⟩
  · exact named "Path".toList p (by decide) (h p (by simp [texts, hp]))
  · exact named "Domain".toList d (by decide) (h d (by simp [texts, hd]))
  · exact named "Max-Age".toList _ (by decide)
      (not_crlf_infix_of_visible fun _ => visible_of_mem_ofInt)
  · decide
  · decide
  · cases rule <;> decide

/-- A cookie breaks its line nowhere if none of its texts does. -/
theorem not_infix_render {c : Cookie} (h : ∀ text ∈ c.texts, ¬ ['\r', '\n'] <:+: text) :
    ¬ ['\r', '\n'] <:+: c.render := by
  have hname : ¬ ['\r', '\n'] <:+: c.name := h c.name (by simp [texts])
  have hvalue := not_infix_renderValue (h c.value (by simp [texts]))
  have hpair := not_infix_append_cons (c := '=') (by decide) hname hvalue
  have hparts : ∀ part ∈ c.attributes.map (' ' :: ·), ¬ ['\r', '\n'] <:+: part := by
    intro part hpart
    obtain ⟨a, ha, rfl⟩ := List.mem_map.mp hpart
    exact not_infix_cons (by decide) (not_infix_of_mem_attributes h a ha)
  have hrender := not_infix_append_flatMap (by decide : ';' ∉ ['\r', '\n']) hpair hparts
  rwa [List.flatMap_map] at hrender

theorem isBlank_head?_render {c : Cookie} (h : c.name.all isTokenChar = true) :
    ∀ d ∈ c.render.head?, isBlank d = false := by
  intro d hd
  cases hname : c.name with
  | nil =>
      obtain rfl : '=' = d := by simpa [render, hname] using hd
      decide
  | cons first rest =>
      obtain rfl : first = d := by simpa [render, hname] using hd
      exact (visible_of_isTokenChar (List.all_eq_true.mp h first (by simp [hname]))).isBlank

end Cookie

end HttpExchange
