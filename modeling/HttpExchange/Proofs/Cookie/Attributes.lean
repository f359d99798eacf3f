import HttpExchange.Cookie.Parse
import HttpExchange.Proofs.Lists
import HttpExchange.Proofs.Text.Trim

/-! # Attributes of a cookie

Of the attributes of one kind the last one counts, whatever stands between them, and the attributes
that a cookie is written with are read back. -/

namespace HttpExchange.Cookie

namespace Attribute

def expires? : Attribute → Option Instant
  | expires date => some date
  | _ => none

def maxAge? : Attribute → Option Int64
  | maxAge seconds => some seconds
  | _ => none

def domain? : Attribute → Option Text
  | domain value => some value
  | _ => none

def path? : Attribute → Option Text
  | path value => some value
  | _ => none

def sameSite? : Attribute → Option SameSite
  | sameSite rule => some rule
  | _ => none

end Attribute

/-! ## The last of a kind -/

variable (attributes : List Attribute) (d : Draft)

theorem domain_foldl : (attributes.foldl Draft.apply d).cookie.domain =
    ((attributes.filterMap Attribute.domain?).getLast?.map nonEmpty).getD d.cookie.domain :=
  foldl_eq_getLast? (·.cookie.domain) Attribute.domain? nonEmpty
    (fun _ a => by cases a <;> rfl) attributes d

theorem path_foldl : (attributes.foldl Draft.apply d).cookie.path =
    ((attributes.filterMap Attribute.path?).getLast?.map nonEmpty).getD d.cookie.path :=
  foldl_eq_getLast? (·.cookie.path) Attribute.path? nonEmpty
    (fun _ a => by cases a <;> rfl) attributes d

theorem sameSite_foldl : (attributes.foldl Draft.apply d).cookie.sameSite =
    ((attributes.filterMap Attribute.sameSite?).getLast?.map some).getD d.cookie.sameSite :=
  foldl_eq_getLast? (·.cookie.sameSite) Attribute.sameSite? some
    (fun _ a => by cases a <;> rfl) attributes d

theorem maxAge_foldl : (attributes.foldl Draft.apply d).maxAge =
    ((attributes.filterMap Attribute.maxAge?).getLast?.map some).getD d.maxAge :=
  foldl_eq_getLast? (·.maxAge) Attribute.maxAge? some
    (fun _ a => by cases a <;> rfl) attributes d

theorem expires_foldl : (attributes.foldl Draft.apply d).expires =
    ((attributes.filterMap Attribute.expires?).getLast?.map some).getD d.expires :=
  foldl_eq_getLast? (·.expires) Attribute.expires? some
    (fun _ a => by cases a <;> rfl) attributes d

theorem secure_foldl : (attributes.foldl Draft.apply d).cookie.secure =
    (d.cookie.secure || attributes.contains .secure) := by
  induction attributes generalizing d with
  | nil => simp
  | cons a attributes ih =>
      rw [List.foldl_cons, ih]
      cases a <;> simp [Draft.apply, withDomain, withPath, withSecure, withHttpOnly, withSameSite]

theorem httpOnly_foldl : (attributes.foldl Draft.apply d).cookie.httpOnly =
    (d.cookie.httpOnly || attributes.contains .httpOnly) := by
  induction attributes generalizing d with
  | nil => simp
  | cons a attributes ih =>
      rw [List.foldl_cons, ih]
      cases a <;> simp [Draft.apply, withDomain, withPath, withSecure, withHttpOnly, withSameSite]

/-- No attribute changes the pair. -/
theorem pair_foldl : (attributes.foldl Draft.apply d).cookie.name = d.cookie.name ∧
    (attributes.foldl Draft.apply d).cookie.value = d.cookie.value ∧
    (attributes.foldl Draft.apply d).cookie.wrapped = d.cookie.wrapped := by
  induction attributes generalizing d with
  | nil => exact ⟨rfl, rfl, rfl⟩
  | cons a attributes ih =>
      rw [List.foldl_cons]
      have hpair : (d.apply a).cookie.name = d.cookie.name ∧
          (d.apply a).cookie.value = d.cookie.value ∧
          (d.apply a).cookie.wrapped = d.cookie.wrapped := by
        cases a <;> exact ⟨rfl, rfl, rfl⟩
      obtain ⟨hname, hvalue, hwrapped⟩ := ih (d.apply a)
      exact ⟨hname.trans hpair.1, hvalue.trans hpair.2.1, hwrapped.trans hpair.2.2⟩

/-! ## The attributes that are written -/

/-- The attributes that a cookie is written with. -/
def shown (c : Cookie) : List Attribute :=
  (c.path.map Attribute.path).toList ++
  (c.domain.map Attribute.domain).toList ++
  (c.maxAge.map Attribute.maxAge).toList ++
  (if c.secure then [.secure] else []) ++
  (if c.httpOnly then [.httpOnly] else []) ++
  (c.sameSite.map Attribute.sameSite).toList

theorem filterMap_shown {β : Type} (c : Cookie) {f : Attribute → Option β}
    (hsecure : f .secure = none) (hhttpOnly : f .httpOnly = none) :
    c.shown.filterMap f =
      (c.path.bind (f ∘ .path)).toList ++ (c.domain.bind (f ∘ .domain)).toList ++
      (c.maxAge.bind (f ∘ .maxAge)).toList ++ (c.sameSite.bind (f ∘ .sameSite)).toList := by
  simp only [shown, List.filterMap_append, filterMap_toList, Option.bind_map]
  cases c.secure <;> cases c.httpOnly <;> simp [hsecure, hhttpOnly]

theorem contains_secure_shown (c : Cookie) : c.shown.contains .secure = c.secure := by
  rw [Bool.eq_iff_iff, List.contains_iff_mem]
  cases h : c.secure <;> cases c.httpOnly <;> simp [shown, h]

theorem contains_httpOnly_shown (c : Cookie) : c.shown.contains .httpOnly = c.httpOnly := by
  rw [Bool.eq_iff_iff, List.contains_iff_mem]
  cases c.secure <;> cases h : c.httpOnly <;> simp [shown, h]

attribute [ext] Cookie

theorem getD_map_nonEmpty {o : Option Text} (h : o ≠ some []) :
    (o.map nonEmpty).getD none = o := by
  cases o with
  | none => rfl
  | some s =>
      have hs : s ≠ [] := fun heq => h (congrArg some heq)
      simp [nonEmpty, hs]

/-- What is known of a cookie behind its pair. -/
def bare (c : Cookie) : Draft := ⟨(new c.name c.value).withWrapped c.wrapped, none, none⟩

/-- A cookie is made of its pair and the attributes it is written with, at any time. -/
theorem finish_foldl_shown (c : Cookie) (now : Instant) :
    (c.shown.foldl Draft.apply c.bare).finish now = c := by
  obtain ⟨hname, hvalue, hwrapped⟩ := pair_foldl c.shown c.bare
  ext1
  · exact hname
  · exact hvalue
  · change (c.shown.foldl Draft.apply c.bare).cookie.domain = c.domain
    rw [domain_foldl, filterMap_shown c rfl rfl]
    simpa [Function.comp_def, Attribute.domain?, getLast?_toList, bare, new, withWrapped] using
      getD_map_nonEmpty c.domain_ne
  · change (c.shown.foldl Draft.apply c.bare).cookie.path = c.path
    rw [path_foldl, filterMap_shown c rfl rfl]
    simpa [Function.comp_def, Attribute.path?, getLast?_toList, bare, new, withWrapped] using
      getD_map_nonEmpty c.path_ne
  · change (c.shown.foldl Draft.apply c.bare).maxAge.or
      ((c.shown.foldl Draft.apply c.bare).expires.map _) = c.maxAge
    rw [maxAge_foldl, expires_foldl, filterMap_shown c rfl rfl, filterMap_shown c rfl rfl]
    simp [Function.comp_def, Attribute.maxAge?, Attribute.expires?, getLast?_toList, bare,
      getD_map_some]
  · change (c.shown.foldl Draft.apply c.bare).cookie.secure = c.secure
    rw [secure_foldl, contains_secure_shown]
    simp [bare, new, withWrapped]
  · change (c.shown.foldl Draft.apply c.bare).cookie.httpOnly = c.httpOnly
    rw [httpOnly_foldl, contains_httpOnly_shown]
    simp [bare, new, withWrapped]
  · change (c.shown.foldl Draft.apply c.bare).cookie.sameSite = c.sameSite
    rw [sameSite_foldl, filterMap_shown c rfl rfl]
    simp [Function.comp_def, Attribute.sameSite?, getLast?_toList, bare, new, withWrapped,
      getD_map_some]
  · refine hwrapped.trans ?_
    change (c.wrapped || needsQuotes c.value) = c.wrapped
    have := c.wrapped_of_needsQuotes
    cases hw : c.wrapped <;> simp_all

/-! ## Reading what was written -/

/-- A part with a value, behind the blank that is written before it. -/
theorem parse?_named {name value : Text} (hname : name.trim = name) (hmark : '=' ∉ name)
    (hvalue : value.trim = value) :
    Attribute.parse? (' ' :: (name ++ '=' :: value)) = Attribute.ofPair? name value := by
  have htrim : Text.trim (' ' :: (name ++ '=' :: value)) = name ++ '=' :: value := by
    rw [Text.trim_cons_of_isBlank (by decide), Text.trim_append_cons hname (by decide) hvalue]
  have hsplit : Text.splitOnce? '=' (name ++ '=' :: value) = some (name, value) :=
    Text.splitOnce?_eq_some_iff.mpr ⟨rfl, hmark⟩
  simp only [Attribute.parse?, htrim, hsplit, hname, hvalue]

theorem parse?_path {value : Text} (h : value.trim = value) :
    Attribute.parse? (' ' :: ("Path=".toList ++ value)) = some (.path value) :=
  (parse?_named (by decide : Text.trim "Path".toList = _) (by decide) h).trans (by rfl)

theorem parse?_domain {value : Text} (h : value.trim = value) :
    Attribute.parse? (' ' :: ("Domain=".toList ++ value)) = some (.domain value) :=
  (parse?_named (by decide : Text.trim "Domain".toList = _) (by decide) h).trans (by rfl)

theorem eq_minus_or_isDigit_of_mem_ofInt {z : Int} {c : Char} (h : c ∈ Numeral.ofInt z) :
    c = '-' ∨ c.isDigit = true := by
  rw [Numeral.ofInt] at h
  split at h
  · exact (List.mem_cons.mp h).imp_right Numeral.isDigit_of_mem_ofNat
  · exact .inr (Numeral.isDigit_of_mem_ofNat h)

theorem visible_of_mem_ofInt {z : Int} {c : Char} (h : c ∈ Numeral.ofInt z) : Text.Visible c := by
  rcases eq_minus_or_isDigit_of_mem_ofInt h with rfl | h
  · decide
  · apply Text.visible_of_isAlphanum
    rw [Char.isAlphanum, h, Bool.or_true]

theorem parse?_maxAge (n : Int64) :
    Attribute.parse? (' ' :: ("Max-Age=".toList ++ Numeral.ofInt n.toInt)) = some (.maxAge n) := by
  have htrim : (Numeral.ofInt n.toInt).trim = Numeral.ofInt n.toInt :=
    Text.trim_eq_self_of_visible fun _ => visible_of_mem_ofInt
  refine (parse?_named (by decide : Text.trim "Max-Age".toList = _) (by decide) htrim).trans ?_
  change (Numeral.signed? _).map Attribute.maxAge = _
  rw [Numeral.signed?_ofInt]
  rfl

theorem parse?_sameSite (rule : SameSite) :
    Attribute.parse? (' ' :: ("SameSite=".toList ++ rule.name)) = some (.sameSite rule) := by
  cases rule <;> rfl

theorem filterMap_written {α : Type} (o : Option α) {write : α → Text} {read : α → Attribute}
    (h : ∀ a ∈ o, Attribute.parse? (' ' :: write a) = some (read a)) :
    ((o.map write).toList.map (' ' :: ·)).filterMap Attribute.parse? = (o.map read).toList := by
  cases o with
  | none => rfl
  | some a => simp [h a rfl]

/-- The attributes that a cookie is written with are read back. -/
theorem filterMap_parse?_attributes {c : Cookie} (hpath : ∀ p ∈ c.path, Text.trim p = p)
    (hdomain : ∀ d ∈ c.domain, Text.trim d = d) :
    (c.attributes.map (' ' :: ·)).filterMap Attribute.parse? = c.shown := by
  have hsecure : ((if c.secure then ["Secure".toList] else []).map (' ' :: ·)).filterMap
      Attribute.parse? = if c.secure then [.secure] else [] := by
    cases c.secure <;> rfl
  have hhttpOnly : ((if c.httpOnly then ["HttpOnly".toList] else []).map (' ' :: ·)).filterMap
      Attribute.parse? = if c.httpOnly then [.httpOnly] else [] := by
    cases c.httpOnly <;> rfl
  simp only [attributes, shown, List.map_append, List.filterMap_append, hsecure, hhttpOnly,
    filterMap_written c.path fun p hp => parse?_path (hpath p hp),
    filterMap_written c.domain fun d hd => parse?_domain (hdomain d hd),
    filterMap_written c.maxAge fun n _ => parse?_maxAge n,
    filterMap_written c.sameSite fun rule _ => parse?_sameSite rule]

end HttpExchange.Cookie
