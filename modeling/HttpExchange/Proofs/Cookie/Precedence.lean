import HttpExchange.Proofs.Cookie.Pair
import Mathlib.Data.List.FinRange
import Mathlib.Data.List.Sort
import Mathlib.Data.List.TakeWhile

/-! # Precedence among attributes

Of the parts of a header with one name the last valid one counts. Parts with different names do not
touch each other, so that their order among each other does not matter, and parts that are empty or
have another name may come and go. -/

namespace HttpExchange.Cookie

open Text

/-- The name of a part, capitals made small. -/
def partName (part : Text) : Text := (nameText part.trim).lowercase

/-- The value of a part, empty without an equals sign. -/
def partValue (part : Text) : Text := valueText part.trim

/-- The values of the parts with a name, in their order. -/
def values (name : Text) (parts : List Text) : List Text :=
  (parts.filter fun part => partName part == name).map partValue

/-- The lifetimes in seconds that the parts tell. -/
def lifetimes (parts : List Text) : List Int64 :=
  (values "max-age".toList parts).filterMap Numeral.signed?

/-- The dates of expiry that the parts tell. -/
def expiries (parts : List Text) : List Instant :=
  (values "expires".toList parts).filterMap HttpDate.parse?

/-- The names of attributes. -/
def attributeNames : List Text :=
  ["expires".toList, "max-age".toList, "domain".toList, "path".toList, "secure".toList,
    "httponly".toList, "samesite".toList]

/-! ## What one part says -/

namespace Attribute

/-- The name that an attribute goes by. -/
def name : Attribute → Text
  | expires _ => "expires".toList
  | maxAge _ => "max-age".toList
  | domain _ => "domain".toList
  | path _ => "path".toList
  | secure => "secure".toList
  | httpOnly => "httponly".toList
  | sameSite _ => "samesite".toList

theorem ofPair?_congr {name other : Text} (h : name.lowercase = other.lowercase) (value : Text) :
    ofPair? name value = ofPair? other value := by
  unfold ofPair? sameLetters
  rw [h]

theorem name_of_ofPair? {name value : Text} {a : Attribute} (h : ofPair? name value = some a) :
    a.name = name.lowercase := by
  unfold ofPair? at h
  split_ifs at h with h₁ h₂ h₃ h₄ h₅ h₆ h₇
  all_goals simp only [Option.map_eq_some_iff, Option.some.injEq] at h
  · obtain ⟨_, -, rfl⟩ := h
    exact ((sameLetters_iff _ _).mp h₁).symm
  · obtain ⟨_, -, rfl⟩ := h
    exact ((sameLetters_iff _ _).mp h₂).symm
  · exact h ▸ ((sameLetters_iff _ _).mp h₃).symm
  · exact h ▸ ((sameLetters_iff _ _).mp h₄).symm
  · exact h ▸ ((sameLetters_iff _ _).mp h₅).symm
  · exact h ▸ ((sameLetters_iff _ _).mp h₆).symm
  · exact h ▸ ((sameLetters_iff _ _).mp h₇).symm

theorem parse?_eq_ofPair? (part : Text) :
    parse? part = ofPair? (nameText part.trim) (partValue part) := by
  unfold parse?
  by_cases hmark : '=' ∈ part.trim
  · rw [splitOnce?_of_mem hmark]
    rfl
  · have hall : ∀ c ∈ part.trim, (c != '=') = true := by
      intro c hc
      simpa using fun heq : c = '=' => hmark (heq ▸ hc)
    rw [splitOnce?_eq_none_iff.mpr hmark, nameText, partValue, valueText,
      List.takeWhile_eq_self_iff.mpr hall, List.dropWhile_eq_nil_iff.mpr hall, trim_trim]
    rfl

theorem name_of_parse? {part : Text} {a : Attribute} (h : parse? part = some a) :
    a.name = partName part :=
  name_of_ofPair? (parse?_eq_ofPair? part ▸ h)

theorem parse?_of_partName {part name : Text} (hname : name.lowercase = name)
    (h : partName part = name) : parse? part = ofPair? name (partValue part) := by
  rw [parse?_eq_ofPair?]
  exact ofPair?_congr (h.trans hname.symm) _

variable {β : Type} {name : Text} {kind : Attribute → Option β} {reader : Text → Option β}

/-- What a part says of one kind is what its value says, if it has the name of that kind. -/
theorem bind_parse? (hname : name.lowercase = name) (hkind : ∀ a, a.name ≠ name → kind a = none)
    (hreader : ∀ value, (ofPair? name value).bind kind = reader value) (part : Text) :
    (parse? part).bind kind = if partName part = name then reader (partValue part) else none := by
  split_ifs with h
  · rw [parse?_of_partName hname h, hreader]
  · cases hparse : parse? part with
    | none => rfl
    | some a => exact hkind a fun heq => h ((name_of_parse? hparse).symm.trans heq)

theorem filterMap_parse? (hname : name.lowercase = name)
    (hkind : ∀ a, a.name ≠ name → kind a = none)
    (hreader : ∀ value, (ofPair? name value).bind kind = reader value) (parts : List Text) :
    (parts.filterMap parse?).filterMap kind = (values name parts).filterMap reader := by
  rw [values, List.filterMap_filterMap, List.filterMap_map, List.filterMap_filter]
  congr 1
  funext part
  simpa using bind_parse? hname hkind hreader part

theorem filterMap_domain? (parts : List Text) :
    (parts.filterMap parse?).filterMap domain? = values "domain".toList parts := by
  have hkind : ∀ a : Attribute, a.name ≠ "domain".toList → a.domain? = none := by
    intro a ha
    cases a with
    | domain => exact absurd rfl ha
    | _ => rfl
  have hreader : ∀ value, (ofPair? "domain".toList value).bind domain? = some value := fun _ => rfl
  rw [filterMap_parse? rfl hkind hreader, List.filterMap_some]

theorem filterMap_path? (parts : List Text) :
    (parts.filterMap parse?).filterMap path? = values "path".toList parts := by
  have hkind : ∀ a : Attribute, a.name ≠ "path".toList → a.path? = none := by
    intro a ha
    cases a with
    | path => exact absurd rfl ha
    | _ => rfl
  have hreader : ∀ value, (ofPair? "path".toList value).bind path? = some value := fun _ => rfl
  rw [filterMap_parse? rfl hkind hreader, List.filterMap_some]

theorem filterMap_sameSite? (parts : List Text) :
    (parts.filterMap parse?).filterMap sameSite? =
      (values "samesite".toList parts).map SameSite.ofAttribute := by
  have hkind : ∀ a : Attribute, a.name ≠ "samesite".toList → a.sameSite? = none := by
    intro a ha
    cases a with
    | sameSite => exact absurd rfl ha
    | _ => rfl
  have hreader : ∀ value, (ofPair? "samesite".toList value).bind sameSite? =
      (some ∘ SameSite.ofAttribute) value := fun _ => rfl
  rw [filterMap_parse? rfl hkind hreader, List.filterMap_eq_map]

theorem filterMap_maxAge? (parts : List Text) :
    (parts.filterMap parse?).filterMap maxAge? = lifetimes parts := by
  have hkind : ∀ a : Attribute, a.name ≠ "max-age".toList → a.maxAge? = none := by
    intro a ha
    cases a with
    | maxAge => exact absurd rfl ha
    | _ => rfl
  apply filterMap_parse? rfl hkind
  intro value
  change ((Numeral.signed? value).map maxAge).bind maxAge? = _
  cases Numeral.signed? value <;> rfl

theorem filterMap_expires? (parts : List Text) :
    (parts.filterMap parse?).filterMap expires? = expiries parts := by
  have hkind : ∀ a : Attribute, a.name ≠ "expires".toList → a.expires? = none := by
    intro a ha
    cases a with
    | expires => exact absurd rfl ha
    | _ => rfl
  apply filterMap_parse? rfl hkind
  intro value
  change ((HttpDate.parse? value).map expires).bind expires? = _
  cases HttpDate.parse? value <;> rfl

/-- An attribute without a value is said by any part that has its name. -/
theorem mem_filterMap_parse?_iff {a : Attribute} (hname : a.name.lowercase = a.name)
    (hvalue : ∀ value, ofPair? a.name value = some a) (parts : List Text) :
    a ∈ parts.filterMap parse? ↔ ∃ part ∈ parts, partName part = a.name := by
  rw [List.mem_filterMap]
  refine exists_congr fun part => and_congr_right fun _ => ?_
  constructor
  · intro h
    exact (name_of_parse? h).symm
  · intro h
    rw [parse?_of_partName hname h, hvalue]

end Attribute

/-! ## What all parts say -/

/-- The attributes of a cookie are what the last valid part of each name says; a lifetime comes
before a date of expiry. -/
structure Attributed (now : Instant) (parts : List Text) (c : Cookie) : Prop where
  domain : c.domain = (values "domain".toList parts).getLast?.filter (· ≠ [])
  path : c.path = (values "path".toList parts).getLast?.filter (· ≠ [])
  secure : c.secure = true ↔ ∃ part ∈ parts, partName part = "secure".toList
  httpOnly : c.httpOnly = true ↔ ∃ part ∈ parts, partName part = "httponly".toList
  sameSite : c.sameSite = (values "samesite".toList parts).getLast?.map SameSite.ofAttribute
  maxAge : c.maxAge = (lifetimes parts).getLast?.or
    ((expiries parts).getLast?.map fun date => Int64.ofInt (date.secondsUntil now))

theorem getD_map_nonEmpty_none (o : Option Text) :
    (o.map nonEmpty).getD none = o.filter (· ≠ []) := by
  cases o with
  | none => rfl
  | some s => by_cases hs : s = [] <;> simp [nonEmpty, Option.filter, hs]

variable {now : Instant} {header other : Text} {c d : Cookie}

theorem attributed_finish (pair : Cookie) (hdomain : pair.domain = none) (hpath : pair.path = none)
    (hsecure : pair.secure = false) (hhttpOnly : pair.httpOnly = false)
    (hsameSite : pair.sameSite = none) (parts : List Text) :
    Attributed now parts
      (((parts.filterMap Attribute.parse?).foldl Draft.apply ⟨pair, none, none⟩).finish now) := by
  constructor
  · change (List.foldl Draft.apply _ _).cookie.domain = _
    rw [domain_foldl, Attribute.filterMap_domain?, hdomain, getD_map_nonEmpty_none]
  · change (List.foldl Draft.apply _ _).cookie.path = _
    rw [path_foldl, Attribute.filterMap_path?, hpath, getD_map_nonEmpty_none]
  · change (List.foldl Draft.apply _ _).cookie.secure = true ↔ _
    rw [secure_foldl, hsecure, Bool.false_or, List.contains_iff_mem]
    exact Attribute.mem_filterMap_parse?_iff rfl (fun _ => rfl) parts
  · change (List.foldl Draft.apply _ _).cookie.httpOnly = true ↔ _
    rw [httpOnly_foldl, hhttpOnly, Bool.false_or, List.contains_iff_mem]
    exact Attribute.mem_filterMap_parse?_iff rfl (fun _ => rfl) parts
  · change (List.foldl Draft.apply _ _).cookie.sameSite = _
    rw [sameSite_foldl, Attribute.filterMap_sameSite?, hsameSite, getD_map_some, List.getLast?_map]
  · change (List.foldl Draft.apply _ _).maxAge.or ((List.foldl Draft.apply _ _).expires.map _) = _
    rw [maxAge_foldl, expires_foldl, Attribute.filterMap_maxAge?, Attribute.filterMap_expires?,
      getD_map_some, getD_map_some]

theorem attributed_of_parse? (h : parse? now header = some c) :
    Attributed now (parts header) c := by
  rw [parse?_eq_map] at h
  obtain ⟨pair, hpair, rfl⟩ := Option.map_eq_some_iff.mp h
  obtain ⟨-, -, value, wrapped, -, rfl⟩ := parsePair?_eq_some_iff.mp hpair
  exact attributed_finish _ rfl rfl rfl rfl rfl (parts header)

theorem values_ne_nil_iff (name : Text) (parts : List Text) :
    values name parts ≠ [] ↔ ∃ part ∈ parts, partName part = name := by
  simp [values]

/-- Two cookies with one pair are equal if the parts with each name have the same values. -/
theorem Attributed.unique {as bs : List Text} (hc : Attributed now as c) (hd : Attributed now bs d)
    (htold : c.told = d.told) (hvalues : ∀ name ∈ attributeNames, values name as = values name bs) :
    c = d := by
  have hflag : ∀ name ∈ attributeNames,
      (∃ part ∈ as, partName part = name) ↔ ∃ part ∈ bs, partName part = name := by
    intro name hname
    rw [← values_ne_nil_iff, ← values_ne_nil_iff, hvalues name hname]
  simp only [told, Prod.mk.injEq] at htold
  obtain ⟨hname, hvalue, hwrapped⟩ := htold
  simp only [attributeNames, List.forall_mem_cons] at hvalues hflag
  ext1
  · exact hname
  · exact hvalue
  · rw [hc.domain, hd.domain, hvalues.2.2.1]
  · rw [hc.path, hd.path, hvalues.2.2.2.1]
  · rw [hc.maxAge, hd.maxAge, lifetimes, lifetimes, expiries, expiries, hvalues.1, hvalues.2.1]
  · rw [Bool.eq_iff_iff, hc.secure, hd.secure, hflag.2.2.2.2.1]
  · rw [Bool.eq_iff_iff, hc.httpOnly, hd.httpOnly, hflag.2.2.2.2.2.1]
  · rw [hc.sameSite, hd.sameSite, hvalues.2.2.2.2.2.2.1]
  · exact hwrapped

theorem parse?_of_values (h : parse? now header = some c) (hpair : pairText other = pairText header)
    (hvalues : ∀ name ∈ attributeNames, values name (parts header) = values name (parts other)) :
    parse? now other = some c := by
  have htold : (parse? now other).map told = some c.told := by
    rw [map_told_parse?, hpair, ← map_told_parse?, h, Option.map_some]
  obtain ⟨d, hd, heq⟩ := Option.map_eq_some_iff.mp htold
  rw [hd, (attributed_of_parse? h).unique (attributed_of_parse? hd) heq.symm hvalues]

/-! ## Parts in another order -/

/-- The second list has the parts of the first in another order, in which parts with one name keep
theirs. -/
def Reordered (as bs : List Text) : Prop :=
  ∃ σ : Equiv.Perm (Fin as.length), bs = List.ofFn (fun i => as.get (σ i)) ∧
    ∀ i j, i < j → partName (as.get (σ i)) = partName (as.get (σ j)) → σ i < σ j

/-- Parts change their places, but not among those with one name, and parts that are empty or have
another name come and go. -/
inductive Rearranged : List Text → List Text → Prop where
  | reorder {as bs : List Text} (h : Reordered as bs) : Rearranged as bs
  | insert {front back : List Text} {part : Text}
      (h : part.trim = [] ∨ partName part ∉ attributeNames) :
      Rearranged (front ++ back) (front ++ part :: back)
  | remove {front back : List Text} {part : Text}
      (h : part.trim = [] ∨ partName part ∉ attributeNames) :
      Rearranged (front ++ part :: back) (front ++ back)
  | trans {as bs cs : List Text} (h : Rearranged as bs) (h' : Rearranged bs cs) : Rearranged as cs

theorem Reordered.values_eq {as bs : List Text} (h : Reordered as bs) (name : Text) :
    values name as = values name bs := by
  obtain ⟨σ, rfl, hσ⟩ := h
  let named (i : Fin as.length) : Bool := partName (as.get i) == name
  -- in both orders the places of the parts with the name go up, and they are the same places
  let places := (List.finRange as.length).filter named
  let moved := ((List.finRange as.length).map σ).filter named
  have hup : places.Pairwise (· < ·) := (List.pairwise_lt_finRange as.length).filter named
  have hmoved : moved.Pairwise (· < ·) := by
    rw [List.pairwise_filter, List.pairwise_map]
    refine (List.pairwise_lt_finRange as.length).imp ?_
    intro i j hij hi hj
    exact hσ i j hij ((eq_of_beq hi).trans (eq_of_beq hj).symm)
  have hperm : places.Perm moved := (σ.map_finRange_perm.filter named).symm
  have heq : places = moved :=
    hperm.eq_of_pairwise (fun _ _ _ _ hij hji => absurd hji (lt_asymm hij)) hup hmoved
  calc values name as
      = values name ((List.finRange as.length).map as.get) := by rw [List.map_get_finRange]
    _ = (places.map as.get).map partValue := by rw [values, List.filter_map]; rfl
    _ = (moved.map as.get).map partValue := by rw [heq]
    _ = values name (((List.finRange as.length).map σ).map as.get) := by
        rw [values, List.filter_map]; rfl
    _ = values name (List.ofFn fun i => as.get (σ i)) := by
        rw [List.ofFn_eq_map, List.map_map]; rfl

theorem values_insert {name : Text} (hname : name ∈ attributeNames) {part : Text}
    (h : part.trim = [] ∨ partName part ∉ attributeNames) (front back : List Text) :
    values name (front ++ part :: back) = values name (front ++ back) := by
  have hpart : partName part ≠ name := by
    rintro rfl
    rcases h with h | h
    · rw [partName, h] at hname
      exact absurd hname (by decide)
    · exact h hname
  simp [values, hpart]

theorem Rearranged.values_eq {as bs : List Text} (h : Rearranged as bs) {name : Text}
    (hname : name ∈ attributeNames) : values name as = values name bs := by
  induction h with
  | reorder h => exact h.values_eq name
  | insert h => exact (values_insert hname h _ _).symm
  | remove h => exact values_insert hname h _ _
  | trans _ _ ih ih' => exact ih.trans ih'

/-- The attributes of a cookie that was read are what the last valid part of each name says, and
the same cookie is read when parts with different names change places and empty parts, or parts
with other names, come and go. -/
theorem parse?_of_rearranged (h : parse? now header = some c) :
    Attributed now (parts header) c ∧
      ∀ other, pairText other = pairText header → Rearranged (parts header) (parts other) →
        parse? now other = some c := by
  refine ⟨attributed_of_parse? h, ?_⟩
  intro other hpair hparts
  exact parse?_of_values h hpair fun name hname => hparts.values_eq hname

/-- The domain moves in front of the first path, and an empty part and a version come in: the
second path still counts, and so does the lifetime, ahead of the date of expiry and of the lifetime
that is no number. -/
theorem parse?_of_rearranged_two_paths :
    let expires : Text := "Expires=Thu, 01 Jan 1970 00:00:10 GMT".toList
    let tail : List Text :=
      ["Max-Age=60".toList, "max-age=1d".toList, expires, "SameSite=lax".toList,
        "PATH = /b ".toList]
    let header : Text := "sid=1; Path=/a;Domain=x;".toList ++ [';'].intercalate tail
    let other : Text := "sid=1;Domain=x; Path=/a; ;version=1;".toList ++ [';'].intercalate tail
    let c : Cookie := ((((new "sid".toList "1".toList).withDomain "x".toList).withPath
      "/b".toList).withMaxAge (some 60)).withSameSite .lax
    parse? Instant.epoch header = some c ∧ pairText other = pairText header ∧
      Rearranged (parts header) (parts other) ∧ parse? Instant.epoch other = some c := by
  intro expires tail header other c
  have hread : parse? Instant.epoch header = some c := by decide +kernel
  have hpair : pairText other = pairText header := by decide +kernel
  have hfrom : parts header = " Path=/a".toList :: "Domain=x".toList :: tail := by decide +kernel
  have hto : parts other =
      "Domain=x".toList :: " Path=/a".toList :: " ".toList :: "version=1".toList :: tail := by
    decide +kernel
  have hreorder : Rearranged (" Path=/a".toList :: "Domain=x".toList :: tail)
      ("Domain=x".toList :: " Path=/a".toList :: tail) :=
    .reorder ⟨Equiv.swap ⟨0, by decide⟩ ⟨1, by decide⟩, by decide, by decide⟩
  have hempty : Rearranged (["Domain=x".toList, " Path=/a".toList] ++ tail)
      (["Domain=x".toList, " Path=/a".toList] ++ " ".toList :: tail) := .insert (.inl (by decide))
  have hversion : Rearranged (["Domain=x".toList, " Path=/a".toList, " ".toList] ++ tail)
      (["Domain=x".toList, " Path=/a".toList, " ".toList] ++ "version=1".toList :: tail) :=
    .insert (.inr (by decide))
  have hparts : Rearranged (parts header) (parts other) := by
    rw [hfrom, hto]
    exact (hreorder.trans hempty).trans hversion
  exact ⟨hread, hpair, hparts, (parse?_of_rearranged hread).2 other hpair hparts⟩

end HttpExchange.Cookie
