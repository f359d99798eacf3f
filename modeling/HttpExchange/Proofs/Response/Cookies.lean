import HttpExchange.Proofs.Cookie.Line
import HttpExchange.Proofs.Response.Head

/-! # Cookies of a response

A response drops the cookies whose name is no token and sends all others as they are. A reader finds
them, and nothing beside them but the fields that frame the body, exactly when a line can carry each
one; a cookie is not looked at for that, so one may end its line and begin another field. -/

namespace HttpExchange.Response

/-- A reader finds these cookies in the fields for them, and those other fields. -/
def Delivers (octets : Bytes) (cookies : List Cookie) (others : List (Text × Text)) : Prop :=
  ∃ h, received? octets = some h ∧
    List.Forall₂ (fun value c => ∀ now, Cookie.parse? now value = some c)
      (h.getAll "set-cookie".toList) cookies ∧
    h.toList.filter (fun field => !field.1.sameLetters "set-cookie".toList) = others

def cookieField (c : Cookie) : Text × Text := ("Set-Cookie".toList, c.render)

/-- The fields that are added when none was set. -/
def framing (r : Response) : List (Text × Text) :=
  (if r.body = [] then [] else [("Content-Type".toList, "text/plain; charset=utf-8".toList)]) ++
    [("Connection".toList, if r.keepAlive then "keep-alive".toList else "close".toList),
      ("Content-Length".toList, Numeral.ofNat r.body.length)]

/-! ## What is sent -/

theorem foldl_withCookie (cookies : List Cookie) (r : Response) :
    cookies.foldl withCookie r =
      { r with
        headers := ⟨r.headers.toList ++ (cookies.filter Cookie.hasValidName).map cookieField⟩ } := by
  induction cookies generalizing r with
  | nil => simp
  | cons c cookies ih =>
      rw [List.foldl_cons, ih]
      by_cases hname : c.hasValidName = true
      · simp only [withCookie, if_pos hname, List.filter_cons_of_pos hname, withHeader,
          Headers.toList_insert, List.map_cons, List.append_assoc, List.singleton_append]
        rfl
      · simp only [withCookie, if_neg hname, List.filter_cons_of_neg hname]

theorem toList_sent_of_cookies {r : Response} {cookies : List Cookie}
    (h : r.headers.toList = cookies.map cookieField) :
    r.sent.toList = cookies.map cookieField ++ r.framing := by
  have hname : Text.sameLetters "Set-Cookie".toList "content-type".toList = false := by decide
  have hfree : ∀ field ∈ cookies.map cookieField,
      field.1.sameLetters "content-type".toList = false := by
    intro field hfield
    obtain ⟨c, -, rfl⟩ := List.mem_map.mp hfield
    exact hname
  rw [toList_sent, h, added, framing]
  by_cases hbody : r.body = []
  · rw [if_neg fun hadded => hadded.1 hbody, if_pos hbody]
  · rw [if_pos ⟨hbody, hfree⟩, if_neg hbody]

/-! ## What is received -/

theorem linear_cookieField {c : Cookie} (h : c.Portable) : Headers.Linear (cookieField c) := by
  have hname : ':' ∉ "Set-Cookie".toList ∧ ¬ ['\r', '\n'] <:+: "Set-Cookie".toList := by decide
  exact ⟨hname.1, hname.2, Cookie.not_infix_render h.not_infix_of_mem_texts,
    Cookie.isBlank_head?_render h.name⟩

theorem linear_contentLength (n : Nat) :
    Headers.Linear ("Content-Length".toList, Numeral.ofNat n) := by
  have hvisible : ∀ c ∈ Numeral.ofNat n, Text.Visible c :=
    fun _ => Cookie.visible_of_mem_ofInt (z := n)
  have hname : ':' ∉ "Content-Length".toList ∧ ¬ ['\r', '\n'] <:+: "Content-Length".toList := by
    decide
  exact ⟨hname.1, hname.2, Text.not_crlf_infix_of_visible hvisible,
    fun c hc => (hvisible c (List.mem_of_mem_head? hc)).isBlank⟩

theorem linear_of_mem_framing {r : Response} {field : Text × Text} (h : field ∈ r.framing) :
    Headers.Linear field := by
  have htype : Headers.Linear ("Content-Type".toList, "text/plain; charset=utf-8".toList) := by
    decide +kernel
  have hconnection (keepAlive : Bool) : Headers.Linear ("Connection".toList,
      if keepAlive then "keep-alive".toList else "close".toList) := by
    cases keepAlive <;> decide +kernel
  rcases List.mem_append.mp h with h | h
  · split_ifs at h
    · cases h
    · obtain rfl := List.mem_singleton.mp h
      exact htype
  · rcases List.mem_cons.mp h with rfl | h
    · exact hconnection r.keepAlive
    · obtain rfl := List.mem_singleton.mp h
      exact linear_contentLength r.body.length

theorem sameLetters_cookieField (c : Cookie) :
    Text.sameLetters (cookieField c).1 "set-cookie".toList = true := by
  have hname : Text.sameLetters "Set-Cookie".toList "set-cookie".toList = true := by decide
  exact hname

theorem sameLetters_of_mem_framing {r : Response} {field : Text × Text} (h : field ∈ r.framing) :
    Text.sameLetters field.1 "set-cookie".toList = false := by
  have hnames : ∀ name ∈ ["Content-Type".toList, "Connection".toList, "Content-Length".toList],
      Text.sameLetters name "set-cookie".toList = false := by decide
  apply hnames
  rcases List.mem_append.mp h with h | h
  · split_ifs at h
    · cases h
    · obtain rfl := List.mem_singleton.mp h
      exact List.mem_cons_self
  · have hrest := List.mem_map_of_mem (f := Prod.fst) h
    exact List.mem_cons_of_mem _ hrest

theorem getAll_of_cookies {h : Headers} {r : Response} {cookies : List Cookie}
    (hfields : h.toList = cookies.map cookieField ++ r.framing) :
    h.getAll "set-cookie".toList = cookies.map Cookie.render := by
  have hcookies : (cookies.map cookieField).filter
      (fun field => field.1.sameLetters "set-cookie".toList) = cookies.map cookieField := by
    rw [List.filter_eq_self]
    intro field hfield
    obtain ⟨c, -, rfl⟩ := List.mem_map.mp hfield
    exact sameLetters_cookieField c
  have hframing : r.framing.filter (fun field => field.1.sameLetters "set-cookie".toList) = [] := by
    rw [List.filter_eq_nil_iff]
    exact fun field hfield => ne_true_of_eq_false (sameLetters_of_mem_framing hfield)
  rw [Headers.getAll, hfields, List.filter_append, hcookies, hframing, List.append_nil,
    List.map_map]
  rfl

theorem filter_of_cookies {h : Headers} {r : Response} {cookies : List Cookie}
    (hfields : h.toList = cookies.map cookieField ++ r.framing) :
    h.toList.filter (fun field => !field.1.sameLetters "set-cookie".toList) = r.framing := by
  have hcookies : (cookies.map cookieField).filter
      (fun field => !field.1.sameLetters "set-cookie".toList) = [] := by
    rw [List.filter_eq_nil_iff]
    intro field hfield
    obtain ⟨c, -, rfl⟩ := List.mem_map.mp hfield
    simp only [sameLetters_cookieField, Bool.not_true, Bool.false_eq_true, not_false_eq_true]
  have hframing : r.framing.filter
      (fun field => !field.1.sameLetters "set-cookie".toList) = r.framing := by
    rw [List.filter_eq_self]
    intro field hfield
    rw [sameLetters_of_mem_framing hfield, Bool.not_false]
  rw [hfields, List.filter_append, hcookies, hframing, List.nil_append]

theorem delivers_of_portable {r : Response} {cookies : List Cookie}
    (hheaders : r.headers.toList = cookies.map cookieField) (h : ∀ c ∈ cookies, c.Portable) :
    Delivers r.toBytes cookies r.framing := by
  have hsent := toList_sent_of_cookies hheaders
  have hlinear : ∀ field ∈ r.sent.toList, Headers.Linear field := by
    rw [hsent]
    intro field hfield
    rcases List.mem_append.mp hfield with hfield | hfield
    · obtain ⟨c, hc, rfl⟩ := List.mem_map.mp hfield
      exact linear_cookieField (h c hc)
    · exact linear_of_mem_framing hfield
  refine ⟨r.sent, received?_toBytes hlinear, ?_, filter_of_cookies hsent⟩
  rw [getAll_of_cookies hsent, List.forall₂_map_left_iff, List.forall₂_same]
  exact fun c hc => Cookie.parse?_render (h c hc).toCanonical

/-- What is found on a line could be carried there. -/
theorem portable_of_delivers {octets : Bytes} {cookies : List Cookie}
    {others : List (Text × Text)} (h : Delivers octets cookies others) :
    ∀ c ∈ cookies, c.Portable := by
  obtain ⟨fields, hread, hcookies, -⟩ := h
  have hlines : ∀ value ∈ fields.getAll "set-cookie".toList, ¬ ['\r', '\n'] <:+: value := by
    intro value hvalue
    obtain ⟨field, hfield, rfl⟩ := List.mem_map.mp hvalue
    exact not_crlf_infix_of_received? hread (List.mem_filter.mp hfield).1
  generalize fields.getAll "set-cookie".toList = values at hcookies hlines
  intro c hc
  induction hcookies with
  | nil => cases hc
  | cons hparse _ ih =>
      rcases List.mem_cons.mp hc with rfl | hc
      · exact Cookie.portable_of_parse? (hlines _ List.mem_cons_self) (hparse .epoch)
      · exact ih (fun value hvalue => hlines value (List.mem_cons_of_mem _ hvalue)) hc

/-- Cookies reach a reader, and nothing comes with them, exactly when a line can carry each one
that is sent. -/
theorem delivers_cookies_iff (status : Status) (body : Bytes) (keepAlive : Bool)
    (cookies : List Cookie) :
    let r := (((new status).withBody body).withKeepAlive keepAlive)
    Delivers (cookies.foldl withCookie r).toBytes (cookies.filter Cookie.hasValidName) r.framing ↔
      ∀ c ∈ cookies, c.hasValidName = true → c.Portable := by
  intro r
  have hfold := foldl_withCookie cookies r
  constructor
  · intro h c hc hname
    exact portable_of_delivers h c (List.mem_filter.mpr ⟨hc, hname⟩)
  · intro h
    rw [hfold]
    exact delivers_of_portable rfl fun c hc => h c (List.mem_filter.mp hc).1 (List.mem_filter.mp hc).2

/-- A line break in a value ends the line of the cookie, and the rest of it is another field. -/
theorem not_delivers_line_break :
    let cookies := [Cookie.new "a".toList "x\r\nX-Evil: 1".toList]
    let r := cookies.foldl withCookie (new .ok)
    received? r.toBytes = some ⟨[("Set-Cookie".toList, "a=\"x".toList),
      ("X-Evil".toList, "1\"".toList), ("Connection".toList, "keep-alive".toList),
      ("Content-Length".toList, "0".toList)]⟩ ∧
    cookies.all Cookie.hasValidName = true ∧
    ¬ Delivers r.toBytes (cookies.filter Cookie.hasValidName) (new .ok).framing := by
  intro cookies r
  have hread : received? r.toBytes = some ⟨[("Set-Cookie".toList, "a=\"x".toList),
      ("X-Evil".toList, "1\"".toList), ("Connection".toList, "keep-alive".toList),
      ("Content-Length".toList, "0".toList)]⟩ := by decide +kernel
  refine ⟨hread, by decide, ?_⟩
  rintro ⟨fields, hfields, -, hothers⟩
  obtain rfl := Option.some.inj (hread.symm.trans hfields)
  exact absurd hothers (by decide)

end HttpExchange.Response
