import HttpExchange.Proofs.Assembly.Resting

/-! # Forms

A form is an assembly whose parts stand in fields: what is settled of the request fills its field, a
phase tells how far the request is, and no type keeps the two together. The reads of the window are
checked, and so is the end, where all the fields have to be filled. Main statement: `sound_feedAll`,
no pieces make a form fail, and between two pieces it shows what the assembly shows. -/

namespace HttpExchange

/-- How far a request is. -/
inductive Phase where
  | method
  | target
  | version
  | headers
  | body
  | ready
  | malformed
  deriving DecidableEq, Repr

def Stage.phase : Stage → Phase
  | .method => .method
  | .target _ _ => .target
  | .version _ _ => .version
  | .headers _ _ _ => .headers
  | .body _ _ _ _ => .body
  | .ready _ => .ready
  | .malformed _ => .malformed

/-- A request in the making, with a field for each part. A search of the current phase has ruled out
the first `scanned` octets. -/
structure Form where
  window : Window
  phase : Phase
  scanned : Nat
  method : Option Method
  target : Option Text
  version : Option Text
  headers : Option Headers
  length : Option Nat
  request : Option Request
  deriving DecidableEq, Repr

/-- Whether an assembly is ready behind each of the pieces. -/
def Assembly.readiness (a : Assembly) : List Bytes → List Bool
  | [] => []
  | piece :: pieces => (a.feed piece).isReady :: (a.feed piece).readiness pieces

namespace Form

/-- What makes a form fail: a read beyond the octets, a request with a part missing, a loop that
goes on for more rounds than there are phases. -/
inductive Fault where
  | outOfRange
  | unsettled
  | unending
  deriving DecidableEq, Repr

abbrev Checked := Except Fault

/-- The octets before an offset. -/
def before (octets : Bytes) (stop : Nat) : Checked Bytes :=
  if stop ≤ octets.length then .ok (octets.take stop) else .error .outOfRange

/-- The octets from an offset on. -/
def behind (octets : Bytes) (start : Nat) : Checked Bytes :=
  if start ≤ octets.length then .ok (octets.drop start) else .error .outOfRange

/-- The octet at an offset. -/
def octet (octets : Bytes) (i : Nat) : Checked UInt8 :=
  if h : i < octets.length then .ok octets[i] else .error .outOfRange

/-- Nothing has arrived. -/
def new : Form := ⟨.empty, .method, 0, none, none, none, none, none, none⟩

/-! ## Each phase -/

/-- What the front of the window says about the method. -/
inductive Match where
  | found (m : Method)
  | needMore
  | noMatch
  deriving DecidableEq, Repr

/-- The methods are tried one after the other; `started` tells that the octets are the start of a
token already tried. -/
def matchMethod (octets : Bytes) : List Method → Bool → Checked Match
  | [], started => .ok (if started then .needMore else .noMatch)
  | m :: others, started => do
    let token := m.octets
    let available := min octets.length (token.length + 1)
    let shared := min available token.length
    if (← before octets shared) ≠ (← before token shared) then
      matchMethod octets others started
    else if available = token.length + 1 then
      if (← octet octets token.length) = 32 then return .found m
      else matchMethod octets others started
    else matchMethod octets others true

def readMethod (f : Form) : Checked Form := do
  match ← matchMethod f.window.toList Method.all false with
  | .found m => return { f with
      window := f.window.consume (m.octets.length + 1), method := some m, phase := .target }
  | .needMore => return f
  | .noMatch => return { f with phase := .malformed }

def readTarget (f : Form) : Checked Form := do
  match (← behind f.window.toList f.scanned).findIdx? Assembly.endsTarget with
  | none => return { f with scanned := f.window.length }
  | some offset =>
    let stop := f.scanned + offset
    if (← octet f.window.toList stop) ≠ 32 then return { f with phase := .malformed }
    match Utf8.decode? (← before f.window.toList stop) with
    | none => return { f with phase := .malformed }
    | some target => return { f with
        target := some target, window := f.window.consume (stop + 1), phase := .version }

def readVersion (f : Form) : Checked Form :=
  if f.window.length < Assembly.versionLine.length then .ok f
  else if f.window.startsWith Assembly.versionLine then .ok { f with
    version := some Request.http11, window := f.window.consume Assembly.versionLength,
    phase := .headers }
  else .ok { f with phase := .malformed }

/-- The parts move into the request, with this body. -/
def finish (f : Form) (body : Option Bytes) : Checked Form :=
  match f.method, f.target, f.version, f.headers with
  | some m, some t, some v, some h => .ok { f with
      method := none, target := none, version := none, headers := none,
      request := some ⟨m, t, v, h, body⟩, phase := .ready }
  | _, _, _, _ => .error .unsettled

def readHeaders (f : Form) : Checked Form := do
  match f.window.find? Assembly.terminator f.scanned with
  | none => return { f with scanned := f.window.length - (Assembly.terminator.length - 1) }
  | some stop =>
    match (Utf8.decode? (← before f.window.toList stop)).bind Headers.parseBlock? with
    | none => return { f with phase := .malformed }
    | some headers =>
      let consumed := f.window.consume (stop + Assembly.terminator.length)
      match headers.framing with
      | .contradictory => return { f with phase := .malformed }
      | .bodiless =>
        finish { f with window := consumed, headers := some headers, length := none } none
      | .sized length => return { f with
          window := consumed, headers := some headers, length := some length, phase := .body }

def readBody (f : Form) : Checked Form :=
  match f.window.splitTo? (f.length.getD 0) with
  | none => .ok f
  | some (body, rest) => finish { f with window := rest } (some body)

/-- The part of the current phase is read, as far as it is there. -/
def step (f : Form) : Checked Form :=
  match f.phase with
  | .method => f.readMethod
  | .target => f.readTarget
  | .version => f.readVersion
  | .headers => f.readHeaders
  | .body => f.readBody
  | .ready | .malformed => .ok f

/-- Phases are passed until one stays. A new phase has ruled out nothing yet. -/
def advance : Nat → Form → Checked Form
  | 0, _ => .error .unending
  | rounds + 1, f => do
    let next ← f.step
    if next.phase = f.phase then return next
    else advance rounds { next with scanned := 0 }

/-- A piece arrives. The answer tells whether the request is complete. -/
def feed (f : Form) (piece : Bytes) : Checked (Bool × Form) :=
  match f.phase with
  | .malformed => .ok (false, f)
  | .ready => .ok (true, { f with window := f.window.extend piece })
  | _ => do
    let next ← advance 7 { f with window := f.window.extend piece }
    return (next.phase == .ready, next)

/-- The pieces arrive one after the other; all the answers, and the form behind them. -/
def feedAll (f : Form) : List Bytes → Checked (List Bool × Form)
  | [] => .ok ([], f)
  | piece :: pieces => do
    let (answer, next) ← f.feed piece
    let (answers, last) ← next.feedAll pieces
    return (answer :: answers, last)

/-- The method, from its field or from the request. -/
def method? (f : Form) : Option Method := f.method.or (f.request.map Request.method)

/-- The request and the octets behind it. -/
def finish? (f : Form) : Option (Request × Bytes) :=
  f.request.map fun request => (request, f.window.toList)

/-! ## Reads within the octets -/

open Assembly

variable {octets : Bytes} {m : Method} {others : List Method} {started : Bool}

@[simp] theorem ok_bind {α β : Type} (a : α) (next : α → Checked β) :
    (Except.ok a >>= next : Checked β) = next a := rfl

@[simp] theorem pure_eq_ok {α : Type} (a : α) : (pure a : Checked α) = .ok a := rfl

theorem before_of_le {stop : Nat} (h : stop ≤ octets.length) :
    before octets stop = .ok (octets.take stop) := if_pos h

theorem behind_of_le {start : Nat} (h : start ≤ octets.length) :
    behind octets start = .ok (octets.drop start) := if_pos h

theorem octet_of_lt {i : Nat} (h : i < octets.length) : octet octets i = .ok octets[i] :=
  dif_pos h

/-! ## The method -/

theorem matchMethod_cons_of_opening (h : opening m <+: octets) :
    matchMethod octets (m :: others) started = .ok (.found m) := by
  obtain ⟨more, rfl⟩ := h
  have hlt : m.octets.length < (opening m ++ more).length := by
    simp only [opening, List.length_append, List.length_singleton]
    omega
  have havailable : min (opening m ++ more).length (m.octets.length + 1) = m.octets.length + 1 := by
    omega
  have htake : (opening m ++ more).take m.octets.length = m.octets := by
    rw [opening, List.append_assoc, List.take_left]
  have hspace : (opening m ++ more)[m.octets.length] = 32 := by
    simp [opening]
  have hshared : min (m.octets.length + 1) m.octets.length = m.octets.length := by omega
  simp only [matchMethod, havailable, hshared, before_of_le hlt.le, before_of_le le_rfl,
    octet_of_lt hlt, ok_bind, htake, List.take_length, hspace, ne_eq, not_true_eq_false, if_false,
    if_true, pure_eq_ok]

theorem matchMethod_cons_of_start (hno : ¬ opening m <+: octets) (h : octets <+: opening m) :
    matchMethod octets (m :: others) started = matchMethod octets others true := by
  have hlength : octets.length ≤ m.octets.length := by
    have hle := h.length_le
    have hne : octets.length ≠ (opening m).length := fun heq =>
      hno (h.eq_of_length heq ▸ List.prefix_rfl)
    simp only [opening, List.length_append, List.length_singleton] at hle hne
    omega
  have hprefix : octets <+: m.octets :=
    List.prefix_of_prefix_length_le h (List.prefix_append _ _) hlength
  have havailable : min octets.length (m.octets.length + 1) = octets.length := by omega
  have hshared : min octets.length m.octets.length = octets.length := by omega
  have hshort : octets.length ≠ m.octets.length + 1 := by omega
  simp only [matchMethod, havailable, hshared, before_of_le le_rfl, before_of_le hlength, ok_bind,
    List.take_length, ← List.prefix_iff_eq_take.mp hprefix, ne_eq, not_true_eq_false, if_false,
    if_neg hshort]

theorem matchMethod_cons_of_neither (hno : ¬ opening m <+: octets) (h : ¬ octets <+: opening m) :
    matchMethod octets (m :: others) started = matchMethod octets others started := by
  rcases Nat.lt_or_ge m.octets.length octets.length with hlt | hge
  · have havailable : min octets.length (m.octets.length + 1) = m.octets.length + 1 := by omega
    have hshared : min (m.octets.length + 1) m.octets.length = m.octets.length := by omega
    simp only [matchMethod, havailable, hshared, before_of_le hlt.le, before_of_le le_rfl,
      octet_of_lt hlt, ok_bind, List.take_length, if_true]
    split
    · rfl
    · rename_i htoken
      have hspace : octets[m.octets.length] ≠ 32 := by
        intro hspace
        have hdrop := List.drop_eq_getElem_cons hlt
        rw [hspace] at hdrop
        refine hno ⟨octets.drop (m.octets.length + 1), ?_⟩
        calc opening m ++ octets.drop (m.octets.length + 1)
            = m.octets ++ octets.drop m.octets.length := by
              rw [opening, List.append_assoc, List.singleton_append, hdrop]
          _ = octets.take m.octets.length ++ octets.drop m.octets.length := by
              rw [not_not.mp htoken]
          _ = octets := List.take_append_drop ..
      rw [if_neg hspace]
  · have havailable : min octets.length (m.octets.length + 1) = octets.length := by omega
    have hshared : min octets.length m.octets.length = octets.length := by omega
    have htoken : octets ≠ m.octets.take octets.length := fun heq =>
      h ((List.prefix_iff_eq_take.mpr heq).trans (List.prefix_append _ _))
    simp only [matchMethod, havailable, hshared, before_of_le le_rfl, before_of_le hge, ok_bind,
      List.take_length, ne_eq, htoken, not_false_eq_true, if_true]

theorem matchMethod_of_opening {ms : List Method} (hm : m ∈ ms) (h : opening m <+: octets) :
    matchMethod octets ms started = .ok (.found m) := by
  induction ms with
  | nil => cases hm
  | cons n others ih =>
      by_cases heq : n = m
      · subst heq
        exact matchMethod_cons_of_opening h
      · have hno : ¬ opening n <+: octets := fun hn =>
            heq <| eq_of_opening_prefix hn h
        have hstart : ¬ octets <+: opening n := fun hn =>
          heq <| eq_of_opening_prefix List.prefix_rfl (h.trans hn)
        rw [matchMethod_cons_of_neither hno hstart]
        exact ih (List.mem_of_ne_of_mem (Ne.symm heq) hm)

theorem matchMethod_of_no_opening {ms : List Method} (hno : ∀ m, ¬ opening m <+: octets) :
    matchMethod octets ms started =
      .ok (if started = true ∨ ∃ m ∈ ms, octets <+: opening m then .needMore else .noMatch) := by
  induction ms generalizing started with
  | nil => simp [matchMethod]
  | cons n others ih =>
      by_cases hstart : octets <+: opening n
      · rw [matchMethod_cons_of_start (hno n) hstart, ih]
        simp [hstart]
      · rw [matchMethod_cons_of_neither (hno n) hstart, ih]
        simp [hstart]

theorem matchMethod_all_of_start (hno : ∀ m, ¬ opening m <+: octets)
    (hstart : ∃ m, octets <+: opening m) : matchMethod octets Method.all false = .ok .needMore := by
  obtain ⟨m, hm⟩ := hstart
  rw [matchMethod_of_no_opening hno, if_pos (.inr ⟨m, m.mem_all, hm⟩)]

theorem matchMethod_all_of_refused (hno : ∀ m, ¬ opening m <+: octets)
    (hstart : ¬ ∃ m, octets <+: opening m) :
    matchMethod octets Method.all false = .ok .noMatch := by
  rw [matchMethod_of_no_opening hno, if_neg]
  rintro (hstarted | ⟨m, -, hm⟩)
  · cases hstarted
  · exact hstart ⟨m, hm⟩

/-! ## The rounds

From each phase on, the rounds lead where one reading of the assembly leads. The lemmas begin with
the last part, as every part hands over to the next one, and each phase leaves one round more for
those behind it. -/

/-- The form of an assembly: the parts that its stage has settled stand in their fields, and the
others are empty. Of a finished request the length stays behind, and of a refused one what was
settled. -/
inductive Shows : Form → Assembly → Prop where
  | method {w} : Shows ⟨w, .method, 0, none, none, none, none, none, none⟩ ⟨w, .method⟩
  | target {w m s} : Shows ⟨w, .target, s, some m, none, none, none, none, none⟩ ⟨w, .target m s⟩
  | version {w m t} :
      Shows ⟨w, .version, 0, some m, some t, none, none, none, none⟩ ⟨w, .version m t⟩
  | headers {w m t s} :
      Shows ⟨w, .headers, s, some m, some t, some Request.http11, none, none, none⟩
        ⟨w, .headers m t s⟩
  | body {w m t h n} :
      Shows ⟨w, .body, 0, some m, some t, some Request.http11, some h, some n, none⟩
        ⟨w, .body m t h n⟩
  | ready {w r n} (hlength : n = r.body.map List.length) :
      Shows ⟨w, .ready, 0, none, none, none, none, n, some r⟩ ⟨w, .ready r⟩
  | malformed {w m t v} :
      Shows ⟨w, .malformed, 0, m, t, v, none, none, none⟩ ⟨w, .malformed m⟩

variable {rounds : Nat} {f next : Form} {a : Assembly}

theorem advance_of_stay (hstep : f.step = .ok next) (hphase : next.phase = f.phase) :
    advance (rounds + 1) f = .ok next := by
  simp only [advance, hstep, ok_bind, if_pos hphase, pure_eq_ok]

theorem advance_of_move (hstep : f.step = .ok next) (hphase : next.phase ≠ f.phase) :
    advance (rounds + 1) f = advance rounds { next with scanned := 0 } := by
  simp only [advance, hstep, ok_bind, if_neg hphase]

/-- A round that ends in a last phase is followed by one more. -/
theorem advance_of_last (hstep : f.step = .ok next) (hphase : next.phase ≠ f.phase)
    (hlast : next.phase = .ready ∨ next.phase = .malformed) :
    advance (rounds + 2) f = .ok { next with scanned := 0 } := by
  rw [advance_of_move hstep hphase]
  refine advance_of_stay ?_ rfl
  rcases hlast with h | h <;> simp only [step, h]

theorem advance_body (rounds : Nat) (m : Method) (t : Text) (h : Headers) (n : Nat) (w : Window) :
    ∃ f, advance (rounds + 2)
        ⟨w, .body, 0, some m, some t, some Request.http11, some h, some n, none⟩ = .ok f ∧
      f.Shows (Assembly.readBody m t h n w) := by
  by_cases hn : n ≤ w.length
  · have hstep : step ⟨w, .body, 0, some m, some t, some Request.http11, some h, some n, none⟩ =
        .ok ⟨w.consume n, .ready, 0, none, none, none, none, some n,
          some ⟨m, t, Request.http11, h, some (w.toList.take n)⟩⟩ := by
      simp only [step, readBody, Option.getD_some, Window.splitTo?, if_pos hn, finish]
    refine ⟨_, advance_of_last hstep (by simp) (.inl rfl), ?_⟩
    simp only [Assembly.readBody, Window.splitTo?, if_pos hn]
    exact .ready (congrArg some (List.length_take_of_le hn).symm)
  · have hstep : step ⟨w, .body, 0, some m, some t, some Request.http11, some h, some n, none⟩ =
        .ok ⟨w, .body, 0, some m, some t, some Request.http11, some h, some n, none⟩ := by
      simp only [step, readBody, Option.getD_some, Window.splitTo?, if_neg hn]
    refine ⟨_, advance_of_stay hstep rfl, ?_⟩
    simp only [Assembly.readBody, Window.splitTo?, if_neg hn]
    exact .body

theorem advance_headers (rounds : Nat) (m : Method) (t : Text) (w : Window) (scanned : Nat) :
    ∃ f, advance (rounds + 3)
        ⟨w, .headers, scanned, some m, some t, some Request.http11, none, none, none⟩ = .ok f ∧
      f.Shows (Assembly.readHeaders m t w scanned) := by
  have hne : terminator ≠ [] := by decide
  set f : Form := ⟨w, .headers, scanned, some m, some t, some Request.http11, none, none, none⟩
    with hf
  cases hfind : w.find? terminator scanned with
  | none =>
      have hstep : f.step = .ok { f with scanned := w.length - 3 } := by
        simp only [hf, step, readHeaders, hfind, pure_eq_ok]
        rfl
      refine ⟨_, advance_of_stay hstep rfl, ?_⟩
      simp only [Assembly.readHeaders, hfind]
      exact .headers
  | some stop =>
      have hstop : stop ≤ w.toList.length := by
        have hend := ((Window.find?_eq_some_iff hne).mp hfind).1.2.add_length_le hne
        omega
      cases hparse : (Utf8.decode? (w.toList.take stop)).bind Headers.parseBlock? with
      | none =>
          have hstep : f.step = .ok { f with phase := .malformed } := by
            simp only [hf, step, readHeaders, hfind, before_of_le hstop, ok_bind, hparse,
              pure_eq_ok]
          refine ⟨_, advance_of_last hstep (by simp [hf]) (.inr rfl), ?_⟩
          simp only [Assembly.readHeaders, hfind, hparse]
          exact .malformed
      | some headers =>
          cases hframing : headers.framing with
          | contradictory =>
              have hstep : f.step = .ok { f with phase := .malformed } := by
                simp only [hf, step, readHeaders, hfind, before_of_le hstop, ok_bind, hparse,
                  hframing, pure_eq_ok]
              refine ⟨_, advance_of_last hstep (by simp [hf]) (.inr rfl), ?_⟩
              simp only [Assembly.readHeaders, hfind, hparse, hframing]
              exact .malformed
          | bodiless =>
              have hstep : f.step = .ok ⟨w.consume (stop + 4), .ready, scanned, none, none, none,
                  none, none, some ⟨m, t, Request.http11, headers, none⟩⟩ := by
                simp only [hf, step, readHeaders, hfind, before_of_le hstop, ok_bind, hparse,
                  hframing, finish]
                rfl
              refine ⟨_, advance_of_last hstep (by simp [hf]) (.inl rfl), ?_⟩
              simp only [Assembly.readHeaders, hfind, hparse, hframing]
              exact .ready rfl
          | sized length =>
              have hstep : f.step = .ok ⟨w.consume (stop + 4), .body, scanned, some m, some t,
                  some Request.http11, some headers, some length, none⟩ := by
                simp only [hf, step, readHeaders, hfind, before_of_le hstop, ok_bind, hparse,
                  hframing, pure_eq_ok]
                rfl
              obtain ⟨g, hg, hshows⟩ :=
                advance_body rounds m t headers length (w.consume (stop + 4))
              refine ⟨g, (advance_of_move hstep (by simp [hf])).trans hg, ?_⟩
              simpa only [Assembly.readHeaders, hfind, hparse, hframing] using hshows

theorem advance_version (rounds : Nat) (m : Method) (t : Text) (w : Window) :
    ∃ f, advance (rounds + 4)
        ⟨w, .version, 0, some m, some t, none, none, none, none⟩ = .ok f ∧
      f.Shows (Assembly.readVersion m t w) := by
  set f : Form := ⟨w, .version, 0, some m, some t, none, none, none, none⟩ with hf
  by_cases hshort : w.length < versionLine.length
  · have hstep : f.step = .ok f := by
      simp only [hf, step, readVersion, if_pos hshort]
    refine ⟨_, advance_of_stay hstep rfl, ?_⟩
    simp only [Assembly.readVersion, if_pos hshort]
    exact .version
  by_cases hline : w.startsWith versionLine = true
  · have hstep : f.step = .ok ⟨w.consume versionLength, .headers, 0, some m, some t,
        some Request.http11, none, none, none⟩ := by
      simp only [hf, step, readVersion, if_neg hshort, if_pos hline]
    obtain ⟨g, hg, hshows⟩ := advance_headers rounds m t (w.consume versionLength) 0
    refine ⟨g, (advance_of_move hstep (by simp [hf])).trans hg, ?_⟩
    simpa only [Assembly.readVersion, if_neg hshort, if_pos hline] using hshows
  · have hstep : f.step = .ok { f with phase := .malformed } := by
      simp only [hf, step, readVersion, if_neg hshort, if_neg hline]
    refine ⟨_, advance_of_last hstep (by simp [hf]) (.inr rfl), ?_⟩
    simp only [Assembly.readVersion, if_neg hshort, if_neg hline]
    exact .malformed

theorem advance_target (rounds : Nat) (m : Method) {w : Window} {scanned : Nat}
    (hscanned : scanned ≤ w.length) :
    ∃ f, advance (rounds + 5)
        ⟨w, .target, scanned, some m, none, none, none, none, none⟩ = .ok f ∧
      f.Shows (Assembly.readTarget m w scanned) := by
  set f : Form := ⟨w, .target, scanned, some m, none, none, none, none, none⟩ with hf
  cases hfind : (w.toList.drop scanned).findIdx? endsTarget with
  | none =>
      have hnone : w.findWhere? endsTarget scanned = none := by
        rw [Window.findWhere?, hfind, Option.map_none]
      have hstep : f.step = .ok { f with scanned := w.length } := by
        simp only [hf, step, readTarget, behind_of_le hscanned, ok_bind, hfind, pure_eq_ok]
      refine ⟨_, advance_of_stay hstep rfl, ?_⟩
      simp only [Assembly.readTarget, hnone]
      exact .target
  | some offset =>
      have hsome : w.findWhere? endsTarget scanned = some (scanned + offset) := by
        rw [Window.findWhere?, hfind, Option.map_some, Nat.add_comm]
      have hstop : scanned + offset < w.toList.length :=
        (Window.findWhere?_eq_some_iff.mp hsome).1.2.lt_length
      have hget : w.get? (scanned + offset) = some w.toList[scanned + offset] :=
        List.getElem?_eq_getElem hstop
      by_cases hspace : w.toList[scanned + offset] = 32
      · cases hdecode : Utf8.decode? (w.toList.take (scanned + offset)) with
        | none =>
            have hstep : f.step = .ok { f with phase := .malformed } := by
              simp only [hf, step, readTarget, behind_of_le hscanned, octet_of_lt hstop,
                before_of_le hstop.le, ok_bind, hfind, hspace, hdecode, ne_eq, not_true_eq_false,
                if_false, pure_eq_ok]
            refine ⟨_, advance_of_last hstep (by simp [hf]) (.inr rfl), ?_⟩
            simp only [Assembly.readTarget, hsome, hget, hspace, if_true, hdecode]
            exact .malformed
        | some target =>
            have hstep : f.step = .ok ⟨w.consume (scanned + offset + 1), .version, scanned, some m,
                some target, none, none, none, none⟩ := by
              simp only [hf, step, readTarget, behind_of_le hscanned, octet_of_lt hstop,
                before_of_le hstop.le, ok_bind, hfind, hspace, hdecode, ne_eq, not_true_eq_false,
                if_false, pure_eq_ok]
            obtain ⟨g, hg, hshows⟩ :=
              advance_version rounds m target (w.consume (scanned + offset + 1))
            refine ⟨g, (advance_of_move hstep (by simp [hf])).trans hg, ?_⟩
            simpa only [Assembly.readTarget, hsome, hget, hspace, if_true, hdecode] using hshows
      · have hstep : f.step = .ok { f with phase := .malformed } := by
          simp only [hf, step, readTarget, behind_of_le hscanned, octet_of_lt hstop, ok_bind, hfind,
            ne_eq, hspace, not_false_eq_true, if_true, pure_eq_ok]
        refine ⟨_, advance_of_last hstep (by simp [hf]) (.inr rfl), ?_⟩
        simp only [Assembly.readTarget, hsome, hget, Option.some.injEq, hspace, if_false]
        exact .malformed

theorem advance_method (rounds : Nat) (w : Window) :
    ∃ f, advance (rounds + 6) ⟨w, .method, 0, none, none, none, none, none, none⟩ = .ok f ∧
      f.Shows (Assembly.readMethod w) := by
  set f : Form := ⟨w, .method, 0, none, none, none, none, none, none⟩ with hf
  by_cases hopen : ∃ m, opening m <+: w.toList
  · obtain ⟨m, hm⟩ := hopen
    have hlength : (opening m).length = m.octets.length + 1 := List.length_append
    have hstep : f.step = .ok ⟨w.consume (opening m).length, .target, 0, some m, none, none, none,
        none, none⟩ := by
      simp only [hf, step, readMethod, matchMethod_of_opening m.mem_all hm, ok_bind, pure_eq_ok,
        hlength]
    obtain ⟨g, hg, hshows⟩ :=
      advance_target rounds m (Nat.zero_le (w.consume (opening m).length).length)
    refine ⟨g, (advance_of_move hstep (by simp [hf])).trans hg, ?_⟩
    rw [readMethod_of_opening hm]
    exact hshows
  · have hno : ∀ m, ¬ opening m <+: w.toList := fun m hm => hopen ⟨m, hm⟩
    by_cases hstart : ∃ m, w.toList <+: opening m
    · have hstep : f.step = .ok f := by
        simp only [hf, step, readMethod, matchMethod_all_of_start hno hstart, ok_bind, pure_eq_ok]
      refine ⟨_, advance_of_stay hstep rfl, ?_⟩
      rw [readMethod_of_start hno hstart]
      exact .method
    · have hstep : f.step = .ok { f with phase := .malformed } := by
        simp only [hf, step, readMethod, matchMethod_all_of_refused hno hstart, ok_bind, pure_eq_ok]
      refine ⟨_, advance_of_last hstep (by simp [hf]) (.inr rfl), ?_⟩
      rw [readMethod_of_refused hno hstart]
      exact .malformed

/-! ## Any pieces -/

theorem Shows.phase_eq (h : f.Shows a) : f.phase = a.stage.phase := by
  cases h <;> rfl

theorem Shows.isReady_eq (h : f.Shows a) : (f.phase == .ready) = a.isReady := by
  cases h <;> rfl

theorem Shows.method?_eq (h : f.Shows a) : f.method? = a.method? := by
  cases h with
  | @malformed w m => cases m <;> rfl
  | _ => rfl

theorem Shows.request_eq (h : f.Shows a) : f.request = a.request? := by
  cases h <;> rfl

theorem Shows.finish?_eq (h : f.Shows a) : f.finish? = a.finish? := by
  cases h <;> rfl

/-- A piece reaches the form through rounds that end well. -/
theorem feed_of_advance {piece : Bytes} (hready : f.phase ≠ .ready)
    (hmalformed : f.phase ≠ .malformed)
    (hadvance : ∃ g, advance 7 { f with window := f.window.extend piece } = .ok g ∧ g.Shows a) :
    ∃ g, f.feed piece = .ok (a.isReady, g) ∧ g.Shows a := by
  obtain ⟨g, hg, hshows⟩ := hadvance
  refine ⟨g, ?_, hshows⟩
  rw [← hshows.isReady_eq]
  unfold feed
  split
  · rename_i hphase
    exact absurd hphase hmalformed
  · rename_i hphase
    exact absurd hphase hready
  · simp only [hg, ok_bind, pure_eq_ok]

theorem Shows.feed (h : f.Shows a) (hrest : a.Resting) (piece : Bytes) :
    ∃ g, f.feed piece = .ok ((a.feed piece).isReady, g) ∧ g.Shows (a.feed piece) := by
  cases h with
  | method => exact feed_of_advance nofun nofun (advance_method 1 _)
  | @target w m scanned =>
      have hscanned : scanned ≤ (w.extend piece).length := by
        cases hrest
        rw [Window.length_extend]
        exact Nat.le_add_right _ _
      exact feed_of_advance nofun nofun (advance_target 2 _ hscanned)
  | version => exact feed_of_advance nofun nofun (advance_version 3 _ _ _)
  | headers => exact feed_of_advance nofun nofun (advance_headers 4 _ _ _ _)
  | body => exact feed_of_advance nofun nofun (advance_body 5 _ _ _ _ _)
  | ready hlength => exact ⟨_, rfl, .ready hlength⟩
  | malformed => exact ⟨_, rfl, .malformed⟩

theorem Shows.feedAll (h : f.Shows a) (hrest : a.Resting) (pieces : List Bytes) :
    ∃ g, f.feedAll pieces = .ok (a.readiness pieces, g) ∧ g.Shows (a.feedAll pieces) := by
  induction pieces generalizing f a with
  | nil => exact ⟨f, rfl, h⟩
  | cons piece pieces ih =>
      obtain ⟨next, hnext, hshows⟩ := h.feed hrest piece
      obtain ⟨last, hlast, hlastShows⟩ := ih hshows (hrest.feed piece)
      refine ⟨last, ?_, hlastShows⟩
      simp only [Form.feedAll, hnext, hlast, ok_bind, pure_eq_ok, readiness]

/-! ## What the phases promise -/

/-- Which of the fields before the request are filled. -/
def filled (f : Form) : List Bool :=
  [f.method.isSome, f.target.isSome, f.version.isSome, f.headers.isSome, f.length.isSome]

/-- What a phase promises about the fields and about the octets that are held. -/
def Promised (f : Form) : Phase → Prop
  | .method => f.filled = [false, false, false, false, false] ∧ f.window.length ≤ 7 ∧
      ∃ m, f.window.toList <+: opening m ∧ f.window.toList ≠ opening m
  | .target => f.filled = [true, false, false, false, false] ∧
      ∀ b ∈ f.window.toList, b ≠ 32 ∧ b ≠ 13 ∧ b ≠ 10
  | .version => f.filled = [true, true, false, false, false] ∧ f.window.length < 10
  | .headers => f.filled = [true, true, true, false, false] ∧ crlf <+: f.window.toList ∧
      ∀ i, ¬ Window.Occurs (crlf ++ crlf) f.window.toList i
  | .body => f.filled = [true, true, true, true, true] ∧
      ∃ n, f.length = some n ∧ f.window.length < n
  | .ready | .malformed => f.headers = none

/-- A form between two pieces. -/
structure Sound (f : Form) : Prop where
  scanned_le : f.scanned ≤ f.window.length
  request_iff : f.request.isSome = true ↔ f.phase = .ready
  promised : f.Promised f.phase

theorem length_le_of_start {m : Method} (hstart : octets <+: opening m)
    (hopen : octets ≠ opening m) : octets.length ≤ 7 := by
  have hopening : ∀ m ∈ Method.all, (opening m).length ≤ 8 := by decide
  have hlength := hopening m m.mem_all
  have hle := hstart.length_le
  have hne : octets.length ≠ (opening m).length := fun heq => hopen (hstart.eq_of_length heq)
  omega

theorem Shows.sound (h : f.Shows a) (hrest : a.Resting) : f.Sound := by
  cases h with
  | method =>
      cases hrest with
      | method hstart hopen =>
          exact ⟨Nat.zero_le _, by simp, rfl, length_le_of_start hstart hopen, _, hstart, hopen⟩
  | target =>
      cases hrest with
      | target hopen => exact ⟨le_rfl, by simp, rfl, hopen⟩
  | version =>
      cases hrest with
      | version hopen => exact ⟨Nat.zero_le _, by simp, rfl, hopen⟩
  | headers =>
      cases hrest with
      | headers hstart hopen => exact ⟨Nat.sub_le _ _, by simp, rfl, hstart, hopen⟩
  | body =>
      cases hrest with
      | body hopen => exact ⟨Nat.zero_le _, by simp, rfl, _, rfl, hopen⟩
  | ready => exact ⟨Nat.zero_le _, by simp, rfl⟩
  | malformed => exact ⟨Nat.zero_le _, by simp, rfl⟩

/-- Whatever pieces arrive, no read leaves the window, the request is put together from settled
parts, and the rounds come to an end. Behind them the fields and the octets are as the phase
promises, the request is there exactly in the last phase, and the form answers like the assembly. -/
theorem sound_feedAll (pieces : List Bytes) :
    ∃ f, new.feedAll pieces = .ok (empty.readiness pieces, f) ∧ f.Sound ∧
      f.Shows (empty.feedAll pieces) ∧ (f.finish?.isSome = true ↔ f.phase = .ready) ∧
      f.finish? = (empty.feedAll pieces).finish? := by
  obtain ⟨f, hf, hshows⟩ := (Shows.method (w := .empty)).feedAll resting_empty pieces
  have hsound := hshows.sound (resting_empty.feedAll pieces)
  refine ⟨f, hf, hsound, hshows, ?_, hshows.finish?_eq⟩
  rw [← hsound.request_iff, finish?, Option.isSome_map]

/-- Forms that no pieces lead to can fail, here at the end of a request without a method. -/
example :
    feed ⟨.empty, .body, 0, none, none, none, none, some 0, none⟩ [] = .error .unsettled := rfl

end Form

end HttpExchange
