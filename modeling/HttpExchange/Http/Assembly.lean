import HttpExchange.Http.Request
import HttpExchange.Http.Window

/-! # Assembling a request

An assembly takes octets in pieces of any size and moves through the parts of one request: method,
target, version, header block, body. A part is decided once, its octets then leave the window, and
it is never looked at again. Octets that can no longer become a request make the assembly
malformed, which is final; so is being ready. Main statement: `finish?_feed_empty_length_lt`, each
finished request has taken at least one octet. -/

namespace HttpExchange

/-- The part that is being read, with what the parts before it have settled. A search that found
nothing remembers how many octets it has ruled out. -/
inductive Stage where
  | method
  | target (m : Method) (scanned : Nat)
  | version (m : Method) (target : Text)
  | headers (m : Method) (target : Text) (scanned : Nat)
  | body (m : Method) (target : Text) (headers : Headers) (length : Nat)
  | ready (request : Request)
  | malformed (m : Option Method)
  deriving DecidableEq, Repr

/-- A request in the making: octets not yet settled, and the stage they belong to. -/
structure Assembly where
  window : Window
  stage : Stage
  deriving DecidableEq, Repr

namespace Assembly

/-- The octets of the version and the line break behind it. -/
def versionLine : Bytes := Utf8.encode "HTTP/1.1\r\n".toList

/-- The octets of the version alone. The line break behind it belongs to the header block. -/
def versionLength : Nat := 8

/-- The end of a header block. -/
def terminator : Bytes := [13, 10, 13, 10]

def empty : Assembly := ⟨.empty, .method⟩

/-- A body of the announced length is waited for. -/
def readBody (m : Method) (target : Text) (headers : Headers) (length : Nat) (w : Window) :
    Assembly :=
  match w.splitTo? length with
  | none => ⟨w, .body m target headers length⟩
  | some (body, rest) => ⟨rest, .ready ⟨m, target, Request.http11, headers, some body⟩⟩

/-- The header block ends at the first empty line. A search resumes three octets early, as the
terminator may lie across the border. -/
def readHeaders (m : Method) (target : Text) (w : Window) (scanned : Nat) : Assembly :=
  match w.find? terminator scanned with
  | none => ⟨w, .headers m target (w.length - 3)⟩
  | some stop =>
    match (Utf8.decode? (w.toList.take stop)).bind Headers.parseBlock? with
    | none => ⟨w, .malformed (some m)⟩
    | some headers =>
      match headers.framing with
      | .contradictory => ⟨w, .malformed (some m)⟩
      | .bodiless =>
        ⟨w.consume (stop + 4), .ready ⟨m, target, Request.http11, headers, none⟩⟩
      | .sized length => readBody m target headers length (w.consume (stop + 4))

/-- The version is judged when its whole line can be there. -/
def readVersion (m : Method) (target : Text) (w : Window) : Assembly :=
  if w.length < versionLine.length then ⟨w, .version m target⟩
  else if w.startsWith versionLine then readHeaders m target (w.consume versionLength) 0
  else ⟨w, .malformed (some m)⟩

/-- The octets that can end a target: space, carriage return, line feed. -/
def endsTarget (b : UInt8) : Bool := b == 32 || b == 13 || b == 10

/-- The target ends at a space; a line break in its place is malformed. -/
def readTarget (m : Method) (w : Window) (scanned : Nat) : Assembly :=
  match w.findWhere? endsTarget scanned with
  | none => ⟨w, .target m w.length⟩
  | some stop =>
    if w.get? stop = some 32 then
      match Utf8.decode? (w.toList.take stop) with
      | some target => readVersion m target (w.consume (stop + 1))
      | none => ⟨w, .malformed (some m)⟩
    else ⟨w, .malformed (some m)⟩

/-- The octets that open a request with this method: the token and one space. -/
def opening (m : Method) : Bytes := m.octets ++ [32]

/-- The method is decided by its token and the space behind it. -/
def readMethod (w : Window) : Assembly :=
  match Method.all.find? fun m => w.startsWith (opening m) with
  | some m => readTarget m (w.consume (opening m).length) 0
  | none =>
    if Method.all.any fun m => w.toList.isPrefixOf (opening m) then ⟨w, .method⟩
    else ⟨w, .malformed none⟩

/-- A piece arrives. Behind a finished request it is kept for the next one; a malformed assembly
ignores it. -/
def feed (a : Assembly) (piece : Bytes) : Assembly :=
  let w := a.window.extend piece
  match a.stage with
  | .method => readMethod w
  | .target m scanned => readTarget m w scanned
  | .version m target => readVersion m target w
  | .headers m target scanned => readHeaders m target w scanned
  | .body m target headers length => readBody m target headers length w
  | .ready request => ⟨w, .ready request⟩
  | .malformed m => ⟨a.window, .malformed m⟩

def feedAll (a : Assembly) (pieces : List Bytes) : Assembly := pieces.foldl feed a

def request? (a : Assembly) : Option Request :=
  match a.stage with
  | .ready request => some request
  | _ => none

def isReady (a : Assembly) : Bool := a.request?.isSome

/-- Whether no further octets can make a request. -/
def isMalformed (a : Assembly) : Bool :=
  match a.stage with
  | .malformed _ => true
  | _ => false

/-- The method, from the moment it is decided. -/
def method? (a : Assembly) : Option Method :=
  match a.stage with
  | .method => none
  | .target m _ | .version m _ | .headers m _ _ | .body m _ _ _ => some m
  | .ready request => some request.method
  | .malformed m => m

/-- The finished request and the octets behind it. -/
def finish? (a : Assembly) : Option (Request × Bytes) :=
  a.request?.map fun request => (request, a.window.toList)

theorem length_readBody_le (m : Method) (t : Text) (h : Headers) (n : Nat) (w : Window) :
    (readBody m t h n w).window.length ≤ w.length := by
  unfold readBody Window.splitTo?
  split
  · exact Nat.le_refl _
  · rename_i heq
    split at heq
    · obtain ⟨-, rfl⟩ := Prod.mk.inj (Option.some.inj heq)
      simp
    · cases heq

theorem length_readHeaders_le (m : Method) (t : Text) (w : Window) (s : Nat) :
    (readHeaders m t w s).window.length ≤ w.length := by
  unfold readHeaders
  repeat' split
  all_goals first
    | exact Nat.le_refl _
    | simp
    | exact Nat.le_trans (length_readBody_le ..) (by simp)

theorem length_readVersion_le (m : Method) (t : Text) (w : Window) :
    (readVersion m t w).window.length ≤ w.length := by
  unfold readVersion
  repeat' split
  all_goals first
    | exact Nat.le_refl _
    | exact Nat.le_trans (length_readHeaders_le ..) (by simp)

theorem length_readTarget_le (m : Method) (w : Window) (s : Nat) :
    (readTarget m w s).window.length ≤ w.length := by
  unfold readTarget
  repeat' split
  all_goals first
    | exact Nat.le_refl _
    | exact Nat.le_trans (length_readVersion_le ..) (by simp)

theorem opening_length_pos (m : Method) : 0 < (opening m).length := by simp [opening]

theorem length_readMethod_lt {w : Window} (h : (readMethod w).isReady = true) :
    (readMethod w).window.length < w.length := by
  unfold readMethod at h ⊢
  cases hm : Method.all.find? fun m => w.startsWith (opening m) with
  | some m =>
      have hs : w.startsWith (opening m) = true := by
        simpa using List.find?_some hm
      have hl : (opening m).length ≤ w.length :=
        (List.isPrefixOf_iff_prefix.1 hs).length_le
      have := length_readTarget_le m (w.consume (opening m).length) 0
      have := opening_length_pos m
      simp only [Window.length_consume] at *
      omega
  | none =>
      simp only [hm] at h
      by_cases hp : (Method.all.any fun m => w.toList.isPrefixOf (opening m)) = true
      · rw [if_pos hp] at h
        exact absurd h (by simp [isReady, request?])
      · rw [if_neg hp] at h
        exact absurd h (by simp [isReady, request?])

/-- A request finished from nothing has taken at least one octet. -/
theorem finish?_feed_empty_length_lt {piece rest : Bytes} {r : Request}
    (h : (empty.feed piece).finish? = some (r, rest)) : rest.length < piece.length := by
  obtain ⟨r', hr, heq⟩ := Option.map_eq_some_iff.1 h
  obtain ⟨-, rfl⟩ := Prod.mk.inj heq
  have hready : (readMethod ⟨piece⟩).isReady = true := by
    have : (empty.feed piece) = readMethod ⟨piece⟩ := rfl
    rw [this] at hr
    simp [isReady, hr]
  exact length_readMethod_lt hready

end Assembly

end HttpExchange
