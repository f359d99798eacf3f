import HttpExchange.Calendar.HttpDate
import HttpExchange.Cookie.Basic
import HttpExchange.Text.Numeral

/-! # Reading cookies

The part before the first semicolon is the pair and decides alone whether there is a cookie. The
parts behind it are attributes: of those with one name the last valid one counts, and those that
cannot be read are skipped. A lifetime in seconds wins over a date of expiry. -/

namespace HttpExchange.Cookie

/-- A value without its quotes and whether it had them. Only commas and ASCII white space may
follow the closing quote. -/
def unquote? (s : Text) : Option (Text × Bool) :=
  match s with
  | '"' :: rest =>
    (Text.splitOnce? '"' rest).bind fun (value, trailing) =>
      if trailing.all fun c => c == ',' || Text.isAsciiBlank c then some (value, true) else none
  | _ => if s.all isValueChar then some (s, false) else none

def parsePair? (s : Text) : Option Cookie := do
  let (name, value) ← Text.splitOnce? '=' s
  if name.trim.all isTokenChar then
    let (value, wrapped) ← unquote? value.trim
    return (new name.trim value).withWrapped wrapped
  else none

/-- What one part behind the pair says. -/
inductive Attribute where
  | expires (date : Instant)
  | maxAge (seconds : Int64)
  | domain (value : Text)
  | path (value : Text)
  | secure
  | httpOnly
  | sameSite (rule : SameSite)
  deriving DecidableEq

def Attribute.ofPair? (name value : Text) : Option Attribute :=
  if name.sameLetters "expires".toList then (HttpDate.parse? value).map expires
  else if name.sameLetters "max-age".toList then (Numeral.signed? value).map maxAge
  else if name.sameLetters "domain".toList then some (domain value)
  else if name.sameLetters "path".toList then some (path value)
  else if name.sameLetters "secure".toList then some secure
  else if name.sameLetters "httponly".toList then some httpOnly
  else if name.sameLetters "samesite".toList then some (sameSite (.ofAttribute value))
  else none

/-- The attribute of one part; a part without an equals sign is all name. -/
def Attribute.parse? (part : Text) : Option Attribute :=
  match Text.splitOnce? '=' part.trim with
  | some (name, value) => ofPair? name.trim value.trim
  | none => ofPair? part.trim []

/-- What has been read of a cookie, the two kinds of lifetime still apart. -/
structure Draft where
  cookie : Cookie
  maxAge : Option Int64
  expires : Option Instant

/-- An attribute takes effect. -/
def Draft.apply (d : Draft) : Attribute → Draft
  | .expires date => { d with expires := some date }
  | .maxAge seconds => { d with maxAge := some seconds }
  | .domain value => { d with cookie := d.cookie.withDomain value }
  | .path value => { d with cookie := d.cookie.withPath value }
  | .secure => { d with cookie := d.cookie.withSecure true }
  | .httpOnly => { d with cookie := d.cookie.withHttpOnly true }
  | .sameSite rule => { d with cookie := d.cookie.withSameSite rule }

/-- The cookie, its lifetime counted from `now` if only a date of expiry tells it. -/
def Draft.finish (d : Draft) (now : Instant) : Cookie :=
  d.cookie.withMaxAge
    (d.maxAge.or (d.expires.map fun date => Int64.ofInt (date.secondsUntil now)))

def parse? (now : Instant) (header : Text) : Option Cookie :=
  match Text.splitAll ';' header with
  | [] => none
  | pair :: parts =>
    (parsePair? pair).map fun cookie =>
      ((parts.filterMap Attribute.parse?).foldl Draft.apply ⟨cookie, none, none⟩).finish now

end HttpExchange.Cookie
