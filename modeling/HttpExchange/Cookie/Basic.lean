import HttpExchange.Text.Numeral

/-! # Cookies

A cookie with its attributes. Empty domains and paths are absent, and a value that cannot stand
alone is always wrapped in quotes: the type keeps both facts, so every builder does. -/

namespace HttpExchange

/-- Which cross-site requests carry a cookie. -/
inductive SameSite where
  | strict
  | lax
  | none
  deriving DecidableEq, Repr

namespace SameSite

def name : SameSite → Text
  | strict => "Strict".toList
  | lax => "Lax".toList
  | none => "None".toList

/-- The rule that a received spelling stands for; an unknown one is the strictest. -/
def ofAttribute (value : Text) : SameSite :=
  if value.sameLetters "lax".toList then lax
  else if value.sameLetters "none".toList then none
  else strict

end SameSite

namespace Cookie

/-- The characters of a token. No octet of another character's UTF-8 form is one of them. -/
def isTokenChar (c : Char) : Bool := c.isAlphanum || "!#$%&'*+-.^_`|~".toList.contains c

/-- The characters that a value may hold without quotes: visible ASCII except the quote, comma,
semicolon, equals sign and backslash. -/
def isValueChar (c : Char) : Bool :=
  let n := c.toNat
  n == 0x21 || (0x23 ≤ n && n ≤ 0x2B) || (0x2D ≤ n && n ≤ 0x3A) || n == 0x3C ||
    (0x3E ≤ n && n ≤ 0x5B) || (0x5D ≤ n && n ≤ 0x7E)

def needsQuotes (value : Text) : Bool := !value.all isValueChar

end Cookie

/-- A cookie. A lifetime is in seconds and may be negative. -/
structure Cookie where
  name : Text
  value : Text
  domain : Option Text
  path : Option Text
  maxAge : Option Int64
  secure : Bool
  httpOnly : Bool
  sameSite : Option SameSite
  /-- Whether the value is written in quotes. -/
  wrapped : Bool
  domain_ne : domain ≠ some []
  path_ne : path ≠ some []
  wrapped_of_needsQuotes : Cookie.needsQuotes value = true → wrapped = true
  deriving DecidableEq

namespace Cookie

/-- A text, absent if empty. -/
def nonEmpty (s : Text) : Option Text := if s = [] then none else some s

theorem nonEmpty_ne (s : Text) : nonEmpty s ≠ some [] := by
  unfold nonEmpty
  split
  · exact nofun
  · rename_i h
    simpa using h

def new (name value : Text) : Cookie :=
  ⟨name, value, none, none, none, false, false, none, needsQuotes value,
    nofun, nofun, id⟩

def withDomain (c : Cookie) (domain : Text) : Cookie :=
  { c with domain := nonEmpty domain, domain_ne := nonEmpty_ne domain }

def withPath (c : Cookie) (path : Text) : Cookie :=
  { c with path := nonEmpty path, path_ne := nonEmpty_ne path }

def withMaxAge (c : Cookie) (maxAge : Option Int64) : Cookie := { c with maxAge := maxAge }

def withSecure (c : Cookie) (secure : Bool) : Cookie := { c with secure := secure }

def withHttpOnly (c : Cookie) (httpOnly : Bool) : Cookie := { c with httpOnly := httpOnly }

def withSameSite (c : Cookie) (sameSite : SameSite) : Cookie :=
  { c with sameSite := some sameSite }

/-- The cookie with or without quotes; a value that needs them keeps them. -/
def withWrapped (c : Cookie) (wrapped : Bool) : Cookie :=
  { c with
    wrapped := wrapped || needsQuotes c.value
    wrapped_of_needsQuotes := fun h => by simp [h] }

/-- Whether the name is a token, or empty. -/
def hasValidName (c : Cookie) : Bool := c.name.all isTokenChar

/-! ## The header text -/

def renderValue (c : Cookie) : Text := if c.wrapped then '"' :: c.value ++ ['"'] else c.value

/-- The attributes that are present, in their fixed order. -/
def attributes (c : Cookie) : List Text :=
  (c.path.map ("Path=".toList ++ ·)).toList ++
  (c.domain.map ("Domain=".toList ++ ·)).toList ++
  (c.maxAge.map fun n => "Max-Age=".toList ++ Numeral.ofInt n.toInt).toList ++
  (if c.secure then ["Secure".toList] else []) ++
  (if c.httpOnly then ["HttpOnly".toList] else []) ++
  (c.sameSite.map fun rule => "SameSite=".toList ++ rule.name).toList

def render (c : Cookie) : Text :=
  c.name ++ '=' :: c.renderValue ++ c.attributes.flatMap fun a => ';' :: ' ' :: a

end Cookie

end HttpExchange
