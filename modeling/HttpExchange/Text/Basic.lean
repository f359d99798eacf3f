/-! # Text and octets

A text is a list of Unicode scalar values and a wire image is a list of octets. Both are plain
lists, so that splitting, trimming and searching are recursion on the data. Letter case is folded
for ASCII letters only, as the grammars of HTTP ask. -/

namespace HttpExchange

/-- Unicode scalar values in reading order. -/
abbrev Text := List Char

/-- Octets in wire order. -/
abbrev Bytes := List UInt8

namespace Text

/-- ASCII capitals become small letters; every other character stays. -/
def lowercase (s : Text) : Text := s.map Char.toLower

/-- Equality up to the case of ASCII letters. -/
def sameLetters (a b : Text) : Bool := a.lowercase == b.lowercase

theorem sameLetters_iff (a b : Text) : sameLetters a b = true ↔ a.lowercase = b.lowercase := by
  simp [sameLetters]

/-- The white space of ASCII: tab, line feed, form feed, carriage return, space. -/
def isAsciiBlank (c : Char) : Bool :=
  c == '\t' || c == '\n' || c == '\x0c' || c == '\r' || c == ' '

end Text

end HttpExchange
