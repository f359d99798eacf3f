import HttpExchange.Calendar.Civil
import HttpExchange.Text.Blank

/-! # Date formats

A format is a list of items: fields of a date, marks, and gaps. A field skips blanks in front of
it, and a gap takes any blanks, also none. -/

namespace HttpExchange.DateFormat

/-- A part of a date that a format can ask for. -/
inductive Field where
  | day
  | monthName
  | shortYear
  | year
  | hour
  | minute
  | second
  deriving DecidableEq, Repr

inductive Item where
  | field (f : Field)
  | mark (c : Char)
  | gap
  deriving DecidableEq, Repr

def monthNames : List Text :=
  ["jan".toList, "feb".toList, "mar".toList, "apr".toList, "may".toList, "jun".toList,
    "jul".toList, "aug".toList, "sep".toList, "oct".toList, "nov".toList, "dec".toList]

/-- One to `width` digits and the text behind them. -/
def readDigits (width : Nat) (s : Text) : Option (Nat × Text) :=
  let digits := (s.take width).takeWhile Char.isDigit
  if digits.isEmpty then none else some (Nat.ofDigitChars 10 digits 0, s.drop digits.length)

/-- A year of one to four digits, or of any number of digits behind a sign. -/
def readYear (s : Text) : Option (Int × Text) :=
  match s with
  | '-' :: rest => (readDigits rest.length rest).map fun (n, rest) => (-(n : Int), rest)
  | '+' :: rest => (readDigits rest.length rest).map fun (n, rest) => ((n : Int), rest)
  | _ => (readDigits 4 s).map fun (n, rest) => ((n : Int), rest)

/-- The number of the month whose name comes first; the case of letters does not count. -/
def readMonthName (s : Text) : Option (Nat × Text) :=
  (monthNames.findIdx? fun name => name.sameLetters (s.take 3)).map fun i => (i + 1, s.drop 3)

/-- The year of two digits: of this century below 70, of the last one from there on. -/
def centuryOf (n : Nat) : Int := if n < 70 then 2000 + n else 1900 + n

/-- A field is read into its place. -/
def Field.read (f : Field) (c : Civil) (s : Text) : Option (Civil × Text) :=
  match f with
  | day => (readDigits 2 s.trimStart).map fun (n, rest) => ({ c with day := n }, rest)
  | monthName => (readMonthName s).map fun (n, rest) => ({ c with month := n }, rest)
  | shortYear =>
    (readDigits 2 s.trimStart).map fun (n, rest) => ({ c with year := centuryOf n }, rest)
  | year => (readYear s.trimStart).map fun (n, rest) => ({ c with year := n }, rest)
  | hour => (readDigits 2 s.trimStart).map fun (n, rest) => ({ c with hour := n }, rest)
  | minute => (readDigits 2 s.trimStart).map fun (n, rest) => ({ c with minute := n }, rest)
  | second => (readDigits 2 s.trimStart).map fun (n, rest) => ({ c with second := n }, rest)

def Item.read (item : Item) (c : Civil) (s : Text) : Option (Civil × Text) :=
  match item with
  | field f => f.read c s
  | mark m =>
    match s with
    | x :: rest => if x = m then some (c, rest) else none
    | [] => none
  | gap => some (c, s.trimStart)

/-- The items are read one after the other and use up the text. -/
def readFrom : List Item → Civil → Text → Option Civil
  | [], c, s => if s.isEmpty then some c else none
  | item :: items, c, s => (item.read c s).bind fun (c, rest) => readFrom items c rest

def read (format : List Item) (s : Text) : Option Instant :=
  (readFrom format ⟨0, 0, 0, 0, 0, 0⟩ s).bind Civil.toInstant?

end HttpExchange.DateFormat
