import HttpExchange.Calendar.Format
import HttpExchange.Text.Split

/-! # Dates of HTTP

The four notations of dates that cookies bring. The weekday in front is skipped and not compared
with the date. A comma tells the notations that put the day first from the one that puts the
month first. -/

namespace HttpExchange.HttpDate

open DateFormat

def clock : List Item :=
  [.field .hour, .mark ':', .field .minute, .mark ':', .field .second]

/-- As in `06 Nov 1994 08:49:37`. -/
def spaced : List Item :=
  [.field .day, .gap, .field .monthName, .gap, .field .year, .gap] ++ clock

/-- As in `06-Nov-94 08:49:37`. -/
def hyphenatedShort : List Item :=
  [.field .day, .mark '-', .field .monthName, .mark '-', .field .shortYear, .gap] ++ clock

/-- As in `06-Nov-1994 08:49:37`. -/
def hyphenated : List Item :=
  [.field .day, .mark '-', .field .monthName, .mark '-', .field .year, .gap] ++ clock

/-- As in `Nov 6 08:49:37 1994`. -/
def monthFirst : List Item :=
  [.field .monthName, .gap, .field .day, .gap] ++ clock ++ [.gap, .field .year]

/-- The formats behind a comma, in the order in which they are tried. Two digits of a year come
before four, as a year of four may also have two. -/
def afterComma : List (List Item) := [spaced, hyphenatedShort, hyphenated]

def dropZone (s : Text) : Text :=
  match Text.dropSuffix? " GMT".toList s with
  | some rest => rest
  | none => (Text.dropSuffix? " UTC".toList s).getD s

/-- The point of time that a date denotes; none if no notation fits. -/
def parse? (s : Text) : Option Instant :=
  let s := s.singleSpaced
  match Text.splitOnce? ',' s with
  | some (_, date) => afterComma.findSome? fun format => read format (dropZone date.trim)
  | none => (Text.splitOnce? ' ' s).bind fun (_, date) => read monthFirst date

end HttpExchange.HttpDate
