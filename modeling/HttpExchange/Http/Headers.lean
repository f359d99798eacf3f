import HttpExchange.Text.Blank
import HttpExchange.Text.Lines
import HttpExchange.Text.Numeral

/-! # Header fields

A header list keeps its fields in arrival order, repeated names included, with the names spelt as
they came. Look-up ignores the case of ASCII letters. A block is the text of a header list: one
line for each field, a colon after the name. -/

namespace HttpExchange

/-- Fields in arrival order, each a name and a value. -/
structure Headers where
  toList : List (Text × Text)
  deriving DecidableEq, Repr

namespace Headers

def empty : Headers := ⟨[]⟩

def length (h : Headers) : Nat := h.toList.length

def isEmpty (h : Headers) : Bool := h.toList.isEmpty

/-- One more field, after the others. -/
def insert (h : Headers) (name value : Text) : Headers := ⟨h.toList ++ [(name, value)]⟩

/-- The values of all fields with this name, in order. -/
def getAll (h : Headers) (name : Text) : List Text :=
  (h.toList.filter fun field => field.1.sameLetters name).map Prod.snd

/-- The value of the first field with this name. -/
def get? (h : Headers) (name : Text) : Option Text :=
  (h.toList.find? fun field => field.1.sameLetters name).map Prod.snd

def contains (h : Headers) (name : Text) : Bool :=
  h.toList.any fun field => field.1.sameLetters name

/-- The field on a line: the name ends at the first colon, the value begins after the blanks
behind it. -/
def parseLine? (line : Text) : Option (Text × Text) :=
  (Text.splitOnce? ':' line).map fun (name, value) => (name, value.trimStart)

/-- The fields of a block. Empty lines are skipped; one line without a colon spoils the block. -/
def parseBlock? (block : Text) : Option Headers :=
  ((Text.lines block).filter fun line => !line.isEmpty).mapM parseLine? |>.map Headers.mk

/-- One field as a line with its CRLF. -/
def renderField (field : Text × Text) : Text :=
  field.1 ++ ':' :: ' ' :: field.2 ++ ['\r', '\n']

def render (h : Headers) : Text := h.toList.flatMap renderField

/-- What the fields say about the length of a body. -/
inductive Framing where
  /-- No field announces a body. -/
  | bodiless
  /-- Every announcement is the same number of octets. -/
  | sized (length : Nat)
  /-- An announcement is no number of 64 bits, or two of them differ. -/
  | contradictory
  deriving DecidableEq, Repr

/-- The length that one announcement gives; blanks around it do not count. -/
def bodyLength? (value : Text) : Option Nat := Numeral.unsigned? 64 value.trim

/-- The agreement of a list of announcements. -/
def framingOf : List Text → Framing
  | [] => .bodiless
  | value :: others =>
    match bodyLength? value with
    | none => .contradictory
    | some n => if others.all fun v => bodyLength? v == some n then .sized n else .contradictory

def framing (h : Headers) : Framing := framingOf (h.getAll "content-length".toList)

@[simp] theorem toList_insert (h : Headers) (name value : Text) :
    (h.insert name value).toList = h.toList ++ [(name, value)] := rfl

theorem get?_eq_head? (h : Headers) (name : Text) : h.get? name = (h.getAll name).head? := by
  simp [get?, getAll, List.head?_map, List.head?_filter]

end Headers

end HttpExchange
