import HttpExchange.Text.Quoted
import HttpExchange.Text.Utf8

/-! # Request methods

The nine methods, their spelling, and the reader that accepts exactly these spellings. -/

namespace HttpExchange

inductive Method where
  | get
  | post
  | put
  | delete
  | head
  | patch
  | trace
  | options
  | connect
  deriving DecidableEq, Repr

namespace Method

/-- Every method, in the order in which a reader tries them. -/
def all : List Method := [get, post, put, delete, head, patch, trace, options, connect]

/-- The token that stands for a method on the wire. -/
def name : Method → Text
  | get => "GET".toList
  | post => "POST".toList
  | put => "PUT".toList
  | delete => "DELETE".toList
  | head => "HEAD".toList
  | patch => "PATCH".toList
  | trace => "TRACE".toList
  | options => "OPTIONS".toList
  | connect => "CONNECT".toList

def octets (m : Method) : Bytes := Utf8.encode m.name

/-- A text that is the token of no method. -/
structure Unrecognized where
  text : Text
  deriving DecidableEq, Repr

def Unrecognized.message (e : Unrecognized) : Text :=
  "unrecognized HTTP method: ".toList ++ Quoted.render e.text

/-- The method with this token; the case of letters counts. -/
def ofName (s : Text) : Except Unrecognized Method :=
  match all.find? fun m => m.name == s with
  | some m => .ok m
  | none => .error ⟨s⟩

theorem mem_all (m : Method) : m ∈ all := by cases m <;> decide

theorem name_injective {m n : Method} (h : m.name = n.name) : m = n := by
  cases m <;> cases n <;> first | rfl | exact absurd h (by decide)

/-- Reading undoes spelling. -/
theorem ofName_name (m : Method) : ofName m.name = .ok m := by cases m <;> rfl

end Method

end HttpExchange
