import HttpExchange.Text.Basic

/-! # The window of unread octets

A window holds the octets that arrived and were not consumed yet. Octets enter at the end and
leave at the front; a search may start at any offset. -/

namespace HttpExchange

/-- Octets that arrived and were not consumed yet. -/
structure Window where
  toList : Bytes
  deriving DecidableEq, Repr

namespace Window

def empty : Window := ⟨[]⟩

def length (w : Window) : Nat := w.toList.length

def isEmpty (w : Window) : Bool := w.toList.isEmpty

/-- The octets of `more` enter at the end. -/
def extend (w : Window) (more : Bytes) : Window := ⟨w.toList ++ more⟩

/-- The octet at an offset from the first one held. -/
def get? (w : Window) (i : Nat) : Option UInt8 := w.toList[i]?

def startsWith (w : Window) (front : Bytes) : Bool := front.isPrefixOf w.toList

/-- The least offset at which `needle` occurs in the octets. -/
def occurrence? (needle : Bytes) : Bytes → Option Nat
  | [] => none
  | b :: rest =>
    if needle.isPrefixOf (b :: rest) then some 0
    else (occurrence? needle rest).map (· + 1)

/-- The least offset from `start` on at which `needle` occurs. An empty needle occurs nowhere. -/
def find? (w : Window) (needle : Bytes) (start : Nat) : Option Nat :=
  if needle.isEmpty then none
  else (occurrence? needle (w.toList.drop start)).map (· + start)

/-- The least offset from `start` on whose octet satisfies `p`. -/
def findWhere? (w : Window) (p : UInt8 → Bool) (start : Nat) : Option Nat :=
  ((w.toList.drop start).findIdx? p).map (· + start)

/-- The first `count` octets leave, or all if there are fewer. -/
def consume (w : Window) (count : Nat) : Window := ⟨w.toList.drop count⟩

/-- The first `count` octets and the window without them; none if there are fewer. -/
def splitTo? (w : Window) (count : Nat) : Option (Bytes × Window) :=
  if count ≤ w.length then some (w.toList.take count, w.consume count) else none

@[simp] theorem toList_extend (w : Window) (more : Bytes) :
    (w.extend more).toList = w.toList ++ more := rfl

@[simp] theorem toList_consume (w : Window) (count : Nat) :
    (w.consume count).toList = w.toList.drop count := rfl

@[simp] theorem length_extend (w : Window) (more : Bytes) :
    (w.extend more).length = w.length + more.length := by simp [length]

@[simp] theorem length_consume (w : Window) (count : Nat) :
    (w.consume count).length = w.length - count := by simp [length]

theorem consume_extend {w : Window} {count : Nat} (more : Bytes) (h : count ≤ w.length) :
    (w.extend more).consume count = (w.consume count).extend more :=
  congrArg Window.mk (List.drop_append_of_le_length h)

theorem take_extend {w : Window} {count : Nat} (more : Bytes) (h : count ≤ w.length) :
    (w.extend more).toList.take count = w.toList.take count :=
  List.take_append_of_le_length h

theorem startsWith_iff {w : Window} {front : Bytes} :
    w.startsWith front = true ↔ front <+: w.toList :=
  List.isPrefixOf_iff_prefix

/-- Whether octets begin a list is settled by as many octets of it. -/
theorem prefix_append_iff {front octets : Bytes} (more : Bytes)
    (h : front.length ≤ octets.length) : front <+: octets ++ more ↔ front <+: octets := by
  constructor
  · intro hp
    exact List.prefix_of_prefix_length_le hp (List.prefix_append _ _) h
  · intro hp
    exact hp.trans (List.prefix_append _ _)

theorem startsWith_extend {w : Window} {front : Bytes} (more : Bytes)
    (h : front.length ≤ w.length) : (w.extend more).startsWith front = w.startsWith front := by
  rw [Bool.eq_iff_iff, startsWith_iff, startsWith_iff]
  exact prefix_append_iff more h

end Window

end HttpExchange
