import HttpExchange.Http.Headers
import HttpExchange.Proofs.Lists

/-! # Fields of a block

What a block and its fields have to do with each other, said without reading the block, and what
the fields of a request may say about its body. -/

namespace HttpExchange.Headers

/-- A line shows a field: the name ends at the first colon, and blanks behind that colon are not
part of the value. -/
def Shows (line : Text) (field : Text × Text) : Prop :=
  ∃ after : Text, line = field.1 ++ ':' :: after ∧ ':' ∉ field.1 ∧ field.2 = after.trimStart

/-- The lines of a block that hold something. -/
def fieldLines (block : Text) : List Text := (Text.lines block).filter fun line => !line.isEmpty

/-- The field speaks of the length of the body. -/
def Announces (field : Text × Text) : Prop := field.1.sameLetters "content-length".toList = true

/-- No field announces a body, or all that do give the length of this one. -/
def Framed (h : Headers) : Option Bytes → Prop
  | none => ∀ field ∈ h.toList, ¬ Announces field
  | some body =>
    (∃ field ∈ h.toList, Announces field) ∧
      ∀ field ∈ h.toList, Announces field →
        Numeral.unsigned? 64 field.2.trim = some body.length

/-- The framing that announces a body. -/
def Framing.ofBody : Option Bytes → Framing
  | none => .bodiless
  | some body => .sized body.length

theorem parseLine?_eq_some_iff {line : Text} {field : Text × Text} :
    parseLine? line = some field ↔ Shows line field := by
  rcases field with ⟨name, value⟩
  simp only [parseLine?, Option.map_eq_some_iff, Prod.exists, Text.splitOnce?_eq_some_iff, Shows]
  constructor
  · intro h
    rcases h with ⟨before, after, ⟨hline, hcolon⟩, heq⟩
    obtain ⟨rfl, rfl⟩ := Prod.mk.inj heq
    exact ⟨after, hline, hcolon, rfl⟩
  · intro h
    rcases h with ⟨after, hline, hcolon, rfl⟩
    exact ⟨name, after, ⟨hline, hcolon⟩, rfl⟩

/-- A block is accepted with exactly the fields that its lines show. -/
theorem parseBlock?_eq_some_iff {block : Text} {h : Headers} :
    parseBlock? block = some h ↔ List.Forall₂ Shows (fieldLines block) h.toList := by
  rcases h with ⟨fields⟩
  simp only [parseBlock?, Option.map_eq_some_iff, mk.injEq, exists_eq_right, mapM_eq_some_iff,
    parseLine?_eq_some_iff, fieldLines]

/-! ## The length of the body -/

theorem framingOf_eq_bodiless_iff {values : List Text} :
    framingOf values = .bodiless ↔ values = [] := by
  cases values with
  | nil => simp [framingOf]
  | cons value others =>
      rw [framingOf]
      cases bodyLength? value with
      | none => simp
      | some n =>
          simp only
          split <;> simp

theorem framingOf_eq_sized_iff {values : List Text} {n : Nat} :
    framingOf values = .sized n ↔ values ≠ [] ∧ ∀ v ∈ values, bodyLength? v = some n := by
  cases values with
  | nil => simp [framingOf]
  | cons value others =>
      rw [framingOf]
      cases hv : bodyLength? value with
      | none => simp [hv]
      | some k =>
          simp only [List.mem_cons, forall_eq_or_imp, hv, Option.some.injEq, ne_eq, reduceCtorEq,
            not_false_eq_true, true_and]
          split
          · rename_i hall
            simp only [List.all_eq_true, beq_iff_eq] at hall
            constructor
            · intro h
              obtain rfl := Framing.sized.inj h
              exact ⟨rfl, hall⟩
            · intro h
              rw [h.1]
          · rename_i hsome
            simp only [List.all_eq_true, beq_iff_eq] at hsome
            constructor
            · intro h
              cases h
            · intro h
              rcases h with ⟨rfl, hall⟩
              exact absurd hall hsome

theorem mem_getAll_iff {h : Headers} {name value : Text} :
    value ∈ h.getAll name ↔
      ∃ field ∈ h.toList, field.1.sameLetters name = true ∧ field.2 = value := by
  simp only [getAll, List.mem_map, List.mem_filter, and_assoc]

theorem getAll_eq_nil_iff {h : Headers} {name : Text} :
    h.getAll name = [] ↔ ∀ field ∈ h.toList, ¬ field.1.sameLetters name = true := by
  simp only [getAll, List.map_eq_nil_iff, List.filter_eq_nil_iff]

/-- The fields announce the body exactly when their framing is the one of the body. -/
theorem framed_iff {h : Headers} {body : Option Bytes} :
    Framed h body ↔ h.framing = Framing.ofBody body := by
  cases body with
  | none =>
      rw [framing, Framing.ofBody, framingOf_eq_bodiless_iff]
      exact getAll_eq_nil_iff.symm
  | some body =>
      rw [framing, Framing.ofBody, framingOf_eq_sized_iff]
      apply and_congr
      · rw [ne_eq, getAll_eq_nil_iff]
        simp only [Classical.not_forall, not_not, exists_prop]
        rfl
      · simp only [mem_getAll_iff]
        constructor
        · intro hall value hvalue
          rcases hvalue with ⟨field, hfield, hname, rfl⟩
          exact hall field hfield hname
        · intro hall field hfield hname
          exact hall field.2 ⟨field, hfield, hname, rfl⟩

end HttpExchange.Headers
