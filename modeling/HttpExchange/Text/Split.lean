import HttpExchange.Text.Basic

/-! # Cutting a text at a mark

`splitOnce?` cuts at the first occurrence of a character and `splitAll` at every occurrence.
Nothing but the marks is lost: the parts joined by the mark are the text. -/

namespace HttpExchange.Text

/-- The parts before and after the first `mark`; none without one. -/
def splitOnce? (mark : Char) : Text → Option (Text × Text)
  | [] => none
  | c :: rest =>
    if c = mark then some ([], rest)
    else (splitOnce? mark rest).map fun (before, after) => (c :: before, after)

/-- The parts between the characters that satisfy `p`, empty ones included. -/
def splitWhere (p : Char → Bool) : Text → List Text
  | [] => [[]]
  | c :: rest => if p c then [] :: splitWhere p rest else (splitWhere p rest).modifyHead (c :: ·)

/-- The parts between the occurrences of `mark`, empty ones included. -/
def splitAll (mark : Char) (s : Text) : List Text := splitWhere (· == mark) s

/-- The text without its ending `tail`; none if it does not end so. -/
def dropSuffix? (tail s : Text) : Option Text :=
  if tail.isSuffixOf s then some (s.take (s.length - tail.length)) else none

/-- A cut is at the first mark: the part before has none, and joining restores the text. -/
theorem splitOnce?_eq_some_iff {mark : Char} {s before after : Text} :
    splitOnce? mark s = some (before, after) ↔
      s = before ++ mark :: after ∧ mark ∉ before := by
  induction s generalizing before with
  | nil => simp [splitOnce?]
  | cons c rest ih =>
      by_cases h : c = mark
      · subst h
        cases before with
        | nil => simp [splitOnce?]
        | cons d before =>
            simp only [splitOnce?, if_true, Option.some.injEq, Prod.mk.injEq,
              List.cons_append, List.cons.injEq, List.mem_cons, not_or]
            constructor
            · rintro ⟨h, -⟩
              exact absurd h.symm (by simp)
            · rintro ⟨⟨h, -⟩, h', -⟩
              exact absurd h h'
      · cases before with
        | nil => simp [splitOnce?, h]
        | cons d before =>
            simp only [splitOnce?, h, if_false, Option.map_eq_some_iff, Prod.exists,
              Prod.mk.injEq, List.cons.injEq, List.cons_append, List.mem_cons, not_or]
            constructor
            · rintro ⟨a, b, hs, ⟨rfl, rfl⟩, rfl⟩
              have := ih.1 hs
              exact ⟨⟨rfl, this.1⟩, fun e => h e.symm, this.2⟩
            · rintro ⟨⟨rfl, hr⟩, -, hb⟩
              exact ⟨before, after, ih.2 ⟨hr, hb⟩, ⟨rfl, rfl⟩, rfl⟩

/-- No cut exactly when the mark is absent. -/
theorem splitOnce?_eq_none_iff {mark : Char} {s : Text} :
    splitOnce? mark s = none ↔ mark ∉ s := by
  induction s with
  | nil => simp [splitOnce?]
  | cons c rest ih =>
      by_cases h : c = mark
      · simp [splitOnce?, h]
      · simp [splitOnce?, h, ih, Ne.symm h]

@[simp] theorem splitWhere_ne_nil (p : Char → Bool) (s : Text) : splitWhere p s ≠ [] := by
  induction s with
  | nil => simp [splitWhere]
  | cons c rest ih =>
      rw [splitWhere]
      split
      · simp
      · cases h : splitWhere p rest with
        | nil => exact absurd h ih
        | cons part parts => simp

/-- No part holds a character that was cut at. -/
theorem not_of_mem_splitWhere {p : Char → Bool} {s part : Text} (h : part ∈ splitWhere p s) :
    ∀ c ∈ part, p c = false := by
  induction s generalizing part with
  | nil => simp_all [splitWhere]
  | cons c rest ih =>
      rw [splitWhere] at h
      split at h
      · rcases List.mem_cons.1 h with rfl | h
        · simp
        · exact ih h
      · rename_i hc
        cases hparts : splitWhere p rest with
        | nil => exact absurd hparts (splitWhere_ne_nil p rest)
        | cons first parts =>
            rw [hparts] at h ih
            rcases List.mem_cons.1 h with rfl | h
            · intro d hd
              rcases List.mem_cons.1 hd with rfl | hd
              · simpa using hc
              · exact ih List.mem_cons_self d hd
            · exact ih (List.mem_cons_of_mem _ h)

/-- A text without a place to cut is one part. -/
theorem splitWhere_of_forall {p : Char → Bool} {s : Text} (h : ∀ c ∈ s, p c = false) :
    splitWhere p s = [s] := by
  induction s with
  | nil => rfl
  | cons c rest ih =>
      rw [splitWhere, h c List.mem_cons_self, ih fun d hd => h d (List.mem_cons_of_mem _ hd)]
      rfl

/-- The part before the first place to cut comes first. -/
theorem splitWhere_append_cons {p : Char → Bool} {front : Text} {c : Char} (rest : Text)
    (h : ∀ d ∈ front, p d = false) (hc : p c = true) :
    splitWhere p (front ++ c :: rest) = front :: splitWhere p rest := by
  induction front with
  | nil => simp [splitWhere, hc]
  | cons d front ih =>
      rw [List.cons_append, splitWhere, h d List.mem_cons_self,
        ih fun e he => h e (List.mem_cons_of_mem _ he)]
      rfl

theorem not_mem_of_mem_splitAll {mark : Char} {s part : Text} (h : part ∈ splitAll mark s) :
    mark ∉ part := fun hm => by simpa using not_of_mem_splitWhere h mark hm

/-- The parts, joined by the mark, are the text. -/
theorem intercalate_splitAll (mark : Char) (s : Text) :
    List.intercalate [mark] (splitAll mark s) = s := by
  induction s with
  | nil => rfl
  | cons c rest ih =>
      rw [splitAll] at ih
      rw [splitAll, splitWhere]
      cases h : splitWhere (· == mark) rest with
      | nil => exact absurd h (splitWhere_ne_nil _ rest)
      | cons part parts =>
          rw [h] at ih
          by_cases hc : c = mark
          · simp [hc, ih]
          · cases parts <;> simp_all

end HttpExchange.Text
