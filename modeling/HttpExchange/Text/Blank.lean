import HttpExchange.Text.Split

/-! # Blank characters

The characters with the Unicode property `White_Space`, and the three operations that look at
them: trimming at the front, trimming at both ends, and cutting a text into words. -/

namespace HttpExchange.Text

/-- The property `White_Space` of the Unicode standard. -/
def isBlank (c : Char) : Bool :=
  let n := c.toNat
  (0x09 ≤ n && n ≤ 0x0D) || n == 0x20 || n == 0x85 || n == 0xA0 || n == 0x1680 ||
    (0x2000 ≤ n && n ≤ 0x200A) || n == 0x2028 || n == 0x2029 || n == 0x202F || n == 0x205F ||
    n == 0x3000

def trimStart (s : Text) : Text := s.dropWhile isBlank

def trimEnd (s : Text) : Text := (s.reverse.dropWhile isBlank).reverse

def trim (s : Text) : Text := s.trimStart.trimEnd

theorem trimStart_eq_self_iff {s : Text} :
    s.trimStart = s ↔ ∀ c ∈ s.head?, isBlank c = false := by
  cases s with
  | nil => simp [trimStart]
  | cons c rest =>
      simp only [trimStart, List.dropWhile_cons, List.head?_cons, Option.mem_def,
        Option.some.injEq, forall_eq']
      constructor
      · intro h
        by_cases hc : isBlank c = true
        · rw [if_pos hc] at h
          have : (rest.dropWhile isBlank).length ≤ rest.length :=
            (List.dropWhile_sublist isBlank).length_le
          rw [h, List.length_cons] at this
          omega
        · simpa using hc
      · intro h
        simp [h]

@[simp] theorem trimStart_trimStart (s : Text) : s.trimStart.trimStart = s.trimStart := by
  rw [trimStart_eq_self_iff]
  intro c hc
  have := List.head?_dropWhile_not isBlank s
  rw [trimStart, Option.mem_def] at hc
  simpa [hc] using this

theorem reverse_trimEnd (s : Text) : s.trimEnd.reverse = trimStart s.reverse := by
  simp [trimEnd, trimStart]

@[simp] theorem trimEnd_trimEnd (s : Text) : s.trimEnd.trimEnd = s.trimEnd := by
  rw [← List.reverse_inj, reverse_trimEnd, reverse_trimEnd, trimStart_trimStart]

/-- The maximal runs of characters that are not blank. -/
def words (s : Text) : List Text := (s.splitWhere isBlank).filter fun w => !w.isEmpty

/-- The words of a text, one space between neighbours. -/
def singleSpaced (s : Text) : Text := List.intercalate [' '] s.words

end HttpExchange.Text
