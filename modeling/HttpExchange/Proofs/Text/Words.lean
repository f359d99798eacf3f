import HttpExchange.Proofs.Text.Trim
import Mathlib.Data.List.Basic

/-! # Words

A blank parts the words of a text, and any other run of blanks in its place parts them alike. So
words that are joined by single spaces are read back from the text, however it is spaced. -/

namespace HttpExchange.Text

variable {p : Char → Bool} {s t front back run : Text} {c : Char}

/-! ## Words between blanks -/

theorem splitWhere_append_cons_of (front back : Text) (hc : p c = true) :
    splitWhere p (front ++ c :: back) = splitWhere p front ++ splitWhere p back := by
  induction front with
  | nil => simp [splitWhere, hc]
  | cons d front ih =>
      rw [List.cons_append, splitWhere, splitWhere, ih]
      split
      · rfl
      · cases h : splitWhere p front with
        | nil => exact absurd h (splitWhere_ne_nil p front)
        | cons part parts => rfl

/-- A blank parts the words. -/
theorem words_append_cons (front back : Text) (hc : isBlank c = true) :
    words (front ++ c :: back) = words front ++ words back := by
  rw [words, splitWhere_append_cons_of front back hc, List.filter_append]
  rfl

theorem words_cons (s : Text) (hc : isBlank c = true) : words (c :: s) = words s :=
  words_append_cons [] s hc

/-- Something, and no blank in it. -/
def IsWord (w : Text) : Prop := w ≠ [] ∧ ∀ d ∈ w, isBlank d = false

instance (w : Text) : Decidable (IsWord w) :=
  decidable_of_iff (w ≠ [] ∧ w.all (fun d => !isBlank d) = true) (by simp [IsWord])

theorem IsWord.append_cons {v w : Text} (hv : IsWord v) (hc : isBlank c = false) (hw : IsWord w) :
    IsWord (v ++ c :: w) := by
  refine ⟨by simp, ?_⟩
  intro d hd
  rcases List.mem_append.mp hd with hd | hd
  · exact hv.2 d hd
  · rcases List.mem_cons.mp hd with rfl | hd
    · exact hc
    · exact hw.2 d hd

theorem words_of_isWord {w : Text} (h : IsWord w) : words w = [w] := by
  rw [words, splitWhere_of_forall h.2]
  simp [h.1]

theorem words_append_of_blank (hrun : ∀ d ∈ run, isBlank d = true) (s : Text) :
    words (run ++ s) = words s := by
  induction run with
  | nil => rfl
  | cons d run ih =>
      rw [List.cons_append, words_cons _ (hrun d List.mem_cons_self)]
      exact ih fun e he => hrun e (List.mem_cons_of_mem d he)

theorem words_intercalate (parts : List Text) :
    words (List.intercalate [' '] parts) = parts.flatMap words := by
  induction parts with
  | nil => rfl
  | cons part others ih =>
      cases others with
      | nil => simp
      | cons next others =>
          rw [List.intercalate_cons_cons, List.append_assoc, List.singleton_append,
            words_append_cons _ _ (by decide), ih]
          rfl

theorem flatMap_words {parts : List Text} (h : ∀ w ∈ parts, IsWord w) :
    parts.flatMap words = parts := by
  induction parts with
  | nil => rfl
  | cons w parts ih =>
      rw [List.flatMap_cons, words_of_isWord (h w List.mem_cons_self),
        ih fun v hv => h v (List.mem_cons_of_mem w hv), List.singleton_append]

/-- Words joined by single spaces are single-spaced. -/
theorem singleSpaced_intercalate {parts : List Text} (h : ∀ w ∈ parts, IsWord w) :
    singleSpaced (List.intercalate [' '] parts) = List.intercalate [' '] parts := by
  rw [singleSpaced, words_intercalate, flatMap_words h]

/-! ## A mark between words -/

theorem flatten_splitWhere (p : Char → Bool) (s : Text) :
    (splitWhere p s).flatten = s.filter fun d => !p d := by
  induction s with
  | nil => rfl
  | cons d s ih =>
      rw [splitWhere]
      cases hd : p d with
      | true => simpa [hd] using ih
      | false =>
          cases h : splitWhere p s with
          | nil => exact absurd h (splitWhere_ne_nil p s)
          | cons part parts => simpa [h, hd] using ih

theorem exists_splitWhere_concat (hc : p c = false) (s : Text) :
    ∃ parts last, splitWhere p s = parts ++ [last] ∧
      splitWhere p (s ++ [c]) = parts ++ [last ++ [c]] := by
  induction s with
  | nil => exact ⟨[], [], rfl, by simp [splitWhere, hc]⟩
  | cons d s ih =>
      obtain ⟨parts, last, hs, hconcat⟩ := ih
      rw [List.cons_append, splitWhere, splitWhere, hs, hconcat]
      split
      · exact ⟨[] :: parts, last, rfl, rfl⟩
      · cases parts with
        | nil => exact ⟨[], d :: last, rfl, rfl⟩
        | cons part parts => exact ⟨(d :: part) :: parts, last, rfl, rfl⟩

theorem not_mem_intercalate {parts : List Text} (hc : c ≠ ' ') (h : ∀ part ∈ parts, c ∉ part) :
    c ∉ List.intercalate [' '] parts := by
  induction parts with
  | nil => exact List.not_mem_nil
  | cons part others ih =>
      have hpart := h part List.mem_cons_self
      cases others with
      | nil => simpa using hpart
      | cons next others =>
          have hothers := ih fun q hq => h q (List.mem_cons_of_mem part hq)
          rw [List.intercalate_cons_cons]
          simp [hpart, hothers, hc]

theorem intercalate_append {parts others : List Text} (hparts : parts ≠ [])
    (hothers : others ≠ []) :
    List.intercalate [' '] (parts ++ others) =
      List.intercalate [' '] parts ++ ' ' :: List.intercalate [' '] others := by
  induction parts with
  | nil => exact absurd rfl hparts
  | cons part parts ih =>
      cases parts with
      | nil =>
          obtain ⟨other, rest, rfl⟩ := List.exists_cons_of_ne_nil hothers
          simp
      | cons next parts =>
          rw [List.intercalate_cons_cons, List.append_assoc, ← ih (by simp)]
          simp

theorem intercalate_concat_append (parts : List Text) (last s : Text) :
    List.intercalate [' '] (parts ++ [last ++ s]) =
      List.intercalate [' '] (parts ++ [last]) ++ s := by
  cases parts with
  | nil => simp
  | cons part parts =>
      rw [intercalate_append (by simp) (by simp), intercalate_append (by simp) (by simp)]
      simp

theorem getLast?_intercalate_concat (parts : List Text) {last : Text} (h : last ≠ []) :
    (List.intercalate [' '] (parts ++ [last])).getLast? = last.getLast? := by
  obtain ⟨d, rest, rfl⟩ := List.exists_cons_of_ne_nil h
  cases parts with
  | nil => simp
  | cons part parts =>
      rw [intercalate_append (by simp) (by simp), List.getLast?_append]
      simp [List.getLast?_cons]

/-- Words joined by single spaces have no blanks around them. -/
theorem trim_intercalate {parts : List Text} (h : ∀ w ∈ parts, IsWord w) :
    trim (List.intercalate [' '] parts) = List.intercalate [' '] parts := by
  rw [trim_eq_self_iff]
  constructor
  · cases parts with
    | nil => exact nofun
    | cons w parts =>
        have hw := h w List.mem_cons_self
        obtain ⟨d, rest, rfl⟩ := List.exists_cons_of_ne_nil hw.1
        intro e he
        have heq : d = e := by cases parts <;> simpa using he
        exact heq ▸ hw.2 d List.mem_cons_self
  · rcases List.eq_nil_or_concat parts with rfl | ⟨front, last, rfl⟩
    · exact nofun
    · have hlast := h last (by simp)
      rw [List.concat_eq_append, getLast?_intercalate_concat front hlast.1]
      intro e he
      exact hlast.2 e (List.mem_of_getLast? he)

/-- The first mark of a text is the first one of its words, and what follows it is spaced by
itself. -/
theorem exists_singleSpaced_append_mark (hc : isBlank c = false) (hfront : c ∉ front)
    (hback : words back ≠ []) :
    ∃ before, c ∉ before ∧
      singleSpaced (front ++ c :: ' ' :: back) = before ++ c :: ' ' :: singleSpaced back := by
  obtain ⟨parts, last, hsplit, hconcat⟩ := exists_splitWhere_concat hc front
  let ws := parts.filter fun w => !w.isEmpty
  have hwords : words (front ++ [c]) = ws ++ [last ++ [c]] := by
    rw [words, hconcat, List.filter_append]
    simp [ws]
  have hfree : ∀ w ∈ ws ++ [last], c ∉ w := by
    intro w hw hmem
    have hpart : w ∈ splitWhere isBlank front := by
      rw [hsplit]
      rcases List.mem_append.mp hw with hw | hw
      · exact List.mem_append_left _ (List.mem_of_mem_filter hw)
      · exact List.mem_append_right _ hw
    have hin := List.mem_flatten_of_mem hpart hmem
    rw [flatten_splitWhere] at hin
    exact hfront (List.mem_of_mem_filter hin)
  have hc' : c ≠ ' ' := by
    rintro rfl
    exact absurd hc (by decide)
  refine ⟨List.intercalate [' '] (ws ++ [last]), not_mem_intercalate hc' hfree, ?_⟩
  calc singleSpaced (front ++ c :: ' ' :: back)
      = List.intercalate [' '] (words (front ++ [c]) ++ words back) := by
        rw [singleSpaced, ← words_append_cons _ _ (by decide : isBlank ' ' = true)]
        simp
    _ = List.intercalate [' '] (ws ++ [last ++ [c]]) ++ ' ' :: singleSpaced back := by
        rw [hwords, intercalate_append (by simp) hback, singleSpaced]
    _ = _ := by
        rw [intercalate_concat_append, List.append_assoc, List.singleton_append]

/-! ## Other blanks in place of a space -/

/-- The second text is the first with a run of blanks in place of some of its spaces. -/
inductive Respaced : Text → Text → Prop where
  | nil : Respaced [] []
  | cons {s t : Text} (c : Char) (h : Respaced s t) : Respaced (c :: s) (c :: t)
  | run {s t run : Text} (hne : run ≠ []) (hrun : ∀ d ∈ run, isBlank d = true)
      (h : Respaced s t) : Respaced (' ' :: s) (run ++ t)

theorem Respaced.refl (s : Text) : Respaced s s := by
  induction s with
  | nil => exact .nil
  | cons c s ih => exact .cons c ih

theorem Respaced.append {s' t' : Text} (h : Respaced s t) (h' : Respaced s' t') :
    Respaced (s ++ s') (t ++ t') := by
  induction h with
  | nil => exact h'
  | cons c _ ih => exact .cons c ih
  | run hne hrun _ ih =>
      rw [List.append_assoc]
      exact .run hne hrun ih

theorem respaced_space (hne : run ≠ []) (hrun : run.all isBlank = true) :
    Respaced [' '] run := by
  simpa using Respaced.run hne (List.all_eq_true.mp hrun) .nil

/-- With any text in front, as the blanks may end a word that began there. -/
theorem Respaced.words_append (h : Respaced s t) (front : Text) :
    words (front ++ s) = words (front ++ t) := by
  induction h generalizing front with
  | nil => rfl
  | cons c _ ih => simpa using ih (front ++ [c])
  | run hne hrun _ ih =>
      obtain ⟨d, rest, rfl⟩ := List.exists_cons_of_ne_nil hne
      have hrest := words_append_of_blank fun e he => hrun e (List.mem_cons_of_mem d he)
      rw [words_append_cons _ _ (by decide), List.cons_append,
        words_append_cons _ _ (hrun d List.mem_cons_self), hrest]
      exact congrArg (words front ++ ·) (ih [])

theorem Respaced.singleSpaced_eq (h : Respaced s t) : s.singleSpaced = t.singleSpaced :=
  congrArg (List.intercalate [' ']) (h.words_append [])

end HttpExchange.Text
