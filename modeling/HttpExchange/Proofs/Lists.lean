import Mathlib.Data.List.Forall2
import Mathlib.Data.List.Infix

/-! # Lists

What is used of lists everywhere, and says nothing of what they hold: folds of which the last
element counts, elements that are read one by one, lists that lie in others, and places. -/

namespace HttpExchange

/-! ## Folds and options -/

/-- What each step replaces or keeps is in the end what the last step that replaces it has put
there. -/
theorem foldl_eq_getLast? {σ α β γ : Type} {step : σ → α → σ} (view : σ → β)
    (value? : α → Option γ) (put : γ → β)
    (h : ∀ s a, view (step s a) = ((value? a).map put).getD (view s)) (as : List α) (s : σ) :
    view (as.foldl step s) = ((as.filterMap value?).getLast?.map put).getD (view s) := by
  induction as generalizing s with
  | nil => rfl
  | cons a as ih =>
      rw [List.foldl_cons, ih, h]
      cases hv : value? a with
      | none => simp [hv]
      | some v =>
          rw [List.filterMap_cons_some hv, List.getLast?_cons]
          cases (as.filterMap value?).getLast? <;> rfl

theorem filterMap_toList {α β : Type} (o : Option α) (f : α → Option β) :
    o.toList.filterMap f = (o.bind f).toList := by
  cases o with
  | none => rfl
  | some a => cases h : f a <;> simp [h]

theorem getLast?_toList {α : Type} (o : Option α) : o.toList.getLast? = o := by
  cases o <;> rfl

theorem getD_map_some {α : Type} (o : Option α) : (o.map some).getD none = o := by
  cases o <;> rfl

/-! ## Elements that are read one by one -/

theorem mapM_eq_some_iff {α β : Type} {f : α → Option β} {xs : List α} {ys : List β} :
    xs.mapM f = some ys ↔ List.Forall₂ (fun x y => f x = some y) xs ys := by
  induction xs generalizing ys with
  | nil => simp [eq_comm]
  | cons x xs ih =>
      rw [List.mapM_cons]
      constructor
      · intro h
        obtain ⟨y, hy, h⟩ := Option.bind_eq_some_iff.mp h
        obtain ⟨rest, hrest, h⟩ := Option.bind_eq_some_iff.mp h
        obtain rfl := Option.some.inj h
        exact .cons hy (ih.mp hrest)
      · intro h
        cases h with
        | cons hy hrest => simp [hy, ih.mpr hrest]

theorem mapM_eq_none_iff {α β : Type} {f : α → Option β} {xs : List α} :
    xs.mapM f = none ↔ ∃ x ∈ xs, f x = none := by
  induction xs with
  | nil => simp
  | cons x xs ih =>
      rw [List.mapM_cons]
      cases hx : f x with
      | none => simp [hx]
      | some y =>
          cases hxs : xs.mapM f with
          | none => simpa [hx, hxs] using ih
          | some ys => simpa [hx, hxs] using ih

theorem mem_iff_of_mapM_eq_some {α β : Type} {f : α → Option β} {xs : List α} {ys : List β}
    (h : xs.mapM f = some ys) (y : β) : y ∈ ys ↔ ∃ x ∈ xs, f x = some y := by
  have hall := mapM_eq_some_iff.mp h
  clear h
  induction hall with
  | nil => simp
  | cons hx _ ih => simp [ih, hx, eq_comm]

/-! ## Lists that lie in others -/

theorem infix_intercalate {α : Type} (mark : List α) {part : List α} {parts : List (List α)}
    (h : part ∈ parts) : part <:+: List.intercalate mark parts := by
  induction parts with
  | nil => cases h
  | cons first others ih =>
      cases others with
      | nil =>
          obtain rfl := List.mem_singleton.mp h
          simp
      | cons next others =>
          rw [List.intercalate_cons_cons, List.append_assoc]
          rcases List.mem_cons.mp h with rfl | h
          · exact (List.prefix_append _ _).isInfix
          · exact (ih h).trans (List.suffix_append_of_suffix (List.suffix_append _ _)).isInfix

theorem flatMap_eq_append_intercalate {α : Type} (mark : List α) {parts : List (List α)}
    (h : parts ≠ []) : parts.flatMap (mark ++ ·) = mark ++ List.intercalate mark parts := by
  induction parts with
  | nil => exact absurd rfl h
  | cons part parts ih =>
      cases parts with
      | nil => simp
      | cons next parts =>
          rw [List.flatMap_cons, ih (List.cons_ne_nil next parts), List.intercalate_cons_cons]
          simp only [List.append_assoc]

theorem infix_of_not_mem {α : Type} {a : α} {p front back : List α} (ha : a ∉ front)
    (h : a :: p <:+: front ++ back) : a :: p <:+: back := by
  induction front with
  | nil => exact h
  | cons b front ih =>
      rw [List.mem_cons, not_or] at ha
      rcases List.infix_cons_iff.mp h with h | h
      · exact absurd (List.cons_prefix_cons.mp h).1 ha.1
      · exact ih ha.2 h

theorem not_infix_append_cons {α : Type} {p front back : List α} {c : α} (hc : c ∉ p)
    (hfront : ¬ p <:+: front) (hback : ¬ p <:+: back) : ¬ p <:+: front ++ c :: back := by
  induction front with
  | nil =>
      intro h
      rcases List.infix_cons_iff.mp h with h | h
      · cases p with
        | nil => exact hback List.nil_infix
        | cons d p =>
            obtain ⟨rfl, -⟩ := List.cons_prefix_cons.mp h
            exact hc List.mem_cons_self
      · exact hback h
  | cons d front ih =>
      intro h
      rcases List.infix_cons_iff.mp h with h | h
      · have hwhole : d :: front ++ [c] <+: d :: (front ++ c :: back) := ⟨back, by simp⟩
        rcases List.prefix_or_prefix_of_prefix h hwhole with h | h
        · rcases List.prefix_concat_iff.mp h with rfl | h
          · simp at hc
          · exact hfront h.isInfix
        · exact hc (h.subset (by simp))
      · exact ih (fun hin => hfront (List.infix_cons hin)) h

theorem not_infix_cons {α : Type} {p back : List α} {c : α} (hc : c ∉ p) (hback : ¬ p <:+: back) :
    ¬ p <:+: c :: back := by
  have hfront : ¬ p <:+: [] := fun hin => hback (hin.trans List.nil_infix)
  exact not_infix_append_cons hc hfront hback

theorem not_infix_append_flatMap {α : Type} {p front : List α} {parts : List (List α)} {mark : α}
    (hmark : mark ∉ p) (hfront : ¬ p <:+: front) (hparts : ∀ part ∈ parts, ¬ p <:+: part) :
    ¬ p <:+: front ++ parts.flatMap (mark :: ·) := by
  induction parts generalizing front with
  | nil => simpa using hfront
  | cons part parts ih =>
      have hrest := ih (hparts part List.mem_cons_self) fun q hq =>
        hparts q (List.mem_cons_of_mem part hq)
      exact not_infix_append_cons hmark hfront hrest

/-! ## Places -/

theorem getElem?_replaced {α : Type} {front others : List α} {x y z : α} {i : Nat}
    (h : (front ++ y :: others)[i]? = some z) :
    i = front.length ∧ z = y ∨ i ≠ front.length ∧ (front ++ x :: others)[i]? = some z := by
  by_cases hi : i = front.length
  · subst hi
    simpa [eq_comm] using h
  · have hset : front ++ y :: others = (front ++ x :: others).set front.length y := by simp
    rw [hset, List.getElem?_set_ne (Ne.symm hi)] at h
    exact .inr ⟨hi, h⟩

theorem getElem?_concat_cases {α : Type} {front : List α} {y z : α} {i : Nat}
    (h : (front ++ [y])[i]? = some z) : front[i]? = some z ∨ i = front.length ∧ z = y := by
  rcases Nat.lt_or_ge i front.length with hlt | hge
  · rw [List.getElem?_append_left hlt] at h
    exact .inl h
  · rw [List.getElem?_append_right hge, List.getElem?_singleton] at h
    split at h
    · rename_i hzero
      exact .inr ⟨by omega, (Option.some.inj h).symm⟩
    · cases h

end HttpExchange
