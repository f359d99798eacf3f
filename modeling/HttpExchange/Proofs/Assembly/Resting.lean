import HttpExchange.Proofs.Assembly.Malformed

/-! # Between two pieces

An assembly reads on as long as it can. What it holds when it waits for the next piece does
therefore not decide the part that is being read, and a search has ruled out all that it has seen.
Every piece leaves an assembly so, whatever it holds and however far it gets. -/

namespace HttpExchange.Assembly

/-- The octets that are held leave the next part open. -/
inductive Resting : Assembly → Prop where
  | method {w m} (hstart : w.toList <+: opening m) (hopen : w.toList ≠ opening m) :
      Resting ⟨w, .method⟩
  | target {w m} (hopen : Unbroken w.toList) : Resting ⟨w, .target m w.length⟩
  | version {w m t} (hopen : w.length < 10) : Resting ⟨w, .version m t⟩
  | headers {w m t} (hstart : crlf <+: w.toList)
      (hopen : ∀ i, ¬ Window.Occurs terminator w.toList i) :
      Resting ⟨w, .headers m t (w.length - 3)⟩
  | body {w m t h n} (hopen : w.length < n) : Resting ⟨w, .body m t h n⟩
  | ready {w r} : Resting ⟨w, .ready r⟩
  | malformed {w m} : Resting ⟨w, .malformed m⟩

theorem resting_empty : Resting empty :=
  .method (m := .get) List.nil_prefix (by decide)

theorem unbroken_iff_not_holdsAt {octets : Bytes} :
    Unbroken octets ↔ ∀ i, ¬ Window.HoldsAt endsTarget octets i := by
  simp only [unbroken_iff, List.forall_mem_iff_getElem, Window.holdsAt_iff_getElem, not_exists,
    Bool.not_eq_true]

/-! ## Each part -/

theorem resting_readBody (m : Method) (t : Text) (h : Headers) (n : Nat) (w : Window) :
    Resting (readBody m t h n w) := by
  by_cases hn : n ≤ w.length
  · simp only [readBody, Window.splitTo?, if_pos hn]
    exact .ready
  · simp only [readBody, Window.splitTo?, if_neg hn]
    exact .body (Nat.lt_of_not_le hn)

theorem resting_readHeaders {m : Method} {t : Text} {w : Window} {scanned : Nat}
    (hstart : crlf <+: w.toList)
    (hruled : ∀ i < scanned, ¬ Window.Occurs terminator w.toList i) :
    Resting (readHeaders m t w scanned) := by
  cases hfind : w.find? terminator scanned with
  | none =>
      have hrest := (Window.find?_eq_none_iff (by decide)).mp hfind
      simp only [readHeaders, hfind]
      refine .headers hstart fun i => ?_
      rcases Nat.lt_or_ge i scanned with hlt | hge
      · exact hruled i hlt
      · exact hrest i hge
  | some stop =>
      simp only [readHeaders, hfind]
      cases (Utf8.decode? (w.toList.take stop)).bind Headers.parseBlock? with
      | none => exact .malformed
      | some headers =>
          cases hf : headers.framing with
          | contradictory => simpa only [hf] using .malformed
          | bodiless => simpa only [hf] using .ready
          | sized length => simpa only [hf] using resting_readBody m t headers length _

theorem resting_readVersion (m : Method) (t : Text) (w : Window) :
    Resting (readVersion m t w) := by
  rcases w with ⟨octets⟩
  by_cases hprefix : versionLine <+: octets
  · obtain ⟨later, rfl, hopened⟩ := versionLine_prefix_iff.mp hprefix
    rw [readVersion_of_opened hopened]
    exact resting_readHeaders hopened fun i hi => absurd hi (Nat.not_lt_zero i)
  · rw [readVersion_of_unopened hprefix]
    split
    · rename_i hshort
      exact .version hshort
    · exact .malformed

theorem resting_readTarget {m : Method} {w : Window} {scanned : Nat}
    (hruled : ∀ i < scanned, ¬ Window.HoldsAt endsTarget w.toList i) :
    Resting (readTarget m w scanned) := by
  cases hfind : w.findWhere? endsTarget scanned with
  | none =>
      have hrest := Window.findWhere?_eq_none_iff.mp hfind
      simp only [readTarget, hfind]
      refine .target (unbroken_iff_not_holdsAt.mpr fun i => ?_)
      rcases Nat.lt_or_ge i scanned with hlt | hge
      · exact hruled i hlt
      · exact hrest i hge
  | some stop =>
      simp only [readTarget, hfind]
      split
      · cases Utf8.decode? (w.toList.take stop) with
        | none => exact .malformed
        | some target => exact resting_readVersion m target _
      · exact .malformed

theorem resting_readMethod (w : Window) : Resting (readMethod w) := by
  by_cases hopen : ∃ m, opening m <+: w.toList
  · obtain ⟨m, hm⟩ := hopen
    rw [readMethod_of_opening hm]
    exact resting_readTarget fun i hi => absurd hi (Nat.not_lt_zero i)
  · have hno : ∀ m, ¬ opening m <+: w.toList := fun m hm => hopen ⟨m, hm⟩
    by_cases hstart : ∃ m, w.toList <+: opening m
    · obtain ⟨m, hm⟩ := hstart
      rw [readMethod_of_start hno ⟨m, hm⟩]
      exact .method hm fun heq => hno m (heq ▸ List.prefix_rfl)
    · rw [readMethod_of_refused hno hstart]
      exact .malformed

/-! ## Any pieces -/

theorem Resting.feed {a : Assembly} (h : Resting a) (piece : Bytes) : Resting (a.feed piece) := by
  cases h with
  | method => exact resting_readMethod _
  | @target w m hopen =>
      refine resting_readTarget fun i hi => ?_
      rw [Window.toList_extend, Window.holdsAt_append_iff piece hi]
      exact unbroken_iff_not_holdsAt.mp hopen i
  | version => exact resting_readVersion _ _ _
  | @headers w m t hstart hopen =>
      refine resting_readHeaders (hstart.trans (List.prefix_append _ _)) fun i hi => ?_
      have hfits : i + terminator.length ≤ w.toList.length := by
        have hlength : terminator.length = 4 := rfl
        rw [Window.length] at hi
        omega
      rw [Window.toList_extend, Window.occurs_append_iff piece hfits]
      exact hopen i
  | body => exact resting_readBody _ _ _ _ _
  | ready => exact .ready
  | malformed => exact .malformed

theorem Resting.feedAll {a : Assembly} (h : Resting a) (pieces : List Bytes) :
    Resting (a.feedAll pieces) := by
  induction pieces generalizing a with
  | nil => exact h
  | cons piece pieces ih => exact ih (h.feed piece)

end HttpExchange.Assembly
