import HttpExchange.Proofs.Assembly.Resting

/-! # Searches that are resumed

Octets come in pieces, and a search that found nothing goes on behind the next piece: for a needle
as far back as one may lie across the border, for a kind of octet at the border. Main statement:
`resumable_needle_and_target`, what is found so is what a search of all the octets finds, behind
any number of pieces, and an assembly that remembered nothing would read the same. -/

namespace HttpExchange

namespace Window

/-- What a search finds behind each piece. Where it has found nothing, `resume` tells from which
offset it goes on. -/
def resumed (search : Window → Nat → Option Nat) (resume : Window → Nat) (w : Window)
    (start : Nat) : List Bytes → List (Option Nat)
  | [] => []
  | piece :: pieces =>
    let w := w.extend piece
    let found := search w start
    found :: resumed search resume w (if found.isSome then start else resume w) pieces

/-- What a search of all the octets finds behind each piece. -/
def renewed (search : Window → Nat → Option Nat) (w : Window) : List Bytes → List (Option Nat)
  | [] => []
  | piece :: pieces => search (w.extend piece) 0 :: renewed search (w.extend piece) pieces

/-- A search gives the least offset from its start on at which `P` holds. Behind octets in which `P`
holds nowhere it may be resumed, once or again and again. -/
structure Resumable (search : Window → Nat → Option Nat) (P : Bytes → Nat → Prop)
    (resume : Window → Nat) : Prop where
  least : ∀ w start i, search w start = some i ↔ IsLeast {j | start ≤ j ∧ P w.toList j} i
  nothing : ∀ w start, search w start = none ↔ ∀ j, start ≤ j → ¬ P w.toList j
  once : ∀ w more, (∀ i, ¬ P w.toList i) →
    search (w.extend more) (resume w) = search (w.extend more) 0
  always : ∀ w pieces, (∀ i, ¬ P w.toList i) →
    resumed search resume w (resume w) pieces = renewed search w pieces

/-- Whatever octets enter, nothing is found before `start`. -/
def RuledOut (search : Window → Nat → Option Nat) (w : Window) (start : Nat) : Prop :=
  ∀ more, search (w.extend more) start = search (w.extend more) 0

section

variable {search : Window → Nat → Option Nat} {P : Bytes → Nat → Prop} {resume : Window → Nat}
  {w : Window} {start : Nat}

theorem extend_extend (w : Window) (piece more : Bytes) :
    (w.extend piece).extend more = w.extend (piece ++ more) :=
  congrArg mk (List.append_assoc ..)

theorem RuledOut.extend (h : RuledOut search w start) (piece : Bytes) :
    RuledOut search (w.extend piece) start := by
  intro more
  rw [extend_extend]
  exact h (piece ++ more)

/-- What is ruled out stays so: if nothing was found, up to where the search goes on. -/
theorem RuledOut.resumed_eq (hresume : ∀ w, search w 0 = none → RuledOut search w (resume w))
    (h : RuledOut search w start) (pieces : List Bytes) :
    resumed search resume w start pieces = renewed search w pieces := by
  induction pieces generalizing w start with
  | nil => rfl
  | cons piece pieces ih =>
      have hfound : search (w.extend piece) start = search (w.extend piece) 0 := h piece
      simp only [resumed, renewed, hfound]
      congr 1
      cases hsearch : search (w.extend piece) 0 with
      | some i => exact ih (h.extend piece)
      | none => exact ih (hresume (w.extend piece) hsearch)

theorem Resumable.of_least
    (hleast : ∀ w start i, search w start = some i ↔ IsLeast {j | start ≤ j ∧ P w.toList j} i)
    (hresume : ∀ w, search w 0 = none → RuledOut search w (resume w)) :
    Resumable search P resume := by
  have hnothing : ∀ w start, search w start = none ↔ ∀ j, start ≤ j → ¬ P w.toList j :=
    fun w start => eq_none_iff_of_isLeast_iff (hleast w start)
  have hzero : ∀ w : Window, (∀ i, ¬ P w.toList i) → RuledOut search w (resume w) :=
    fun w hno => hresume w ((hnothing w 0).mpr fun j _ => hno j)
  exact ⟨hleast, hnothing, fun w more hno => hzero w hno more,
    fun w pieces hno => (hzero w hno).resumed_eq hresume pieces⟩

end

/-- A needle that is not in the octets may begin in all of them but its own length, less one. -/
theorem resumable_find? {needle : Bytes} (hn : needle ≠ []) :
    Resumable (fun w => w.find? needle) (Occurs needle)
      fun w => w.length - (needle.length - 1) :=
  .of_least (fun _ _ _ => find?_eq_some_iff hn)
    fun _ hnone more => find?_extend_of_eq_none more hn hnone (Nat.zero_le _)

theorem resumable_findWhere? (p : UInt8 → Bool) :
    Resumable (fun w => w.findWhere? p) (HoldsAt p) length :=
  .of_least (fun _ _ _ => findWhere?_eq_some_iff)
    fun _ hnone more => findWhere?_extend_of_eq_none more hnone (Nat.zero_le _)

end Window

namespace Assembly

/-- An assembly that remembers no offset of a search. -/
def unscanned (a : Assembly) : Assembly :=
  match a.stage with
  | .target m _ => ⟨a.window, .target m 0⟩
  | .headers m t _ => ⟨a.window, .headers m t 0⟩
  | _ => a

/-- The next piece is read alike from the offset that is remembered and from the start. -/
theorem Resting.feed_unscanned {a : Assembly} (h : Resting a) (piece : Bytes) :
    a.unscanned.feed piece = a.feed piece := by
  cases h with
  | @target w m hopen =>
      have hsame := (Window.resumable_findWhere? endsTarget).once w piece
        (unbroken_iff_not_holdsAt.mp hopen)
      change readTarget m (w.extend piece) 0 = readTarget m (w.extend piece) w.length
      rw [readTarget, readTarget, hsame]
  | @headers w m t hstart hopen =>
      have hneedle : terminator ≠ [] := by decide
      have hsame := (Window.resumable_find? hneedle).once w piece hopen
      change (w.extend piece).find? terminator (w.length - 3) = _ at hsame
      change readHeaders m t (w.extend piece) 0 = readHeaders m t (w.extend piece) (w.length - 3)
      rw [readHeaders, readHeaders, hsame]
  | method | version | body | ready | malformed => rfl

theorem Resting.foldl_unscanned {a : Assembly} (h : Resting a) (pieces : List Bytes) :
    pieces.foldl (fun a piece => a.unscanned.feed piece) a = a.feedAll pieces := by
  induction pieces generalizing a with
  | nil => rfl
  | cons piece pieces ih =>
      rw [List.foldl_cons, h.feed_unscanned]
      exact ih (h.feed piece)

/-- A search that is resumed finds what a search from the start finds, for every needle and for the
octets that end a target, whatever pieces come. So an assembly that searched from the start behind
every piece would be the same. -/
theorem resumable_needle_and_target {needle : Bytes} (hn : needle ≠ []) :
    Window.Resumable (fun w => w.find? needle) (Window.Occurs needle)
        (fun w => w.length - (needle.length - 1)) ∧
      Window.Resumable (fun w => w.findWhere? endsTarget) (Window.HoldsAt endsTarget)
        Window.length ∧
      ∀ pieces : List Bytes,
        pieces.foldl (fun a piece => a.unscanned.feed piece) empty = empty.feedAll pieces :=
  ⟨Window.resumable_find? hn, Window.resumable_findWhere? endsTarget, resting_empty.foldl_unscanned⟩

/-- A terminator in four pieces behind half of another one. -/
theorem resumable_terminator_across_pieces :
    let w : Window := ⟨[120, 13, 10, 13]⟩
    let pieces : List Bytes := [[], [13], [10, 13], [10, 71]]
    terminator ≠ [] ∧ (∀ i, ¬ Window.Occurs terminator w.toList i) ∧
      Window.resumed (fun w => w.find? terminator) (fun w => w.length - 3) w 1 pieces =
        [none, none, none, some 4] := by
  intro w pieces
  have hne : terminator ≠ [] := by decide
  have hno : ∀ i, ¬ Window.Occurs terminator w.toList i := by
    intro i
    exact (Window.find?_eq_none_iff hne).mp (by decide : w.find? terminator 0 = none) i i.zero_le
  exact ⟨hne, hno, ((resumable_needle_and_target hne).1.always w pieces hno).trans (by decide)⟩

end Assembly

end HttpExchange
