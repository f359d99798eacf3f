import HttpExchange.Proofs.Headers.Block

/-! # Blocks that are refused

A block has no fields to give when one of its lines lacks a colon, and its fields are of no use
when those that speak of the body's length do not agree on one. Both are said of the lines, so a
block may be refused for more than one reason. -/

namespace HttpExchange.Headers

/-- A block of which some line is no field, or whose fields announce no one length. -/
inductive Spoilt (block : Text) : Prop where
  | colonless {line : Text} (hline : line ∈ fieldLines block) (h : ':' ∉ line)
  | numberless {line : Text} {field : Text × Text} (hline : line ∈ fieldLines block)
      (hshows : Shows line field) (hname : Announces field)
      (h : Numeral.unsigned? 64 field.2.trim = none)
  | contradictory {line line' : Text} {field field' : Text × Text} {n n' : Nat}
      (hline : line ∈ fieldLines block) (hline' : line' ∈ fieldLines block)
      (hshows : Shows line field) (hshows' : Shows line' field')
      (hname : Announces field) (hname' : Announces field')
      (hn : Numeral.unsigned? 64 field.2.trim = some n)
      (hn' : Numeral.unsigned? 64 field'.2.trim = some n') (h : n ≠ n')

/-! ## Fields of the lines -/

theorem parseLine?_eq_none_iff {line : Text} : parseLine? line = none ↔ ':' ∉ line := by
  rw [parseLine?, Option.map_eq_none_iff, Text.splitOnce?_eq_none_iff]

theorem parseBlock?_eq_none_iff {block : Text} :
    parseBlock? block = none ↔ ∃ line ∈ fieldLines block, ':' ∉ line := by
  simp only [parseBlock?, Option.map_eq_none_iff, mapM_eq_none_iff, parseLine?_eq_none_iff,
    fieldLines]

/-- The fields of an accepted block are the ones that its lines show. -/
theorem mem_toList_iff_of_parseBlock? {block : Text} {h : Headers}
    (hparse : parseBlock? block = some h) (field : Text × Text) :
    field ∈ h.toList ↔ ∃ line ∈ fieldLines block, Shows line field := by
  obtain ⟨fields, hfields, rfl⟩ := Option.map_eq_some_iff.mp hparse
  simp only [mem_iff_of_mapM_eq_some hfields, parseLine?_eq_some_iff, fieldLines]

/-! ## The announced length -/

theorem framingOf_eq_contradictory_iff {values : List Text} :
    framingOf values = .contradictory ↔
      (∃ v ∈ values, bodyLength? v = none) ∨
        ∃ v ∈ values, ∃ w ∈ values, ∃ n k,
          bodyLength? v = some n ∧ bodyLength? w = some k ∧ n ≠ k := by
  constructor
  · intro h
    cases values with
    | nil => cases h
    | cons value others =>
        cases hv : bodyLength? value with
        | none => exact .inl ⟨value, List.mem_cons_self, hv⟩
        | some n =>
            simp only [framingOf, hv] at h
            split at h
            · cases h
            · rename_i hall
              obtain ⟨w, hw, hne⟩ : ∃ w ∈ others, bodyLength? w ≠ some n := by simpa using hall
              have hmem := List.mem_cons_of_mem value hw
              cases hlength : bodyLength? w with
              | none => exact .inl ⟨w, hmem, hlength⟩
              | some k =>
                  refine .inr ⟨value, List.mem_cons_self, w, hmem, n, k, hv, hlength, ?_⟩
                  rintro rfl
                  exact hne hlength
  · intro h
    cases hf : framingOf values with
    | contradictory => rfl
    | bodiless =>
        obtain rfl := framingOf_eq_bodiless_iff.mp hf
        simp at h
    | sized length =>
        have hall := (framingOf_eq_sized_iff.mp hf).2
        rcases h with ⟨v, hv, hnone⟩ | ⟨v, hv, w, hw, n, k, hn, hk, hne⟩
        · rw [hall v hv] at hnone
          cases hnone
        · rw [hall v hv] at hn
          rw [hall w hw] at hk
          exact absurd (Option.some.inj (hn.symm.trans hk)) hne

/-- A block is spoilt exactly when it gives no fields, or fields that contradict each other. -/
theorem spoilt_iff {block : Text} :
    Spoilt block ↔ ∀ h, parseBlock? block = some h → h.framing = .contradictory := by
  constructor
  · intro hspoilt h hparse
    have hmem := mem_toList_iff_of_parseBlock? hparse
    rw [framing, framingOf_eq_contradictory_iff]
    cases hspoilt with
    | colonless hline hcolon =>
        rw [parseBlock?_eq_none_iff.mpr ⟨_, hline, hcolon⟩] at hparse
        cases hparse
    | @numberless line field hline hshows hname hnone =>
        have hfield := (hmem field).mpr ⟨line, hline, hshows⟩
        exact .inl ⟨field.2, mem_getAll_iff.mpr ⟨field, hfield, hname, rfl⟩, hnone⟩
    | @contradictory line line' field field' n n' hline hline' hshows hshows' hname hname' hn hn'
        hne =>
        have hfield := (hmem field).mpr ⟨line, hline, hshows⟩
        have hfield' := (hmem field').mpr ⟨line', hline', hshows'⟩
        exact .inr ⟨field.2, mem_getAll_iff.mpr ⟨field, hfield, hname, rfl⟩, field'.2,
          mem_getAll_iff.mpr ⟨field', hfield', hname', rfl⟩, n, n', hn, hn', hne⟩
  · intro h
    cases hparse : parseBlock? block with
    | none =>
        obtain ⟨line, hline, hcolon⟩ := parseBlock?_eq_none_iff.mp hparse
        exact .colonless hline hcolon
    | some headers =>
        have hmem := mem_toList_iff_of_parseBlock? hparse
        have hcontra := h headers hparse
        rw [framing, framingOf_eq_contradictory_iff] at hcontra
        simp only [mem_getAll_iff] at hcontra
        rcases hcontra with ⟨v, ⟨field, hfield, hname, rfl⟩, hnone⟩ |
          ⟨v, ⟨field, hfield, hname, rfl⟩, w, ⟨field', hfield', hname', rfl⟩, n, k, hn, hk, hne⟩
        · obtain ⟨line, hline, hshows⟩ := (hmem field).mp hfield
          exact .numberless hline hshows hname hnone
        · obtain ⟨line, hline, hshows⟩ := (hmem field).mp hfield
          obtain ⟨line', hline', hshows'⟩ := (hmem field').mp hfield'
          exact .contradictory hline hline' hshows hshows' hname hname' hn hk hne

end HttpExchange.Headers
