import HttpExchange.Proofs.Backoff.Interval

/-! # Stops

A campaign begins when a policy is built or reset. A policy stops exactly while its clock shows more
than the allowed time since then, and a stop leaves no trace: it stops again until the clock goes
back or a new campaign begins. That one is the campaign of a new policy, for of the old one only the
state of the source is left. -/

namespace HttpExchange.Backoff

/-- When the call begins a campaign. -/
def Call.beginning? : Call → Option UInt64
  | next _ => none
  | reset now => some now

/-- When the campaign behind these calls began, to a policy that was built at time `built`. -/
def begun (built : UInt64) (calls : List Call) : UInt64 :=
  (calls.filterMap Call.beginning?).getLast?.getD built

theorem begun_concat_next (built now : UInt64) (calls : List Call) :
    begun built (calls ++ [.next now]) = begun built calls := by
  simp [begun, Call.beginning?]

theorem begun_concat_reset (built now : UInt64) (calls : List Call) :
    begun built (calls ++ [.reset now]) = now := by
  simp [begun, Call.beginning?]

variable {α σ : Type} [Arithmetic α] {config : Config α} {source : σ} {now t : UInt64}

namespace Policy

variable {p : Policy α σ} (draw : σ → α × σ)

/-! ## One call -/

theorem next_of_stop (h : (p.next draw t).1 = .stop) : p.next draw t = (.stop, p) := by
  rcases p.next_cases draw t with ⟨-, hnext⟩ | ⟨-, hnext⟩
  · exact hnext
  · simp [hnext] at h

theorem stop_of_le {t' : UInt64} (h : (p.next draw t).1 = .stop) (hle : t ≤ t') :
    (p.next draw t').1 = .stop := by
  have htimes : t.toNat - p.started.toNat ≤ t'.toNat - p.started.toNat :=
    Nat.sub_le_sub_right (UInt64.le_iff_toNat_le.mp hle) _
  rw [decision_eq_stop_iff] at h ⊢
  exact h.trans_le (Nat.div_le_div_right htimes)

/-! ## Runs -/

theorem started_run (p : Policy α σ) (calls : List Call) :
    (p.run draw calls).started = begun p.started calls := by
  -- from the end, where the last reset is
  induction calls using List.reverseRecOn with
  | nil => rfl
  | append_singleton calls call ih =>
      rw [run_concat]
      cases call with
      | next now =>
          rw [begun_concat_next, ← ih]
          rcases (p.run draw calls).next_cases draw now with ⟨-, h⟩ | ⟨-, h⟩ <;> rw [apply, h]
      | reset now => rw [begun_concat_reset, apply, reset]

/-- As long as the clock does not go back behind a stop, nothing but stops follows, and the policy
stays as it was. -/
theorem stops_of_stop (h : (p.next draw t).1 = .stop) {later : List UInt64}
    (hlater : ∀ s ∈ later, t ≤ s) :
    p.decisions draw (later.map .next) = List.replicate later.length (some .stop) ∧
      p.run draw (later.map .next) = p := by
  induction later with
  | nil => exact ⟨rfl, rfl⟩
  | cons s later ih =>
      have hnext := next_of_stop draw (stop_of_le draw h (hlater s List.mem_cons_self))
      obtain ⟨hdecisions, hrun⟩ := ih fun r hr => hlater r (List.mem_cons_of_mem s hr)
      rw [List.map_cons, decisions, run_cons, decision?, apply, hnext]
      refine ⟨?_, hrun⟩
      rw [hdecisions, List.length_cons, List.replicate_succ]

/-- A reset policy is a new one. -/
theorem build_eq_ok_reset (h : config.Valid) (hconfig : p.config = config) (t : UInt64) :
    build config p.source t = .ok (p.reset t) := by
  refine build_eq_ok_iff.mpr ⟨h, ?_⟩
  rw [reset, start, hconfig]

/-- After any calls a policy stops exactly if more whole milliseconds than allowed have passed since
its campaign began. A stop changes nothing, and stops follow it until the clock goes back or the
policy is reset. From a reset on its decisions are those of a new policy that goes on with the same
source. -/
theorem stop_run (hbuild : build config source now = .ok p) (calls : List Call) (t : UInt64) :
    let q := p.run draw calls
    ((q.next draw t).1 = .stop ↔
        config.maxElapsed.toNat < (t.toNat - (begun now calls).toNat) / 1000000) ∧
      ((q.next draw t).1 = .stop →
        (q.next draw t).2 = q ∧
          ∀ later : List UInt64, (∀ s ∈ later, t ≤ s) →
            q.decisions draw (later.map .next) = List.replicate later.length (some .stop) ∧
              q.run draw (later.map .next) = q) ∧
      ∃ fresh, build config q.source t = .ok fresh ∧
        ∀ later : List Call, p.decisions draw (calls ++ .reset t :: later) =
          p.decisions draw calls ++ none :: fresh.decisions draw later := by
  obtain ⟨hvalid, rfl⟩ := build_eq_ok_iff.mp hbuild
  intro q
  have hconfig : q.config = config := config_run draw (start config source now) calls
  have hstarted : q.started = begun now calls := started_run draw (start config source now) calls
  refine ⟨?_, ?_, q.reset t, build_eq_ok_reset hvalid hconfig t, ?_⟩
  · rw [decision_eq_stop_iff, hconfig, elapsedMillis, hstarted]
  · intro hstop
    exact ⟨congrArg Prod.snd (next_of_stop draw hstop), fun later => stops_of_stop draw hstop⟩
  · intro later
    rw [decisions_append]
    rfl

/-- Three milliseconds are allowed. The campaign begins again at nine, on a clock that was at ten
before. Just under four milliseconds and a clock behind the beginning do not stop it; from thirteen
to the end of the clock it is stopped, and a reset goes on with the source after its three draws. -/
theorem stop_run_after_reset :
    let config : Config (Rounded (.down 10)) := ⟨10, ⟨11 / 10⟩, ⟨1 / 2⟩, 13, 3⟩
    let draw : ℕ → Rounded (.down 10) × ℕ := fun n => (⟨1 / (n + 2)⟩, n + 1)
    let p := start config 0 7000000
    let calls : List Call := [.next 10000000, .reset 9000000, .next 12999999, .next 8000000]
    let q := p.run draw calls
    build config 0 7000000 = .ok p ∧ begun 7000000 calls = 9000000 ∧
      ¬ (q.next draw 12999999).1 = .stop ∧ (q.next draw 13000000).2 = q ∧
      q.decisions draw [.next 13000000, .next 13000001, .next 18446744073709551615] =
        [some .stop, some .stop, some .stop] ∧
      ∃ fresh, build config 3 14000000 = .ok fresh ∧
        ∀ later : List Call, p.decisions draw (calls ++ .reset 14000000 :: later) =
          p.decisions draw calls ++ none :: fresh.decisions draw later := by
  intro config draw p calls q
  have hsound : config.Sound :=
    ⟨by decide, by norm_num [config], by norm_num [config], by norm_num [config], by decide⟩
  have hbuild : build config 0 7000000 = .ok p :=
    build_eq_ok_iff.mpr ⟨Config.valid_iff_sound.mpr hsound, rfl⟩
  have hbegun : begun 7000000 calls = 9000000 := by decide
  have hsource : q.source = 3 := by decide +kernel
  obtain ⟨hearly, -, -⟩ := stop_run draw hbuild calls 12999999
  obtain ⟨hlate, hstopped, -⟩ := stop_run draw hbuild calls 13000000
  obtain ⟨-, -, hfresh⟩ := stop_run draw hbuild calls 14000000
  rw [hbegun] at hearly hlate
  have hstop : (q.next draw 13000000).1 = .stop := hlate.mpr (by decide)
  obtain ⟨hsame, hstops⟩ := hstopped hstop
  rw [hsource] at hfresh
  refine ⟨hbuild, hbegun, fun h => absurd (hearly.mp h) (by decide), hsame, ?_, hfresh⟩
  exact (hstops [13000000, 13000001, 18446744073709551615] (by simp)).1

end Policy

end HttpExchange.Backoff
