import HttpExchange.Backoff.Policy
import Mathlib.Data.List.DropRight

/-! # Runs of a policy

Everything that can be asked of a policy, one thing after the other. Its clock may show anything at
each of them, an earlier time than before included. -/

namespace HttpExchange.Backoff

/-- What can be asked of a policy, and what its clock shows then. -/
inductive Call where
  | next (now : UInt64)
  | reset (now : UInt64)
  deriving DecidableEq, Repr

/-- The call goes on with the campaign. -/
def Call.continues : Call → Bool
  | next _ => true
  | reset _ => false

/-- How many delays were handed out since the last reset, if calls brought these decisions. -/
def delaysSinceReset (decisions : List (Option Decision)) : ℕ :=
  (decisions.rtakeWhile Option.isSome).countP fun d => d != some .stop

theorem delaysSinceReset_concat_retry (log : List (Option Decision)) (delay : Delay) :
    delaysSinceReset (log ++ [some (.retry delay)]) = delaysSinceReset log + 1 := by
  simp [delaysSinceReset]

theorem delaysSinceReset_concat_stop (log : List (Option Decision)) :
    delaysSinceReset (log ++ [some .stop]) = delaysSinceReset log := by
  simp [delaysSinceReset]

theorem delaysSinceReset_concat_none (log : List (Option Decision)) :
    delaysSinceReset (log ++ [none]) = 0 := by
  simp [delaysSinceReset]

variable {α σ : Type} [Arithmetic α] {config : Config α} {source : σ} {now : UInt64}

namespace Policy

/-- The policy behind a call. -/
def apply (draw : σ → α × σ) (p : Policy α σ) : Call → Policy α σ
  | .next now => (p.next draw now).2
  | .reset now => p.reset now

/-- The policy behind calls. -/
def run (draw : σ → α × σ) (p : Policy α σ) (calls : List Call) : Policy α σ :=
  calls.foldl (apply draw) p

/-- The decision that a call brings; a reset brings none. -/
def decision? (draw : σ → α × σ) (p : Policy α σ) : Call → Option Decision
  | .next now => some (p.next draw now).1
  | .reset _ => none

/-- What each of the calls brings. -/
def decisions (draw : σ → α × σ) (p : Policy α σ) : List Call → List (Option Decision)
  | [] => []
  | call :: calls => p.decision? draw call :: (p.apply draw call).decisions draw calls

variable (draw : σ → α × σ) (p : Policy α σ)

theorem run_cons (call : Call) (calls : List Call) :
    p.run draw (call :: calls) = (p.apply draw call).run draw calls := rfl

theorem run_concat (calls : List Call) (call : Call) :
    p.run draw (calls ++ [call]) = (p.run draw calls).apply draw call := by
  rw [run, List.foldl_append]
  rfl

theorem decisions_append (calls later : List Call) :
    p.decisions draw (calls ++ later) =
      p.decisions draw calls ++ (p.run draw calls).decisions draw later := by
  induction calls generalizing p with
  | nil => rfl
  | cons first calls ih =>
      rw [List.cons_append, decisions, ih, decisions, List.cons_append, run_cons]

theorem decisions_concat (calls : List Call) (call : Call) :
    p.decisions draw (calls ++ [call]) =
      p.decisions draw calls ++ [(p.run draw calls).decision? draw call] :=
  decisions_append draw p calls [call]

/-! ## What a call does -/

/-- A policy stops and stays as it is, or it hands out a delay and its interval grows. -/
theorem next_cases (now : UInt64) :
    (p.config.maxElapsed.toNat < p.elapsedMillis now ∧ p.next draw now = (.stop, p)) ∨
      (p.elapsedMillis now ≤ p.config.maxElapsed.toNat ∧
        p.next draw now =
          (.retry (.ofMillis (jitter p.config.randomizationFactor (draw p.source).1 p.interval)),
            ⟨p.config, grow p.config p.interval, p.started, (draw p.source).2⟩)) := by
  by_cases h : p.config.maxElapsed.toNat < p.elapsedMillis now
  · exact .inl ⟨h, if_pos h⟩
  · exact .inr ⟨not_lt.mp h, if_neg h⟩

theorem decision_eq_stop_iff (now : UInt64) :
    (p.next draw now).1 = .stop ↔ p.config.maxElapsed.toNat < p.elapsedMillis now := by
  rcases p.next_cases draw now with ⟨hlt, hnext⟩ | ⟨hle, hnext⟩
  · simp [hnext, hlt]
  · simp [hnext, not_lt.mpr hle]

theorem config_apply (call : Call) : (p.apply draw call).config = p.config := by
  cases call with
  | next now => rcases p.next_cases draw now with ⟨-, h⟩ | ⟨-, h⟩ <;> rw [apply, h]
  | reset now => rfl

theorem config_run (calls : List Call) : (p.run draw calls).config = p.config := by
  induction calls generalizing p with
  | nil => rfl
  | cons call calls ih => rw [run_cons, ih, config_apply]

variable {p}

/-- Exactly valid parameters give a policy, and its campaign starts at once. -/
theorem build_eq_ok_iff :
    build config source now = .ok p ↔ config.Valid ∧ p = start config source now := by
  unfold build Config.Valid
  cases config.validate with
  | error e => simp [bind, Except.bind]
  | ok _ =>
      simp only [bind, Except.bind, pure, Except.pure, Except.ok.injEq, true_and]
      exact eq_comm

/-- A policy whose campaign starts now: it is new, or an old one with these parameters is reset. -/
inductive Fresh (config : Config α) (now : UInt64) : Policy α σ → Prop
  | built {source : σ} {p : Policy α σ} (h : build config source now = .ok p) : Fresh config now p
  | reset {q : Policy α σ} (h : q.config = config) : Fresh config now (q.reset now)

theorem Fresh.exists_eq_start (h : Fresh config now p) : ∃ source, p = start config source now := by
  cases h with
  | built h => exact ⟨_, (build_eq_ok_iff.mp h).2⟩
  | @reset q h =>
      refine ⟨q.source, ?_⟩
      rw [Policy.reset, start, h]

end Policy

end HttpExchange.Backoff
