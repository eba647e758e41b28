import Mathlib.Data.List.Induction

/-!
Runs of a labelled transition function.

`step s a` is the state after the action `a`, or `none` when `a` is not enabled.
A run keeps the moves it made, so that a property of every state reached and a
condition on every step taken can be compared: `Run.exact_guard` turns a step
lemma "the step keeps the property exactly when it meets the condition" into the
same statement about whole runs.
-/

namespace Transition

variable {σ α : Type*}

/-- One executed action. -/
structure Move (σ α : Type*) where
  before : σ
  action : α
  after : σ

/-- `Run step s moves t`: the moves lead from `s` to `t`. -/
inductive Run (step : σ → α → Option σ) (s : σ) : List (Move σ α) → σ → Prop where
  | nil : Run step s [] s
  | snoc {moves : List (Move σ α)} {t u : σ} {a : α} :
      Run step s moves t → step t a = some u → Run step s (moves ++ [⟨t, a, u⟩]) u

/-- Execute a list of actions, if each is enabled in turn. -/
def exec (step : σ → α → Option σ) (s : σ) : List α → Option σ
  | [] => some s
  | a :: as => (step s a).bind fun t => exec step t as

variable {step : σ → α → Option σ} {s t : σ} {moves : List (Move σ α)}

/-- An invariant of the steps holds at the end of every run. -/
theorem Run.invariant {inv : σ → Prop} (run : Run step s moves t) (start : inv s)
    (keeps : ∀ t a u, inv t → step t a = some u → inv u) : inv t := by
  induction run with
  | nil => exact start
  | snoc _ last ih => exact keeps _ _ _ ih last

/-- It holds wherever a step of the run was taken. -/
theorem Run.invariant_before {inv : σ → Prop} (run : Run step s moves t) (start : inv s)
    (keeps : ∀ t a u, inv t → step t a = some u → inv u) {m : Move σ α} (hm : m ∈ moves) :
    inv m.before ∧ step m.before m.action = some m.after := by
  induction run with
  | nil => cases hm
  | snoc earlier last ih =>
      rcases List.mem_append.mp hm with old | new
      · exact ih old
      · rw [List.mem_singleton.mp new]
        exact ⟨earlier.invariant start keeps, last⟩

/-- If each step from a good state is good exactly when it meets the condition, a
run stays good exactly when all its steps meet the condition. `inv` is what is
known of every state reached. -/
theorem Run.exact_guard {guard good : Move σ α → Prop} {inv keep : σ → Prop}
    (run : Run step s moves t) (start : inv s) (keepStart : keep s)
    (keeps : ∀ t a u, inv t → step t a = some u → inv u)
    (exact : ∀ t a u, inv t → keep t → step t a = some u →
      (guard ⟨t, a, u⟩ ↔ good ⟨t, a, u⟩))
    (carries : ∀ t a u, inv t → keep t → step t a = some u → good ⟨t, a, u⟩ → keep u) :
    (∀ m ∈ moves, good m) ↔ ∀ m ∈ moves, guard m := by
  have both : ((∀ m ∈ moves, good m) ↔ ∀ m ∈ moves, guard m) ∧
      ((∀ m ∈ moves, good m) → keep t) ∧ inv t := by
    induction run with
    | nil => exact ⟨by simp, fun _ => keepStart, start⟩
    | @snoc moves t u a _ last ih =>
        obtain ⟨agree, kept, reached⟩ := ih
        have final := exact t a u reached
        refine ⟨?_, ?_, keeps t a u reached last⟩
        · simp only [List.forall_mem_append, List.forall_mem_singleton]
          constructor
          · rintro ⟨early, lastGood⟩
            exact ⟨agree.mp early, (final (kept early) last).mpr lastGood⟩
          · rintro ⟨early, lastGuard⟩
            have earlyGood := agree.mpr early
            exact ⟨earlyGood, (final (kept earlyGood) last).mp lastGuard⟩
        · intro all
          simp only [List.forall_mem_append, List.forall_mem_singleton] at all
          exact carries t a u reached (kept all.1) last all.2
  exact both.1

/-- An execution is a run over the same actions. -/
theorem run_of_exec {as : List α} (h : exec step s as = some t) :
    ∃ moves, Run step s moves t ∧ moves.map Move.action = as := by
  suffices general : ∀ (as : List α) (prior : List (Move σ α)) (r : σ), Run step s prior r →
      exec step r as = some t →
      ∃ moves, Run step s moves t ∧ moves.map Move.action = prior.map Move.action ++ as by
    simpa using general as [] s .nil h
  intro as
  induction as with
  | nil =>
      intro prior r run h
      cases h
      exact ⟨prior, run, by simp⟩
  | cons a as ih =>
      intro prior r run h
      obtain ⟨u, first, rest⟩ := Option.bind_eq_some_iff.mp h
      obtain ⟨moves, full, actions⟩ := ih _ u (run.snoc first) rest
      exact ⟨moves, full, by simpa using actions⟩

end Transition
