import UwAppNet.Lib.Transition

/-!
Runs of one system seen as runs of another, and runs that a rank bounds.

A composed system is not proved about step by step: `Run.simulate` turns its runs into
runs of each part, where the part's own results apply. `Run.invariant_of` is for
invariants that only steps of a certain kind keep, `Run.count_le_rank` for steps that
cannot go on for ever.
-/

namespace Transition

variable {σ τ α β : Type*} {step : σ → α → Option σ} {coarse : τ → β → Option τ}
  {s t : σ} {moves : List (Move σ α)}

/-! ### Executions -/

/-- What the steps of an execution add to a record. -/
theorem exec_record {as : List α} (record : σ → List β) (added : α → List β)
    (adds : ∀ s a t, step s a = some t → record t = record s ++ added a)
    (h : exec step s as = some t) : record t = record s ++ as.flatMap added := by
  induction as generalizing s with
  | nil =>
      cases h
      exact (List.append_nil _).symm
  | cons a as ih =>
      obtain ⟨u, first, rest⟩ := Option.bind_eq_some_iff.mp h
      rw [ih rest, adds s a u first, List.flatMap_cons, List.append_assoc]

/-- An execution of one action, or of none. -/
theorem exec_toList_cases {o : Option α} (h : exec step s o.toList = some t) :
    (o = none ∧ t = s) ∨ ∃ a, o = some a ∧ step s a = some t := by
  cases o with
  | none => exact .inl ⟨rfl, (Option.some.inj h).symm⟩
  | some a =>
      obtain ⟨u, stepped, last⟩ := Option.bind_eq_some_iff.mp h
      cases last
      exact .inr ⟨a, rfl, stepped⟩

/-! ### Simulation -/

/-- A run goes on with an execution. -/
theorem Run.append_exec {as : List α} {u : σ} (run : Run step s moves t)
    (h : exec step t as = some u) : ∃ more, Run step s more u := by
  induction as generalizing t moves with
  | nil =>
      cases h
      exact ⟨moves, run⟩
  | cons a as ih =>
      obtain ⟨v, first, rest⟩ := Option.bind_eq_some_iff.mp h
      exact ih (run.snoc first) rest

/-- If every step is seen as some steps of the coarse system, so is every run. -/
theorem Run.simulate (run : Run step s moves t) (view : σ → τ) (inv : σ → Prop) (start : inv s)
    (keeps : ∀ t a u, inv t → step t a = some u → inv u)
    (sees : ∀ t a u, inv t → step t a = some u → ∃ bs, exec coarse (view t) bs = some (view u)) :
    ∃ moves', Run coarse (view s) moves' (view t) := by
  induction run with
  | nil => exact ⟨[], .nil⟩
  | snoc earlier last ih =>
      obtain ⟨moves', seen⟩ := ih
      obtain ⟨bs, more⟩ := sees _ _ _ (earlier.invariant start keeps) last
      exact seen.append_exec more

/-- If the other system can follow every step, by one of its own, it can follow a run. -/
theorem Run.follow {R : σ → τ → Prop} {s' : τ} (run : Run step s moves t)
    (start : R s s')
    (follows : ∀ t a u t', R t t' → step t a = some u →
      ∃ b u', coarse t' b = some u' ∧ R u u') :
    ∃ moves' t', Run coarse s' moves' t' ∧ R t t' := by
  induction run with
  | nil => exact ⟨[], s', .nil, start⟩
  | snoc _ last ih =>
      obtain ⟨moves', t', followed, here⟩ := ih
      obtain ⟨b, u', next, there⟩ := follows _ _ _ t' here last
      exact ⟨moves' ++ [⟨t', b, u'⟩], u', followed.snoc next, there⟩

/-! ### Invariants of some of the steps -/

/-- An invariant of the steps that meet a condition holds at the end of every run of
such steps. -/
theorem Run.invariant_of {inv : σ → Prop} {guard : Move σ α → Prop} (run : Run step s moves t)
    (start : inv s) (guarded : ∀ m ∈ moves, guard m)
    (keeps : ∀ t a u, inv t → guard ⟨t, a, u⟩ → step t a = some u → inv u) : inv t := by
  induction run with
  | nil => exact start
  | snoc _ last ih =>
      rw [List.forall_mem_append, List.forall_mem_singleton] at guarded
      exact keeps _ _ _ (ih guarded.1) guarded.2 last

/-- The steps that meet a condition. -/
def guarded (guard : σ → α → Bool) (step : σ → α → Option σ) (s : σ) (a : α) : Option σ :=
  if guard s a then step s a else none

/-- One action or none, if it meets the condition. -/
theorem exec_guarded {guard : σ → α → Bool} {o : Option α} (met : ∀ a ∈ o, guard s a = true)
    (h : exec step s o.toList = some t) : exec (guarded guard step) s o.toList = some t := by
  cases o with
  | none => exact h
  | some a =>
      obtain ⟨u, stepped, last⟩ := Option.bind_eq_some_iff.mp h
      refine Option.bind_eq_some_iff.mpr ⟨u, ?_, last⟩
      rw [guarded, if_pos (met a rfl), stepped]

/-- A run of such steps is a run all of whose steps meet the condition. -/
theorem Run.of_guarded {guard : σ → α → Bool} (run : Run (guarded guard step) s moves t) :
    Run step s moves t ∧ ∀ m ∈ moves, guard m.before m.action = true := by
  induction run with
  | nil => exact ⟨.nil, by simp⟩
  | snoc _ last ih =>
      simp only [guarded, Option.ite_none_right_eq_some] at last
      obtain ⟨earlier, met⟩ := ih
      refine ⟨earlier.snoc last.2, ?_⟩
      rw [List.forall_mem_append, List.forall_mem_singleton]
      exact ⟨met, last.1⟩

/-- And conversely. -/
theorem Run.to_guarded {guard : σ → α → Bool} (run : Run step s moves t)
    (met : ∀ m ∈ moves, guard m.before m.action = true) : Run (guarded guard step) s moves t := by
  induction run with
  | nil => exact .nil
  | snoc _ last ih =>
      rw [List.forall_mem_append, List.forall_mem_singleton] at met
      exact (ih met.1).snoc (by rw [guarded, if_pos met.2, last])

/-- A run is one of every system that makes the same moves. -/
theorem Run.of_same_moves {other : σ → α → Option σ} (run : Run step s moves t)
    (same : ∀ m ∈ moves, step m.before m.action = other m.before m.action) :
    Run other s moves t := by
  induction run with
  | nil => exact .nil
  | snoc _ last ih =>
      rw [List.forall_mem_append, List.forall_mem_singleton] at same
      exact (ih same.1).snoc (same.2.symm.trans last)

/-! ### Ranks -/

/-- A run makes at most as many steps that lower a rank as the rank it starts from. -/
theorem Run.count_le_rank {inv : σ → Prop} (run : Run step s moves t) (rank : σ → Nat)
    (lowers : Move σ α → Bool) (start : inv s)
    (keeps : ∀ t a u, inv t → step t a = some u → inv u)
    (falls : ∀ t a u, inv t → step t a = some u →
      rank u + (if lowers ⟨t, a, u⟩ then 1 else 0) ≤ rank t) :
    moves.countP lowers + rank t ≤ rank s := by
  induction run with
  | nil => simp
  | snoc earlier last ih =>
      have fall := falls _ _ _ (earlier.invariant start keeps) last
      rw [List.countP_append, List.countP_singleton]
      omega

/-- What a step never brings about held all along where it holds at the end. -/
theorem Run.held_before {inv held : σ → Prop} (run : Run step s moves t) (start : inv s)
    (keeps : ∀ t a u, inv t → step t a = some u → inv u)
    (back : ∀ t a u, inv t → step t a = some u → held u → held t) (now : held t) :
    ∀ m ∈ moves, held m.before := by
  induction run with
  | nil => simp
  | snoc earlier last ih =>
      have before := back _ _ _ (earlier.invariant start keeps) last now
      rw [List.forall_mem_append, List.forall_mem_singleton]
      exact ⟨ih before, before⟩

end Transition
