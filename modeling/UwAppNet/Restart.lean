import UwAppNet.Lib.Transition
import Mathlib.Data.List.Count

/-!
`StoppableThread` started and stopped again: one owner calls `Start` and `Stop`, and
every thread that was created runs `RunInternal`.

A call is cut where a worker can act: `Start` between its test of `Running()`, the
creation of the thread and its assignment to `m_thread`, `Stop` before and after the
test of `joinable()`. `Run` returns whenever it likes.
-/

namespace UwAppNet

open Transition

/-! ### The object and its workers -/

/-- The part of `RunInternal` a worker is at. -/
inductive WorkerLoc where
  | setRunning | inRun | clearRunning | finished
deriving DecidableEq, Repr

/-- Where the owner is. -/
inductive OwnerLoc where
  | idle
  -- Start
  | creating | assigning (worker : Nat)
  -- Stop
  | testJoinable | joining
deriving DecidableEq, Repr

/-- An object, the workers it created and its owner. `mThread` is the worker `m_thread`
stands for, as long as it is joinable. `started` says that a `Start()` returned true
and that `Stop()` was not called since; no step reads it. -/
structure Stoppable where
  mRunning : Bool
  mStop : Bool
  mThread : Option Nat
  workers : List WorkerLoc
  owner : OwnerLoc
  started : Bool
  terminated : Bool
deriving DecidableEq, Repr

/-- The calls of the owner, their later parts, and the steps of the workers. -/
inductive StoppableAction where
  | start
  | create (created : Bool)
  | assign
  | stop (wait : Bool)
  | testJoinable
  | join
  | worker (i : Nat)
deriving DecidableEq, Repr

namespace Stoppable

/-- The object as constructed. -/
def init : Stoppable where
  mRunning := false
  mStop := false
  mThread := none
  workers := []
  owner := .idle
  started := false
  terminated := false

/-- `RunInternal`. -/
def work (s : Stoppable) (i : Nat) : WorkerLoc → Option Stoppable
  | .setRunning => some { s with mRunning := true, workers := s.workers.set i .inRun }
  | .inRun => some { s with workers := s.workers.set i .clearRunning }
  | .clearRunning => some { s with mRunning := false, workers := s.workers.set i .finished }
  | .finished => none

/-- The owner's statements. -/
def call (s : Stoppable) : OwnerLoc → StoppableAction → Option Stoppable
  -- the double-start check
  | .idle, .start => some (if s.mRunning then s else { s with owner := .creating })
  -- an exception makes `Start` return false
  | .creating, .create false => some { s with owner := .idle }
  | .creating, .create true => some { s with
      workers := s.workers ++ [.setRunning]
      owner := .assigning s.workers.length }
  | .assigning i, .assign =>
      if s.mThread.isSome then some { s with terminated := true }
      else some { s with mThread := some i, owner := .idle, started := true }
  | .idle, .stop wait => some { s with
      mStop := true
      started := false
      owner := if wait then .testJoinable else .idle }
  | .testJoinable, .testJoinable => some { s with
      owner := if s.mThread.isSome then .joining else .idle }
  | .joining, .join =>
      match s.mThread with
      | some i =>
          if s.workers[i]? = some .finished then some { s with mThread := none, owner := .idle }
          else none
      | none => none
  | _, _ => none

/-- One step of the owner or of a worker. -/
def step (s : Stoppable) (a : StoppableAction) : Option Stoppable :=
  if s.terminated then none
  else
    match a with
    | .worker i => s.workers[i]?.bind (s.work i)
    | a => s.call s.owner a

/-- What a step can do. -/
inductive Effect (s : Stoppable) : StoppableAction → Stoppable → Prop where
  | refuses : s.mRunning = true → Effect s .start s
  | begins : s.owner = .idle → Effect s .start { s with owner := .creating }
  | fails : s.owner = .creating → Effect s (.create false) { s with owner := .idle }
  | creates : s.owner = .creating → Effect s (.create true) { s with
      workers := s.workers ++ [.setRunning]
      owner := .assigning s.workers.length }
  | overwrites {i : Nat} : s.owner = .assigning i → s.mThread.isSome →
      Effect s .assign { s with terminated := true }
  | assigns {i : Nat} : s.owner = .assigning i → s.mThread = none →
      Effect s .assign { s with mThread := some i, owner := .idle, started := true }
  | stops (wait : Bool) : s.owner = .idle → Effect s (.stop wait) { s with
      mStop := true
      started := false
      owner := if wait then .testJoinable else .idle }
  | tests : s.owner = .testJoinable → Effect s .testJoinable { s with
      owner := if s.mThread.isSome then .joining else .idle }
  | joins {i : Nat} : s.owner = .joining → s.mThread = some i →
      Effect s .join { s with mThread := none, owner := .idle }
  | works {i : Nat} (mRunning : Bool) (loc : WorkerLoc) :
      Effect s (.worker i) { s with mRunning := mRunning, workers := s.workers.set i loc }

section Step

variable {s s' : Stoppable} {a : StoppableAction}

theorem work_effect {i : Nat} {loc : WorkerLoc} (h : s.work i loc = some s') :
    Effect s (.worker i) s' := by
  cases loc with
  | setRunning =>
      cases h
      exact .works true .inRun
  | inRun =>
      cases h
      exact .works s.mRunning .clearRunning
  | clearRunning =>
      cases h
      exact .works false .finished
  | finished => cases h

theorem call_effect {owner : OwnerLoc} (at_owner : s.owner = owner)
    (h : s.call owner a = some s') : Effect s a s' := by
  unfold call at h
  split at h
  · obtain rfl := Option.some.inj h
    split
    · exact .refuses ‹_›
    · exact .begins at_owner
  · cases h
    exact .fails at_owner
  · cases h
    exact .creates at_owner
  · split at h
    · cases h
      exact .overwrites at_owner ‹_›
    · cases h
      exact .assigns at_owner (by simpa using ‹¬ s.mThread.isSome = true›)
  · cases h
    exact .stops _ at_owner
  · cases h
    exact .tests at_owner
  · split at h
    · split at h
      · cases h
        exact .joins at_owner ‹_›
      · cases h
    · cases h
  · cases h

theorem step_effect (h : s.step a = some s') : s.terminated = false ∧ Effect s a s' := by
  simp only [step, Option.ite_none_left_eq_some, Bool.not_eq_true] at h
  obtain ⟨alive, h⟩ := h
  refine ⟨alive, ?_⟩
  split at h
  · obtain ⟨loc, -, worked⟩ := Option.bind_eq_some_iff.mp h
    exact work_effect worked
  · exact call_effect rfl h

end Step

end Stoppable

/-! ### The contract -/

/-- What holds between the calls of `Start` and `Stop`: one worker at most executes
`Run()`, `m_thread` was never assigned while joinable, and a `Start()` that returned true
leaves no stop request behind. -/
structure RestartContract (s : Stoppable) : Prop where
  single : s.workers.count .inRun ≤ 1
  assigned : s.terminated = false
  cleared : s.started = true → s.mStop = false

/-- A thread is created only for the first time, and before any `Stop()`. -/
def FirstStart (m : Move Stoppable StoppableAction) : Prop :=
  m.action = .create true → m.before.workers = [] ∧ m.before.mStop = false

section Contract

variable {s s' : Stoppable} {a : StoppableAction} {moves : List (Move Stoppable StoppableAction)}

/-- What every reachable state satisfies: after the first thread there is one to join, or
a stop request, or an assignment to come. -/
structure Reached (s : Stoppable) : Prop where
  created : s.workers ≠ [] →
    s.mThread.isSome ∨ s.mStop = true ∨ ∃ i, s.owner = .assigning i
  stopping : s.owner = .testJoinable ∨ s.owner = .joining → s.mStop = true

/-- What holds as long as no thread was created but the first. -/
structure Unrestarted (s : Stoppable) : Prop where
  few : s.workers.length ≤ 1
  unstarted : s.workers = [] → s.mThread = none ∧ ∀ i, s.owner ≠ .assigning i
  pending : ∀ i, s.owner = .assigning i → s.mThread = none ∧ s.mStop = false
  alive : s.terminated = false
  cleared : s.started = true → s.mStop = false

/-- The pending assignment breaks the contract. -/
def Doomed (s : Stoppable) : Prop :=
  (∃ i, s.owner = .assigning i) ∧ (s.mThread.isSome ∨ s.mStop = true)

theorem Reached.step (inv : Reached s) (h : s.step a = some s') : Reached s' := by
  obtain ⟨-, effect⟩ := Stoppable.step_effect h
  cases effect with
  | refuses running => exact inv
  | begins idle =>
      refine ⟨fun some => ?_, by simp⟩
      simpa [idle] using inv.created some
  | fails creating =>
      refine ⟨fun some => ?_, by simp⟩
      simpa [creating] using inv.created some
  | creates creating => exact ⟨fun _ => .inr (.inr ⟨_, rfl⟩), by simp⟩
  | overwrites assigning joinable => exact ⟨inv.created, inv.stopping⟩
  | assigns assigning free => exact ⟨fun _ => .inl rfl, by simp⟩
  | stops wait idle => exact ⟨fun _ => .inr (.inl rfl), fun _ => rfl⟩
  | tests testing =>
      have stopped := inv.stopping (.inl testing)
      exact ⟨fun _ => .inr (.inl stopped), fun _ => stopped⟩
  | joins joining thread =>
      have stopped := inv.stopping (.inr joining)
      exact ⟨fun _ => .inr (.inl stopped), fun _ => stopped⟩
  | works mRunning loc =>
      refine ⟨fun some => inv.created ?_, inv.stopping⟩
      simpa using some

theorem Unrestarted.step (inv : Unrestarted s) (h : s.step a = some s')
    (first : FirstStart ⟨s, a, s'⟩) : Unrestarted s' := by
  obtain ⟨alive, effect⟩ := Stoppable.step_effect h
  obtain ⟨few, unstarted, pending, -, cleared⟩ := inv
  cases effect with
  | refuses running => exact ⟨few, unstarted, pending, alive, cleared⟩
  | begins idle =>
      exact ⟨few, fun empty => ⟨(unstarted empty).1, by simp⟩, by simp, alive, cleared⟩
  | fails creating =>
      exact ⟨few, fun empty => ⟨(unstarted empty).1, by simp⟩, by simp, alive, cleared⟩
  | creates creating =>
      obtain ⟨empty, unstopped⟩ := first rfl
      refine ⟨?_, by simp, fun _ _ => ⟨(unstarted empty).1, unstopped⟩, alive, cleared⟩
      rw [empty]
      exact Nat.le_refl 1
  | overwrites assigning joinable =>
      rw [(pending _ assigning).1] at joinable
      cases joinable
  | assigns assigning free =>
      refine ⟨few, fun empty => ?_, by simp, alive, fun _ => (pending _ assigning).2⟩
      exact absurd assigning ((unstarted empty).2 _)
  | stops wait idle =>
      refine ⟨few, fun empty => ⟨(unstarted empty).1, ?_⟩, ?_, alive, by simp⟩
      · cases wait <;> simp
      · cases wait <;> simp
  | tests testing =>
      refine ⟨few, fun empty => ⟨(unstarted empty).1, ?_⟩, ?_, alive, cleared⟩
      · cases s.mThread <;> simp
      · cases s.mThread <;> simp
  | joins joining thread => exact ⟨few, fun _ => ⟨rfl, by simp⟩, by simp, alive, cleared⟩
  | works mRunning loc =>
      refine ⟨by simpa using few, fun empty => unstarted ?_, pending, alive, cleared⟩
      simpa using empty

theorem Unrestarted.contract (inv : Unrestarted s) : RestartContract s where
  single := Nat.le_trans List.count_le_length inv.few
  assigned := inv.alive
  cleared := inv.cleared

/-- A pending assignment that breaks the contract stays pending until it does. -/
theorem Doomed.step (doomed : Doomed s) (h : s.step a = some s') (kept : RestartContract s') :
    Doomed s' := by
  obtain ⟨-, effect⟩ := Stoppable.step_effect h
  obtain ⟨⟨i, assigning⟩, bad⟩ := doomed
  cases effect with
  | refuses running => exact ⟨⟨i, assigning⟩, bad⟩
  | begins owner => simp [assigning] at owner
  | fails owner => simp [assigning] at owner
  | creates owner => simp [assigning] at owner
  | overwrites owner joinable => exact absurd kept.assigned (by simp)
  | assigns owner free =>
      have cleared : s.mStop = false := kept.cleared rfl
      simp [free, cleared] at bad
  | stops wait owner => simp [assigning] at owner
  | tests owner => simp [assigning] at owner
  | joins owner thread => simp [assigning] at owner
  | works mRunning loc => exact ⟨⟨i, assigning⟩, bad⟩

/-- A thread created after the first one, or after a `Stop()`, dooms its assignment. -/
theorem doomed_of_not_first (inv : Reached s) (h : s.step a = some s')
    (again : ¬ FirstStart ⟨s, a, s'⟩) : Doomed s' := by
  obtain ⟨-, effect⟩ := Stoppable.step_effect h
  obtain ⟨create, later⟩ := Classical.not_imp.mp again
  cases create
  cases effect with
  | creates creating =>
      refine ⟨⟨_, rfl⟩, ?_⟩
      by_cases none : s.workers = []
      · have stopped : s.mStop = true := by simpa using not_and.mp later none
        exact .inr stopped
      · rcases inv.created none with joinable | stopped | ⟨i, assigning⟩
        · exact .inl joinable
        · exact .inr stopped
        · rw [creating] at assigning
          cases assigning

theorem reached_init : Reached Stoppable.init :=
  ⟨by simp [Stoppable.init], by simp [Stoppable.init]⟩

theorem unrestarted_init : Unrestarted Stoppable.init :=
  ⟨by decide, by simp [Stoppable.init], by simp [Stoppable.init], rfl, by simp [Stoppable.init]⟩

theorem contract_of_firstStart (run : Run Stoppable.step .init moves s)
    (first : ∀ m ∈ moves, FirstStart m) :
    (∀ m ∈ moves, RestartContract m.after) ∧ Unrestarted s := by
  induction run with
  | nil => exact ⟨by simp, unrestarted_init⟩
  | snoc _ last ih =>
      rw [List.forall_mem_append, List.forall_mem_singleton] at first ⊢
      obtain ⟨early, inv⟩ := ih first.1
      have after := inv.step last first.2
      exact ⟨⟨early, after.contract⟩, after⟩

theorem firstStart_of_contract (run : Run Stoppable.step .init moves s)
    (kept : ∀ m ∈ moves, RestartContract m.after) :
    (∀ m ∈ moves, FirstStart m) ∨ Doomed s := by
  induction run with
  | nil => exact .inl (by simp)
  | @snoc moves t u a earlier last ih =>
      rw [List.forall_mem_append, List.forall_mem_singleton] at kept ⊢
      have inv := earlier.invariant reached_init fun _ _ _ inv h => inv.step h
      rcases ih kept.1 with first | doomed
      · by_cases once : FirstStart ⟨t, a, u⟩
        · exact .inl ⟨first, once⟩
        · exact .inr (doomed_of_not_first inv last once)
      · exact .inr (doomed.step last kept.2)

/-- The contract holds throughout every run in which no thread is created but once,
before any `Stop()`; and in the runs at whose end no `Start()` is about to assign its
thread, only there. -/
theorem restart_contract (run : Run Stoppable.step .init moves s) :
    ((∀ m ∈ moves, FirstStart m) → ∀ m ∈ moves, RestartContract m.after) ∧
      ((∀ i, s.owner ≠ .assigning i) →
        (∀ m ∈ moves, RestartContract m.after) → ∀ m ∈ moves, FirstStart m) := by
  constructor
  · intro first
    exact (contract_of_firstStart run first).1
  · intro returned kept
    rcases firstStart_of_contract run kept with first | ⟨⟨i, assigning⟩, -⟩
    · exact first
    · exact absurd assigning (returned i)

end Contract

/-- The calls of a thread that is started, runs, and is stopped and joined. -/
def startAndStop : List StoppableAction :=
  [.start, .create true, .assign, .worker 0, .stop true, .testJoinable, .worker 0, .worker 0,
    .join]

/-- Started once, the object keeps the contract. -/
theorem single_start_contract :
    ∃ moves s, Run Stoppable.step .init moves s ∧ moves.map Move.action = startAndStop ∧
      s.workers = [.finished] ∧ s.mThread = none ∧ ∀ m ∈ moves, RestartContract m.after := by
  have empty : Run Stoppable.step .init [] _ := .nil
  have started := ((empty.snoc (a := .start) rfl).snoc (a := .create true) rfl).snoc
    (a := .assign) rfl
  have stopped := ((started.snoc (a := .worker 0) rfl).snoc (a := .stop true) rfl).snoc
    (a := .testJoinable) rfl
  have run := ((stopped.snoc (a := .worker 0) rfl).snoc (a := .worker 0) rfl).snoc
    (a := .join) rfl
  refine ⟨_, _, run, rfl, rfl, rfl, (restart_contract run).1 ?_⟩
  simp only [List.nil_append, List.cons_append, List.forall_mem_cons]
  refine ⟨?_, fun _ => ⟨rfl, rfl⟩, ?_, ?_, ?_, ?_, ?_, ?_, ?_, by simp⟩ <;> rintro ⟨⟩

/-- A second `Start()` before the first worker gets to run: both workers run, and the
assignment over the first one ends the process. After a `Stop(true)` it succeeds, and its
worker finds the old stop request. -/
theorem second_start_breaks_contract :
    (∃ moves s, Run Stoppable.step .init moves s ∧
        moves.map Move.action =
          [.start, .create true, .assign, .start, .create true, .worker 0, .worker 1] ∧
        s.workers = [.inRun, .inRun] ∧ ¬ RestartContract s) ∧
      (∃ moves s, Run Stoppable.step .init moves s ∧
        moves.map Move.action = [.start, .create true, .assign, .start, .create true, .assign] ∧
        s.terminated = true ∧ ¬ RestartContract s) ∧
      ∃ moves s, Run Stoppable.step .init moves s ∧
        moves.map Move.action = startAndStop ++ [.start, .create true, .assign] ∧
        s.started = true ∧ s.mStop = true ∧ ¬ RestartContract s := by
  have reach : ∀ {as : List StoppableAction} {s : Stoppable} {P : Stoppable → Prop},
      exec Stoppable.step .init as = some s → P s →
        ∃ moves s, Run Stoppable.step .init moves s ∧ moves.map Move.action = as ∧ P s := by
    intro as s P ran holds
    obtain ⟨moves, run, actions⟩ := run_of_exec ran
    exact ⟨moves, s, run, actions, holds⟩
  refine ⟨reach rfl ⟨rfl, fun contract => ?_⟩, reach rfl ⟨rfl, fun contract => ?_⟩,
    reach rfl ⟨rfl, rfl, fun contract => ?_⟩⟩
  · exact absurd contract.single (by decide)
  · exact absurd contract.assigned (by decide)
  · exact absurd (contract.cleared rfl) (by decide)

end UwAppNet
