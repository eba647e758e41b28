import UwAppNet.Lifecycle

/-!
Starting over a listener and stopping one: what a run of the system must avoid.

`stop()` joins the thread only if `Running()` is set at that moment, the thread polls
the stop flag only at its two loop heads, and `start` overwrites the pointer to the
listener before. Each result gives the exact condition on the steps of a run under
which this does no harm.
-/

namespace UwAppNet

open Transition

variable {servPort : Int} {moves : List (Move Sys Action)} {s s' : Sys} {i : Nat}
  {l l' : Listener}

/-! ### Joining before deleting -/

/-- Where `stop()` is about to delete a listener, the thread in it was joined or
never started. -/
def SafeDelete (s : Sys) : Prop :=
  s.sim = .deleting →
    ∀ i l, s.pTcpListener = some i → s.listeners i = some l → l.joinable = false

/-- A `stop()` or destructor finds the thread of the listener, if there is one, with
`m_running` set and not yet cleared. -/
def StopsRunning (m : Move Sys Action) : Prop :=
  ∀ destructor, m.action = .stop destructor →
    ∀ i l, m.before.pTcpListener = some i → m.before.listeners i = some l →
      l.joinable = true → l.loc.inRun = true

/-- A thread or client step on a listener leaves its thread object alone. -/
theorem SafeDelete.update (safe : SafeDelete s) (found : s.listeners i = some l)
    (joinable : l'.joinable = l.joinable) : SafeDelete (s.set i l') := by
  intro deleting j k pointer h
  rcases Sys.found_set h with ⟨rfl, rfl⟩ | ⟨-, h⟩
  · exact joinable.trans (safe deleting j l pointer found)
  · exact safe deleting j k pointer h

theorem safeDelete_of_ne (away : s.sim ≠ .deleting) : SafeDelete s :=
  fun deleting => absurd deleting away

theorem SafeDelete.resume (safe : SafeDelete s) (pointer : s.pTcpListener = some i)
    (found : s.listeners i = some l) (effect : s.StopEffect i l s') : SafeDelete s' := by
  cases effect with
  | storeStop => exact safeDelete_of_ne nofun
  | testJoinable =>
      intro deleting j k at_j there
      obtain ⟨rfl, rfl⟩ := Sys.pointed pointer found at_j there
      by_contra joinable
      rw [Bool.not_eq_false] at joinable
      simp [joinable] at deleting
  | join =>
      intro _ j k at_j there
      have same : j = i := Option.some.inj (at_j.symm.trans pointer)
      subst same
      rcases Sys.found_set (s := s) there with ⟨-, rfl⟩ | ⟨other, -⟩
      · rfl
      · exact absurd rfl other
  | terminate sim joinable =>
      have detached := safe sim i l pointer found
      rw [joinable] at detached
      cases detached
  | delete =>
      apply safeDelete_of_ne
      cases s.destroying <;> nofun

/-- The test of `Running()` lets a joinable thread go undeleted exactly when the
thread is inside its run. -/
theorem stopsRunning_stop_iff (inv : Consistent s) (pointer : s.pTcpListener = some i)
    (found : s.listeners i = some l) {destructor : Bool} :
    let s' : Sys := { s with
      destroying := destructor
      sim := if l.mRunning then .storeStop else .deleting }
    StopsRunning ⟨s, .stop destructor, s'⟩ ↔ SafeDelete s' := by
  intro s'
  have running := (inv.wf i l found).running
  constructor
  · intro finds deleting j k at_j there
    obtain ⟨rfl, rfl⟩ := Sys.pointed pointer found at_j there
    by_contra joinable
    have inRun := finds destructor rfl j k pointer found (Bool.not_eq_false _ ▸ joinable)
    simp [s', running, inRun] at deleting
  · intro safe _ _ j k at_j there joinable
    obtain ⟨rfl, rfl⟩ := Sys.pointed pointer found at_j there
    by_contra missed
    have deleting : k.mRunning = false := running.trans (Bool.eq_false_iff.mpr missed)
    have detached := safe (by simp [s', deleting]) j k pointer found
    rw [joinable] at detached
    cases detached

/-- From a state where a deletion would be safe, a step leads to one where it would
not exactly when a `stop()` misses a thread before or after its run. -/
theorem stopsRunning_iff {a : Action} (inv : Consistent s) (safe : SafeDelete s)
    (h : s.step a = some s') : StopsRunning ⟨s, a, s'⟩ ↔ SafeDelete s' := by
  have other : (∀ destructor, a ≠ .stop destructor) → StopsRunning ⟨s, a, s'⟩ :=
    fun ne destructor eq => absurd eq (ne destructor)
  cases (Sys.step_effect h).2 with
  | setPort port idle => exact iff_of_true (other nofun) (safeDelete_of_ne (by simp [idle]))
  | start result created idle =>
      exact iff_of_true (other nofun) (safeDelete_of_ne (by simp [Sys.start_sim, idle]))
  | stopNothing destructor idle pointer =>
      refine iff_of_true ?_ (safeDelete_of_ne (by cases destructor <;> simp))
      intro _ _ j k at_j _
      rw [pointer] at at_j
      cases at_j
  | stop destructor idle pointer found => exact stopsRunning_stop_iff inv pointer found
  | resume pointer found effect =>
      exact iff_of_true (other nofun) (safe.resume pointer found effect)
  | expire idle =>
      exact iff_of_true (other nofun) (safeDelete_of_ne (by simp [Sys.expire_sim, idle]))
  | worker found stepped =>
      exact iff_of_true (other nofun) (safe.update found (Listener.step_frame stepped).1)
  | client found stepped =>
      exact iff_of_true (other nofun) (safe.update found (Listener.clientStep_frame stepped).1)

/-- A run never comes to delete a listener with a joinable thread exactly when each
of its stops finds the thread, if there is one, in its run. -/
theorem no_joinable_deleted_iff (run : Run Sys.step (Sys.init servPort) moves s) :
    (∀ m ∈ moves, SafeDelete m.after) ↔ ∀ m ∈ moves, StopsRunning m :=
  run.exact_guard (consistent_init servPort)
    (safeDelete_of_ne nofun : SafeDelete (Sys.init servPort)) (fun _ _ _ inv h => inv.step h)
    (fun _ _ _ inv safe h => stopsRunning_iff inv safe h) fun _ _ _ _ _ _ safe => safe

/-- Started, stopped after the thread set `m_running`, joined when it has ended, and deleted. -/
def startToDeletion : List Action :=
  [.start .success true, .worker 0 .next, .stop false, .resume, .resume, .worker 0 .next,
    .worker 0 .next, .worker 0 .next, .worker 0 .next, .resume, .resume]

/-- Where `stop()` deletes it, the thread object has been joined. -/
theorem late_stop_safe : ∃ moves s, Run Sys.step (Sys.init 4000) moves s ∧
    moves.map Move.action = startToDeletion ∧
    (∃ m ∈ moves, m.before.sim = .deleting ∧ m.before.pTcpListener = some 0) ∧
    s.sim = .idle ∧ s.pTcpListener = none ∧ s.terminated = false ∧
    ∀ m ∈ moves, SafeDelete m.after := by
  have empty : Run Sys.step (Sys.init 4000) [] (Sys.init 4000) := .nil
  have asked := ((((empty.snoc (a := .start .success true) rfl).snoc
    (a := .worker 0 .next) rfl).snoc (a := .stop false) rfl).snoc
    (a := .resume) rfl).snoc (a := .resume) rfl
  have ended := (((asked.snoc (a := .worker 0 .next) rfl).snoc (a := .worker 0 .next) rfl).snoc
    (a := .worker 0 .next) rfl).snoc (a := .worker 0 .next) rfl
  have run := (ended.snoc (a := .resume) rfl).snoc (a := .resume) rfl
  refine ⟨_, _, run, rfl, ⟨_, List.mem_concat_self, rfl, rfl⟩, rfl, rfl, rfl,
    (no_joinable_deleted_iff run).mpr ?_⟩
  simp only [List.nil_append, List.cons_append, List.forall_mem_cons]
  refine ⟨nofun, nofun, ?_, nofun, nofun, nofun, nofun, nofun, nofun, nofun, nofun, by simp⟩
  rintro _ ⟨⟩ i l ⟨⟩ ⟨⟩ _
  rfl

/-- Started and stopped at once: the thread has not yet set `m_running`, is not
joined, and its deletion terminates the process. -/
theorem early_stop_terminates : ∃ s s',
    exec Sys.step (Sys.init 4000) [.start .success true, .stop false] = some s ∧
    ¬ SafeDelete s ∧ s.step .resume = some s' ∧ s'.terminated = true := by
  refine ⟨_, _, rfl, fun safe => ?_, rfl, rfl⟩
  exact absurd (safe rfl 0 _ rfl rfl) (by decide)

/-! ### Waiting for the thread -/

/-- While `stop()` waits in the join, the thread has a step that needs nothing further from
any client, and none of its calls to fail. A thread with an earlier `read` that failed is left
out: nothing is known of it. -/
def Responsive (s : Sys) : Prop :=
  s.sim = .joining →
    ∀ i l, s.pTcpListener = some i → s.listeners i = some l → l.loc.ended = false →
      ∃ a : WorkerAction, a.succeeds = true ∧ (s.step (.worker i a)).isSome = true

/-- While `stop()` waits in the join, the thread does not wait for a client. -/
def Awake (s : Sys) : Prop :=
  s.sim = .joining →
    ∀ i l, s.pTcpListener = some i → s.listeners i = some l → l.waiting = false

/-- The join is entered while the thread neither waits in `accept` without a client
nor in a `read` of a length or payload with nothing to read; and until it ends, no
`read` takes the last bytes of an unfinished frame from a client that has not closed
its end. -/
structure StopsAwake (m : Move Sys Action) : Prop where
  enters : m.action = .resume → m.before.sim = .testJoinable →
    ∀ i l, m.before.pTcpListener = some i → m.before.listeners i = some l →
      l.joinable = true → l.waiting = false
  reads : m.before.sim = .joining → ∀ i portion stack,
    m.action = .worker i (.read portion stack) → m.before.pTcpListener = some i →
      ∀ l, m.before.listeners i = some l → ¬ l.runsDry portion stack

/-- In the join, having a step and not waiting for a client are the same. -/
theorem responsive_iff (inv : Consistent s) : Responsive s ↔ Awake s := by
  have steps : ∀ i l, s.sim = .joining → s.listeners i = some l →
      ∀ a, (s.step (.worker i a)).isSome = (l.step a).isSome := by
    intro i l joining found a
    have running : s.terminated = false := by
      by_contra terminated
      rw [inv.final (Bool.not_eq_false _ ▸ terminated)] at joining
      cases joining
    simp [Sys.step, running, found]
  have started : ∀ i l, s.sim = .joining → s.pTcpListener = some i → s.listeners i = some l →
      l.loc ≠ .noThread := fun i l joining pointer found =>
    (inv.wf i l found).joinable (inv.joined joining i l pointer found)
  constructor
  · intro responsive joining i l pointer found
    cases ended : l.loc.ended with
    | true =>
        cases loc : l.loc <;> simp [loc, Loc.ended, Listener.waiting, Loc.unguarded] at ended ⊢
    | false =>
        obtain ⟨a, succeeds, can⟩ := responsive joining i l pointer found ended
        rw [steps i l joining found] at can
        exact ((inv.wf i l found).can_step_iff (started i l joining pointer found) ended).mp
          ⟨a, succeeds, can⟩
  · intro awake joining i l pointer found unfinished
    obtain ⟨a, succeeds, can⟩ :=
      ((inv.wf i l found).can_step_iff (started i l joining pointer found) unfinished).mpr
        (awake joining i l pointer found)
    exact ⟨a, succeeds, (steps i l joining found a).trans can⟩

theorem awake_of_ne (away : s.sim ≠ .joining) : Awake s := fun joining => absurd joining away

/-- Between commands nothing is asked of a step. -/
theorem stopsAwake_of_idle {a : Action} (idle : s.sim = .idle) : StopsAwake ⟨s, a, s'⟩ where
  enters _ test := by
    rw [idle] at test
    cases test
  reads joining := by
    rw [idle] at joining
    cases joining

/-- A change to another listener, or one that does not make the thread wait. -/
theorem Awake.update (awake : Awake s) (found : s.listeners i = some l)
    (keeps : s.sim = .joining → s.pTcpListener = some i → l.waiting = false → l'.waiting = false) :
    Awake (s.set i l') := by
  intro joining j k pointer h
  rcases Sys.found_set h with ⟨rfl, rfl⟩ | ⟨-, h⟩
  · exact keeps joining pointer (awake joining j l pointer found)
  · exact awake joining j k pointer h

theorem stopsAwake_resume_iff (pointer : s.pTcpListener = some i)
    (found : s.listeners i = some l) (effect : s.StopEffect i l s') :
    StopsAwake ⟨s, .resume, s'⟩ ↔ Awake s' := by
  have elsewhere : s.sim ≠ .testJoinable → StopsAwake ⟨s, .resume, s'⟩ := fun ne =>
    ⟨fun _ test => absurd test ne, nofun⟩
  cases effect with
  | storeStop sim => exact iff_of_true (elsewhere (by simp [sim])) (awake_of_ne nofun)
  | testJoinable sim =>
      constructor
      · intro stops joining j k at_j there
        obtain ⟨rfl, rfl⟩ := Sys.pointed pointer found at_j there
        have joinable : k.joinable = true := by
          by_contra detached
          simp [detached] at joining
        exact stops.enters rfl sim j k pointer found joinable
      · intro awake
        refine ⟨fun _ _ j k at_j there joinable => ?_, nofun⟩
        obtain ⟨rfl, rfl⟩ := Sys.pointed pointer found at_j there
        exact awake (by simp [joinable]) j k pointer found
  | join sim => exact iff_of_true (elsewhere (by simp [sim])) (awake_of_ne nofun)
  | terminate sim =>
      exact iff_of_true (elsewhere (by simp [sim])) (awake_of_ne (by simp [sim]))
  | delete sim =>
      refine iff_of_true (elsewhere (by simp [sim])) (awake_of_ne ?_)
      cases s.destroying <;> simp

/-- A step of the thread `stop()` waits for. -/
theorem stopsAwake_worker_iff (inv : Consistent s) (awake : Awake s)
    (found : s.listeners i = some l) {b : WorkerAction} (stepped : l.step b = some l') :
    StopsAwake ⟨s, .worker i b, s.set i l'⟩ ↔ Awake (s.set i l') := by
  constructor
  · intro stops
    refine awake.update found fun joining pointer _ => ?_
    by_contra waits
    have stop := inv.asked (.inr joining) i l pointer found
    obtain ⟨portion, stack, rfl, dry⟩ :=
      (Listener.waiting_step_iff stepped stop).mp (Bool.not_eq_false _ ▸ waits)
    exact stops.reads joining i portion stack rfl pointer l found dry
  · intro awake'
    refine ⟨nofun, ?_⟩
    rintro joining j portion stack ⟨⟩ pointer k there dry
    have stop := inv.asked (.inr joining) i l pointer found
    have here : k = l := Option.some.inj (there.symm.trans found)
    subst here
    have waits := (Listener.waiting_step_iff stepped stop).mpr ⟨portion, stack, rfl, dry⟩
    have awake'' := awake' joining i l' pointer (Sys.set_self s i l')
    rw [waits] at awake''
    cases awake''

/-- From a state where the join makes progress, a step leads to one where it does
not exactly when it violates the condition. -/
theorem stopsAwake_iff {a : Action} (inv : Consistent s) (awake : Awake s)
    (h : s.step a = some s') : StopsAwake ⟨s, a, s'⟩ ↔ Awake s' := by
  cases (Sys.step_effect h).2 with
  | setPort port idle =>
      exact iff_of_true (stopsAwake_of_idle idle) (awake_of_ne (by simp [idle]))
  | start result created idle =>
      exact iff_of_true (stopsAwake_of_idle idle) (awake_of_ne (by simp [Sys.start_sim, idle]))
  | stopNothing destructor idle =>
      exact iff_of_true (stopsAwake_of_idle idle) (awake_of_ne (by cases destructor <;> simp))
  | @stop destructor i l idle =>
      exact iff_of_true (stopsAwake_of_idle idle) (awake_of_ne (by cases l.mRunning <;> simp))
  | resume pointer found effect => exact stopsAwake_resume_iff pointer found effect
  | expire idle =>
      exact iff_of_true (stopsAwake_of_idle idle) (awake_of_ne (by simp [Sys.expire_sim, idle]))
  | worker found stepped => exact stopsAwake_worker_iff inv awake found stepped
  | client found stepped =>
      refine iff_of_true ⟨nofun, nofun⟩ (awake.update found fun _ _ => ?_)
      exact ((inv.wf _ _ found).clientStep stepped).2

/-- In a run, the thread that `stop()` waits for always has a step of its own exactly
when no step of the run leaves it waiting for a client. -/
theorem stop_never_blocks_iff (run : Run Sys.step (Sys.init servPort) moves s) :
    (∀ m ∈ moves, Responsive m.after) ↔ ∀ m ∈ moves, StopsAwake m :=
  run.exact_guard (consistent_init servPort) (nofun : Responsive (Sys.init servPort))
    (fun _ _ _ inv h => inv.step h)
    (fun _ _ _ inv responsive h =>
      (stopsAwake_iff inv ((responsive_iff inv).mp responsive) h).trans
        (responsive_iff (inv.step h)).symm)
    fun _ _ _ _ _ _ responsive => responsive

/-- A stop while the thread is between its first statements: it will see the flag. -/
theorem prompt_stop_responsive : ∃ moves s, Run Sys.step (Sys.init 4000) moves s ∧
    moves.map Move.action =
      [.start .success true, .worker 0 .next, .stop false, .resume, .resume] ∧
    s.sim = .joining ∧ ∀ m ∈ moves, Responsive m.after := by
  have empty : Run Sys.step (Sys.init 4000) [] (Sys.init 4000) := .nil
  have run := ((((empty.snoc (a := .start .success true) rfl).snoc
    (a := .worker 0 .next) rfl).snoc (a := .stop false) rfl).snoc
    (a := .resume) rfl).snoc (a := .resume) rfl
  refine ⟨_, _, run, rfl, rfl, (stop_never_blocks_iff run).mpr ?_⟩
  simp only [List.nil_append, List.cons_append, List.forall_mem_cons]
  refine ⟨⟨nofun, nofun⟩, ⟨nofun, nofun⟩, ⟨nofun, nofun⟩, ⟨nofun, nofun⟩, ⟨?_, nofun⟩, by simp⟩
  rintro _ _ i l ⟨⟩ ⟨⟩ _
  rfl

/-- Nobody ever connects: the thread sits in `accept` and `stop()` in the join. -/
theorem stop_blocks_in_accept : ∃ s,
    exec Sys.step (Sys.init 4000) [.start .success true, .worker 0 .next, .worker 0 .next,
      .worker 0 .next, .stop false, .resume, .resume] = some s ∧
    s.sim = .joining ∧ ¬ Responsive s := by
  refine ⟨_, rfl, rfl, fun responsive => ?_⟩
  obtain ⟨a, succeeds, can⟩ := responsive rfl 0 _ rfl rfl rfl
  cases a with
  | acceptFails => cases succeeds
  | _ => cases can

/-! ### Owning the listener -/

/-- Every thread that was started and not joined belongs to the listener the module
points to. -/
def Owned (s : Sys) : Prop :=
  ∀ i l, s.listeners i = some l → l.joinable = true → s.pTcpListener = some i

/-- A `start` that returns `TCL_ERROR` leaves a running listener in place, as it
was. -/
def FailureKeeps (m : Move Sys Action) : Prop :=
  ∀ result created, m.action = .start result created → result ≠ .success →
    ∀ i l, m.before.pTcpListener = some i → m.before.listeners i = some l →
      l.joinable = true → m.after.pTcpListener = some i ∧ m.after.listeners i = some l

/-- A `start` finds no listener, or one without a thread to join. -/
def StartsClean (m : Move Sys Action) : Prop :=
  ∀ result created, m.action = .start result created →
    ∀ i l, m.before.pTcpListener = some i → m.before.listeners i = some l → l.joinable = false

theorem Owned.update (owned : Owned s) (found : s.listeners i = some l)
    (joinable : l'.joinable = l.joinable) : Owned (s.set i l') := by
  intro j k h thread
  rcases Sys.found_set h with ⟨rfl, rfl⟩ | ⟨-, h⟩
  · exact owned j l found (joinable.symm.trans thread)
  · exact owned j k h thread

theorem Owned.expire (owned : Owned s) : Owned s.expire := by
  unfold Sys.expire
  split
  · exact owned
  · split
    · exact owned
    · rename_i found
      exact owned.update found rfl

theorem Owned.resume (owned : Owned s) (pointer : s.pTcpListener = some i)
    (found : s.listeners i = some l) (effect : s.StopEffect i l s') : Owned s' := by
  cases effect with
  | storeStop => exact owned.update found rfl
  | testJoinable => exact owned
  | join =>
      intro j k there thread
      rcases Sys.found_set (s := s) there with ⟨rfl, -⟩ | ⟨-, there⟩
      · exact pointer
      · exact owned j k there thread
  | terminate => exact owned
  | delete =>
      intro j k there thread
      by_cases same : j = i
      · subst same
        simp at there
      · simp only [Function.update_of_ne same] at there
        have at_j := owned j k there thread
        rw [pointer] at at_j
        exact absurd (Option.some.inj at_j).symm same

/-- Starting over a thread that is not joined orphans it, whether or not `Setup`
succeeds. -/
theorem startsClean_start_iff (inv : Consistent s) (owned : Owned s) (result : SetupResult)
    (created : Bool) :
    StartsClean ⟨s, .start result created, s.start result created⟩ ↔
      Owned (s.start result created) ∧
        FailureKeeps ⟨s, .start result created, s.start result created⟩ := by
  constructor
  · intro clean
    refine ⟨fun j k there thread => ?_, fun _ _ _ _ i l pointer found thread => ?_⟩
    · rcases Sys.found_set (s := s) there with ⟨rfl, -⟩ | ⟨-, there⟩
      · rfl
      · have detached := clean result created rfl j k (owned j k there thread) there
        rw [thread] at detached
        cases detached
    · have detached := clean result created rfl i l pointer found
      rw [thread] at detached
      cases detached
  · rintro ⟨owned', -⟩ _ _ _ i l pointer found
    by_contra thread
    have old : i ≠ s.next := by
      rintro rfl
      have unused := inv.fresh s.next (le_refl _)
      exact absurd (found.symm.trans unused) nofun
    have still : (s.start result created).listeners i = some l :=
      (Sys.set_of_ne old).trans found
    have now := owned' i l still (Bool.not_eq_false _ ▸ thread)
    exact old (Option.some.inj now).symm

/-- From a state where the module owns its thread, a step leads to one where it does
not exactly when it starts over a listener with a thread. -/
theorem startsClean_iff {a : Action} (inv : Consistent s) (owned : Owned s)
    (h : s.step a = some s') :
    StartsClean ⟨s, a, s'⟩ ↔ Owned s' ∧ FailureKeeps ⟨s, a, s'⟩ := by
  have other : (∀ result created, a ≠ .start result created) → Owned s' →
      (StartsClean ⟨s, a, s'⟩ ↔ Owned s' ∧ FailureKeeps ⟨s, a, s'⟩) := fun ne owned' =>
    iff_of_true (fun result created eq => absurd eq (ne result created))
      ⟨owned', fun result created eq => absurd eq (ne result created)⟩
  cases (Sys.step_effect h).2 with
  | start result created => exact startsClean_start_iff inv owned result created
  | resume pointer found effect => exact other nofun (owned.resume pointer found effect)
  | expire => exact other nofun owned.expire
  | worker found stepped =>
      exact other nofun (owned.update found (Listener.step_frame stepped).1)
  | client found stepped =>
      exact other nofun (owned.update found (Listener.clientStep_frame stepped).1)
  | setPort | stopNothing | stop => exact other nofun owned

theorem owned_init (servPort : Int) : Owned (Sys.init servPort) := by
  intro i l found
  cases found

/-- In a run, the module owns every thread that is not joined, and failed starts
change nothing for it, exactly when no `start` is issued over a listener whose thread
is not joined. -/
theorem module_owns_threads_iff (run : Run Sys.step (Sys.init servPort) moves s) :
    (∀ m ∈ moves, Owned m.after ∧ FailureKeeps m) ↔ ∀ m ∈ moves, StartsClean m :=
  run.exact_guard (consistent_init servPort) (owned_init servPort)
    (fun _ _ _ inv h => inv.step h)
    (fun _ _ _ inv owned h => startsClean_iff inv owned h) fun _ _ _ _ _ _ good => good.1

/-- After a listener was joined and deleted a `start` that fails and one that succeeds are
harmless. -/
theorem restarts_owned : ∃ moves s, Run Sys.step (Sys.init 4000) moves s ∧
    moves.map Move.action =
      startToDeletion ++ [.start .socketFailed false, .start .success true, .worker 2 .next] ∧
    s.pTcpListener = some 2 ∧ (s.listeners 2).map (fun l => l.joinable) = some true ∧
    ∀ m ∈ moves, Owned m.after ∧ FailureKeeps m := by
  have empty : Run Sys.step (Sys.init 4000) [] (Sys.init 4000) := .nil
  have asked := ((((empty.snoc (a := .start .success true) rfl).snoc
    (a := .worker 0 .next) rfl).snoc (a := .stop false) rfl).snoc
    (a := .resume) rfl).snoc (a := .resume) rfl
  have ended := (((asked.snoc (a := .worker 0 .next) rfl).snoc (a := .worker 0 .next) rfl).snoc
    (a := .worker 0 .next) rfl).snoc (a := .worker 0 .next) rfl
  have deleted := (ended.snoc (a := .resume) rfl).snoc (a := .resume) rfl
  have run := ((deleted.snoc (a := .start .socketFailed false) rfl).snoc
    (a := .start .success true) rfl).snoc (a := .worker 2 .next) rfl
  refine ⟨_, _, run, rfl, rfl, rfl, (module_owns_threads_iff run).mpr ?_⟩
  simp only [List.nil_append, List.cons_append, List.forall_mem_cons]
  refine ⟨?_, nofun, nofun, nofun, nofun, nofun, nofun, nofun, nofun, nofun, nofun, ?_, ?_,
    nofun, by simp⟩
  · rintro _ _ _ i l ⟨⟩
  · rintro _ _ _ i l ⟨⟩
  · rintro _ _ ⟨⟩ i l ⟨⟩ ⟨⟩
    rfl

/-- A second start with the port unchanged: `bind` fails, `TCL_ERROR` is returned,
and the module points to the useless new listener instead of the running one. -/
theorem second_start_orphans : ∃ s s' l,
    exec Sys.step (Sys.init 4000) [.start .success true, .worker 0 .next] = some s ∧
    s.pTcpListener = some 0 ∧ s.listeners 0 = some l ∧ l.joinable = true ∧
    s.step (.start .bindFailed false) = some s' ∧ s'.pTcpListener = some 1 ∧
    ¬ Owned s' ∧ ¬ FailureKeeps ⟨s, .start .bindFailed false, s'⟩ := by
  refine ⟨_, _, _, rfl, rfl, rfl, rfl, rfl, rfl, fun owned => ?_, fun keeps => ?_⟩
  · exact absurd (owned 0 _ rfl rfl) nofun
  · exact absurd (keeps .bindFailed false rfl nofun 0 _ rfl rfl rfl).1 nofun

end UwAppNet
