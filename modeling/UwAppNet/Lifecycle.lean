import UwAppNet.Listener
import Mathlib.Logic.Function.Basic

/-!
`start`, `stop` and the destructor of `uwAppNetModule`, interleaved with the
listener threads they create.

`stop()` is cut where another thread can act: after its test of `Running()`, after
`m_stop` is stored, before and after the join. A listener that `start` replaced stays
on the heap with whatever its thread goes on doing. After a failed `read` the thread stays
where it is; that the process may be gone with it is a run that ends there.
-/

namespace UwAppNet

open Transition

/-! ### The system -/

/-- How `Setup` ends: at `socket` or `setsockopt`, at `bind`, at `listen`, or well. -/
inductive SetupResult where
  | socketFailed | bindFailed | listenFailed | success
deriving DecidableEq, Repr

/-- The server socket holds the port afterwards. -/
def SetupResult.binds : SetupResult → Bool
  | .listenFailed | .success => true
  | _ => false

/-- Where the simulator thread is: between commands, inside `stop()`, or past the
destructor. -/
inductive SimLoc where
  | idle
  | storeStop | testJoinable | joining | deleting
  | gone
deriving DecidableEq, Repr

/-- The module, its listeners on the heap and the simulator thread. `destroying`
tells a `stop()` called by the destructor, `terminated` that `std::terminate` was
called. -/
structure Sys where
  servPort : Int
  pTcpListener : Option Nat
  listeners : Nat → Option Listener
  next : Nat
  sim : SimLoc
  destroying : Bool
  terminated : Bool

/-- The commands, the rest of a `stop()`, the timer, and the steps of the listener
threads and of their clients. -/
inductive Action where
  | setPort (port : Int)
  | start (setup : SetupResult) (created : Bool)
  | stop (destructor : Bool)
  | resume
  | expire
  | worker (i : Nat) (a : WorkerAction)
  | client (i : Nat) (a : ClientAction)

namespace Listener

/-- The constructor. -/
def create (port : UInt16) : Listener where
  mRunning := false
  mStop := false
  joinable := false
  port := port
  socketSetUp := false
  bound := false
  loc := .noThread
  backlog := []
  client := none
  queuePckRead := []

/-- `Setup`. -/
def setup (l : Listener) (result : SetupResult) : Listener :=
  { l with bound := result.binds, socketSetUp := result == .success }

/-- `Start`: nothing on a running thread; else a new thread, if one can be created. -/
def startThread (l : Listener) (created : Bool) : Listener :=
  if l.mRunning then l
  else if created then { l with joinable := true, loc := .setRunning }
  else l

end Listener

namespace Sys

/-- The module as constructed. -/
def init (servPort : Int) : Sys where
  servPort := servPort
  pTcpListener := none
  listeners := fun _ => none
  next := 0
  sim := .idle
  destroying := false
  terminated := false

def set (s : Sys) (i : Nat) (l : Listener) : Sys :=
  { s with listeners := Function.update s.listeners i (some l) }

/-- Change a listener inside `stop()` and go on to the next statement. -/
def proceed (s : Sys) (i : Nat) (l : Listener) (loc : SimLoc) : Sys :=
  { s with listeners := Function.update s.listeners i (some l), sim := loc }

/-- No live listener holds the port. -/
def portFree (s : Sys) (port : UInt16) : Bool :=
  (List.range s.next).all fun i =>
    match s.listeners i with
    | some l => !(l.bound && l.port == port)
    | none => true

/-- The listener `start` creates: `Start` only after a successful `Setup`. -/
def started (s : Sys) (result : SetupResult) (created : Bool) : Listener :=
  let l := (Listener.create (UInt16.ofInt s.servPort)).setup result
  if result = .success then l.startThread created else l

/-- The command `start`; `TCL_ERROR` unless `Setup` succeeds. -/
def start (s : Sys) (result : SetupResult) (created : Bool) : Sys :=
  { s.set s.next (s.started result created) with
    pTcpListener := some s.next
    next := s.next + 1 }

/-- The beginning of `stop()`, up to the test of `Running()`. -/
def stop (s : Sys) (destructor : Bool) : Option Sys :=
  match s.pTcpListener with
  | none => some { s with sim := if destructor then .gone else .idle }
  | some i => (s.listeners i).map fun l =>
      { s with
        destroying := destructor
        sim := if l.mRunning then .storeStop else .deleting }

/-- The next statement of `stop()` on the listener `i`. -/
def resume (s : Sys) (i : Nat) (l : Listener) : Option Sys :=
  match s.sim with
  | .storeStop => some (s.proceed i { l with mStop := true } .testJoinable)
  | .testJoinable => some { s with sim := if l.joinable then .joining else .deleting }
  | .joining =>
      if l.loc = .finished then some (s.proceed i { l with joinable := false } .deleting)
      else none
  | .deleting =>
      -- destroying a joinable std::thread
      if l.joinable then some { s with terminated := true }
      else
        some { s with
          listeners := Function.update s.listeners i none
          pTcpListener := none
          sim := if s.destroying then .gone else .idle }
  | _ => none

/-- `expire`: `init_Packet_TCP` takes a packet off the queue of the current
listener. -/
def expire (s : Sys) : Sys :=
  match s.pTcpListener with
  | none => s
  | some i =>
      match s.listeners i with
      | none => s
      | some l => s.set i { l with queuePckRead := l.queuePckRead.tail }

/-- One step of one of the threads or of a client. -/
def step (s : Sys) (a : Action) : Option Sys :=
  if s.terminated then none
  else
    match a with
    | .setPort port => if s.sim = .idle then some { s with servPort := port } else none
    | .start result created =>
        if s.sim = .idle ∧ (result.binds → s.portFree (UInt16.ofInt s.servPort)) then
          some (s.start result created)
        else none
    | .stop destructor => if s.sim = .idle then s.stop destructor else none
    | .resume => s.pTcpListener.bind fun i => (s.listeners i).bind fun l => s.resume i l
    | .expire => if s.sim = .idle then some s.expire else none
    | .worker i a => (s.listeners i).bind fun l => (l.step a).map (s.set i)
    | .client i a => (s.listeners i).bind fun l => (l.clientStep a).map (s.set i)

end Sys

/-- What a statement of `stop()` on the listener `l` at `i` can be. -/
inductive Sys.StopEffect (s : Sys) (i : Nat) (l : Listener) : Sys → Prop where
  | storeStop : s.sim = .storeStop →
      StopEffect s i l (s.proceed i { l with mStop := true } .testJoinable)
  | testJoinable : s.sim = .testJoinable →
      StopEffect s i l { s with sim := if l.joinable then .joining else .deleting }
  | join : s.sim = .joining → l.loc = .finished →
      StopEffect s i l (s.proceed i { l with joinable := false } .deleting)
  | terminate : s.sim = .deleting → l.joinable = true →
      StopEffect s i l { s with terminated := true }
  | delete : s.sim = .deleting → l.joinable = false →
      StopEffect s i l { s with
        listeners := Function.update s.listeners i none
        pTcpListener := none
        sim := if s.destroying then .gone else .idle }

theorem Sys.stop_effect {s s' : Sys} {i : Nat} {l : Listener} (h : s.resume i l = some s') :
    s.StopEffect i l s' := by
  unfold Sys.resume at h
  split at h <;> rename_i sim
  · cases h
    exact .storeStop sim
  · cases h
    exact .testJoinable sim
  · simp only [Option.ite_none_right_eq_some, Option.some.injEq] at h
    obtain ⟨ended, rfl⟩ := h
    exact .join sim ended
  · split at h <;> rename_i joinable <;> cases h
    · exact .terminate sim joinable
    · exact .delete sim (Bool.eq_false_iff.mpr joinable)
  · cases h

/-- What a step of the system can be. -/
inductive Sys.Effect (s : Sys) : Action → Sys → Prop where
  | setPort (port : Int) : s.sim = .idle → Effect s (.setPort port) { s with servPort := port }
  | start (result : SetupResult) (created : Bool) : s.sim = .idle →
      Effect s (.start result created) (s.start result created)
  | stopNothing (destructor : Bool) : s.sim = .idle → s.pTcpListener = none →
      Effect s (.stop destructor) { s with sim := if destructor then .gone else .idle }
  | stop (destructor : Bool) {i : Nat} {l : Listener} : s.sim = .idle →
      s.pTcpListener = some i → s.listeners i = some l →
      Effect s (.stop destructor) { s with
        destroying := destructor
        sim := if l.mRunning then .storeStop else .deleting }
  | resume {i : Nat} {l : Listener} {s' : Sys} : s.pTcpListener = some i →
      s.listeners i = some l → s.StopEffect i l s' → Effect s .resume s'
  | expire : s.sim = .idle → Effect s .expire s.expire
  | worker {i : Nat} {l l' : Listener} {a : WorkerAction} : s.listeners i = some l →
      l.step a = some l' → Effect s (.worker i a) (s.set i l')
  | client {i : Nat} {l l' : Listener} {a : ClientAction} : s.listeners i = some l →
      l.clientStep a = some l' → Effect s (.client i a) (s.set i l')

theorem Sys.step_effect {s s' : Sys} {a : Action} (h : s.step a = some s') :
    s.terminated = false ∧ s.Effect a s' := by
  simp only [Sys.step, Option.ite_none_left_eq_some, Bool.not_eq_true] at h
  obtain ⟨running, h⟩ := h
  refine ⟨running, ?_⟩
  cases a with
  | setPort port =>
      simp only [Option.ite_none_right_eq_some, Option.some.injEq] at h
      obtain ⟨idle, rfl⟩ := h
      exact .setPort port idle
  | start result created =>
      simp only [Option.ite_none_right_eq_some, Option.some.injEq] at h
      obtain ⟨⟨idle, -⟩, rfl⟩ := h
      exact .start result created idle
  | stop destructor =>
      simp only [Option.ite_none_right_eq_some] at h
      obtain ⟨idle, h⟩ := h
      unfold Sys.stop at h
      split at h <;> rename_i pointer
      · cases h
        exact .stopNothing destructor idle pointer
      · obtain ⟨l, found, rfl⟩ := Option.map_eq_some_iff.mp h
        exact .stop destructor idle pointer found
  | resume =>
      obtain ⟨i, pointer, h⟩ := Option.bind_eq_some_iff.mp h
      obtain ⟨l, found, h⟩ := Option.bind_eq_some_iff.mp h
      exact .resume pointer found (Sys.stop_effect h)
  | expire =>
      simp only [Option.ite_none_right_eq_some, Option.some.injEq] at h
      obtain ⟨idle, rfl⟩ := h
      exact .expire idle
  | worker i b =>
      obtain ⟨l, found, h⟩ := Option.bind_eq_some_iff.mp h
      obtain ⟨l', stepped, rfl⟩ := Option.map_eq_some_iff.mp h
      exact .worker found stepped
  | client i b =>
      obtain ⟨l, found, h⟩ := Option.bind_eq_some_iff.mp h
      obtain ⟨l', stepped, rfl⟩ := Option.map_eq_some_iff.mp h
      exact .client found stepped

/-! ### The invariant of the system -/

/-- What holds in every reachable state: listeners are well formed, addresses are
fresh, and inside `stop()` the flags of the listener agree with how far it got. -/
structure Consistent (s : Sys) : Prop where
  wf : ∀ i l, s.listeners i = some l → l.WellFormed
  fresh : ∀ i, s.next ≤ i → s.listeners i = none
  final : s.terminated = true → s.sim = .deleting
  asked : s.sim = .testJoinable ∨ s.sim = .joining →
    ∀ i l, s.pTcpListener = some i → s.listeners i = some l → l.mStop = true
  joined : s.sim = .joining →
    ∀ i l, s.pTcpListener = some i → s.listeners i = some l → l.joinable = true

section Invariant

variable {s s' : Sys} {i : Nat} {l l' : Listener}

theorem consistent_init (servPort : Int) : Consistent (Sys.init servPort) := by
  constructor
  · intro i l found
    cases found
  · intro i _
    rfl
  · nofun
  · nofun
  · nofun

theorem Sys.set_self (s : Sys) (i : Nat) (l : Listener) : (s.set i l).listeners i = some l :=
  Function.update_self ..

theorem Sys.set_of_ne {j : Nat} (other : j ≠ i) : (s.set i l).listeners j = s.listeners j :=
  Function.update_of_ne other ..

theorem Sys.start_sim (s : Sys) (result : SetupResult) (created : Bool) :
    (s.start result created).sim = s.sim := rfl

theorem Sys.expire_sim (s : Sys) : s.expire.sim = s.sim := by
  unfold Sys.expire
  split
  · rfl
  · split <;> rfl

/-- The module points to one listener. -/
theorem Sys.pointed {j : Nat} {k : Listener} (pointer : s.pTcpListener = some i)
    (found : s.listeners i = some l) (at_j : s.pTcpListener = some j)
    (there : s.listeners j = some k) : j = i ∧ k = l := by
  have same : j = i := Option.some.inj (at_j.symm.trans pointer)
  subst same
  exact ⟨rfl, Option.some.inj (there.symm.trans found)⟩

/-- A listener found after a change is the changed one or was there before. -/
theorem Sys.found_set {j : Nat} {k : Listener} (h : (s.set i l).listeners j = some k) :
    (j = i ∧ k = l) ∨ (j ≠ i ∧ s.listeners j = some k) := by
  by_cases same : j = i
  · subst same
    rw [Sys.set_self] at h
    exact .inl ⟨rfl, (Option.some.inj h).symm⟩
  · rw [Sys.set_of_ne same] at h
    exact .inr ⟨same, h⟩

/-- A thread or client step on one listener keeps the invariant. -/
theorem Consistent.update (inv : Consistent s) (found : s.listeners i = some l)
    (wf : l'.WellFormed) (joinable : l'.joinable = l.joinable) (stop : l'.mStop = l.mStop) :
    Consistent (s.set i l') := by
  refine ⟨?_, ?_, inv.final, ?_, ?_⟩
  · intro j k h
    rcases Sys.found_set h with ⟨-, rfl⟩ | ⟨-, h⟩
    · exact wf
    · exact inv.wf j k h
  · intro j hj
    have other : j ≠ i := by
      rintro rfl
      rw [inv.fresh j hj] at found
      cases found
    rw [Sys.set_of_ne other]
    exact inv.fresh j hj
  · intro loc j k pointer h
    rcases Sys.found_set h with ⟨rfl, rfl⟩ | ⟨-, h⟩
    · exact stop.trans (inv.asked loc j l pointer found)
    · exact inv.asked loc j k pointer h
  · intro loc j k pointer h
    rcases Sys.found_set h with ⟨rfl, rfl⟩ | ⟨-, h⟩
    · exact joinable.trans (inv.joined loc j l pointer found)
    · exact inv.joined loc j k pointer h

theorem Sys.started_wellFormed (s : Sys) (result : SetupResult) (created : Bool) :
    (s.started result created).WellFormed := by
  cases result <;> cases created <;> constructor <;>
    simp [Sys.started, Listener.setup, Listener.create, Listener.startThread, Loc.inRun,
      Loc.serving]

/-- Storing the stop flag, or clearing it of its thread, leaves a listener well
formed. -/
theorem Listener.WellFormed.stored (wf : l.WellFormed) :
    Listener.WellFormed { l with mStop := true } :=
  ⟨wf.running, wf.joinable, wf.detached, wf.served, wf.readable⟩

theorem Listener.WellFormed.joined (wf : l.WellFormed) (ended : l.loc = .finished) :
    Listener.WellFormed { l with joinable := false } :=
  ⟨wf.running, nofun, fun _ => .inr ended, wf.served, wf.readable⟩

theorem Consistent.start (inv : Consistent s) (idle : s.sim = .idle) (result : SetupResult)
    (created : Bool) : Consistent (s.start result created) := by
  have idle' : (s.start result created).sim = .idle := idle
  refine ⟨?_, ?_, ?_, ?_, ?_⟩
  · intro j k h
    rcases Sys.found_set (s := s) h with ⟨-, rfl⟩ | ⟨-, h⟩
    · exact Sys.started_wellFormed s result created
    · exact inv.wf j k h
  · intro j hj
    have later : s.next < j := hj
    exact (Sys.set_of_ne later.ne').trans (inv.fresh j later.le)
  · exact inv.final
  · intro loc
    rw [idle'] at loc
    rcases loc with loc | loc <;> cases loc
  · intro loc
    rw [idle'] at loc
    cases loc

/-- Outside the join only the listeners matter. -/
theorem Consistent.away (wf : ∀ i l, s.listeners i = some l → l.WellFormed)
    (fresh : ∀ i, s.next ≤ i → s.listeners i = none)
    (final : s.terminated = true → s.sim = .deleting)
    (test : s.sim ≠ .testJoinable) (join : s.sim ≠ .joining) : Consistent s :=
  ⟨wf, fresh, final, fun loc => loc.elim (absurd · test) (absurd · join), (absurd · join)⟩

/-- A listener changed inside `stop()` agrees with the statement that comes next. -/
theorem Consistent.proceed (inv : Consistent s) (running : s.terminated = false)
    (pointer : s.pTcpListener = some i) (found : s.listeners i = some l) (wf : l'.WellFormed)
    {loc : SimLoc} (stop : l'.mStop = true) (joining : loc ≠ .joining) :
    Consistent (s.proceed i l' loc) := by
  have listeners : (s.proceed i l' loc).listeners = (s.set i l').listeners := rfl
  refine ⟨?_, ?_, ?_, ?_, fun at_join => absurd at_join joining⟩
  · intro j k h
    rcases Sys.found_set (listeners ▸ h) with ⟨-, rfl⟩ | ⟨-, h⟩
    · exact wf
    · exact inv.wf j k h
  · intro j hj
    have other : j ≠ i := by
      rintro rfl
      rw [inv.fresh j hj] at found
      cases found
    exact (Sys.set_of_ne other).trans (inv.fresh j hj)
  · intro terminated
    exact absurd (running.symm.trans terminated) nofun
  · intro _ j k at_j h
    have same : j = i := Option.some.inj (at_j.symm.trans pointer)
    subst same
    rcases Sys.found_set (listeners ▸ h) with ⟨-, rfl⟩ | ⟨other, -⟩
    · exact stop
    · exact absurd rfl other

theorem Consistent.resume (inv : Consistent s) (running : s.terminated = false)
    (pointer : s.pTcpListener = some i) (found : s.listeners i = some l)
    (effect : s.StopEffect i l s') : Consistent s' := by
  have wf := inv.wf i l found
  cases effect with
  | storeStop => exact inv.proceed running pointer found wf.stored rfl nofun
  | testJoinable sim =>
      refine ⟨inv.wf, inv.fresh, ?_, fun _ => inv.asked (.inl sim), ?_⟩
      · intro terminated
        exact absurd (running.symm.trans terminated) nofun
      · intro joining j k at_j there
        obtain ⟨rfl, rfl⟩ := Sys.pointed pointer found at_j there
        by_contra detached
        simp [detached] at joining
  | join sim ended =>
      exact inv.proceed running pointer found (wf.joined ended)
        (inv.asked (.inr sim) i l pointer found) nofun
  | terminate sim => exact ⟨inv.wf, inv.fresh, fun _ => sim, inv.asked, inv.joined⟩
  | delete =>
      refine Consistent.away ?_ ?_ ?_ ?_ ?_
      · intro j k h
        by_cases same : j = i
        · subst same
          simp at h
        · simp only [Function.update_of_ne same] at h
          exact inv.wf j k h
      · intro j hj
        by_cases same : j = i
        · subst same
          simp
        · simp only [Function.update_of_ne same]
          exact inv.fresh j hj
      · intro terminated
        exact absurd (running.symm.trans terminated) nofun
      · cases s.destroying <;> nofun
      · cases s.destroying <;> nofun

theorem Consistent.expire (inv : Consistent s) : Consistent s.expire := by
  unfold Sys.expire
  split
  · exact inv
  · split
    · exact inv
    · rename_i i pointer _ l found
      have wf := inv.wf i l found
      exact inv.update found ⟨wf.running, wf.joinable, wf.detached, wf.served, wf.readable⟩ rfl rfl

/-- Every step keeps the invariant. -/
theorem Consistent.step (inv : Consistent s) {a : Action} (h : s.step a = some s') :
    Consistent s' := by
  obtain ⟨running, effect⟩ := Sys.step_effect h
  cases effect with
  | setPort port => exact ⟨inv.wf, inv.fresh, inv.final, inv.asked, inv.joined⟩
  | start result created idle => exact inv.start idle result created
  | stopNothing destructor =>
      refine Consistent.away inv.wf inv.fresh (fun terminated => ?_) ?_ ?_
      · exact absurd (running.symm.trans terminated) nofun
      · cases destructor <;> nofun
      · cases destructor <;> nofun
  | @stop destructor i l =>
      refine Consistent.away inv.wf inv.fresh (fun terminated => ?_) ?_ ?_
      · exact absurd (running.symm.trans terminated) nofun
      · cases l.mRunning <;> nofun
      · cases l.mRunning <;> nofun
  | resume pointer found effect => exact inv.resume running pointer found effect
  | expire => exact inv.expire
  | worker found stepped =>
      obtain ⟨joinable, stop, -⟩ := Listener.step_frame stepped
      exact inv.update found ((inv.wf _ _ found).step stepped) joinable stop
  | client found stepped =>
      obtain ⟨joinable, stop, -, -⟩ := Listener.clientStep_frame stepped
      exact inv.update found ((inv.wf _ _ found).clientStep stepped).1 joinable stop

theorem consistent_run {servPort : Int} {moves : List (Move Sys Action)}
    (run : Run Sys.step (Sys.init servPort) moves s) : Consistent s :=
  run.invariant (consistent_init servPort) fun _ _ _ inv h => inv.step h

end Invariant

end UwAppNet
