import UwAppNet.Shutdown
import UwAppNet.Lib.Simulation

/-!
What a listener thread still does once `m_stop` is set.

The flag is read only at the two loop heads, so the thread first ends what it is at: it
may accept one more client and read one more message. `Loc.left` counts the steps that can
still come, and no step of anyone raises it. They are steps of the model, of several C++
statements each; a `read` that fails is the last one.
-/

namespace UwAppNet

open Transition

/-- The steps a thread at this location can still take when `m_stop` is set. -/
def Loc.left : Loc → Nat
  | .noThread | .finished | .fault => 0
  | .clearRunning => 1
  | .closeServer => 2
  | .runHead => 3
  | .runEntry | .closeClient => 4
  | .setRunning | .clientHead => 5
  | .accepting | .pushing _ => 6
  | .readData _ => 7
  | .readLength => 8
  | .readTag => 9
  | .selecting => 10

/-- The packets it can still enqueue: one, when it is past the loop head. -/
def Loc.yields : Loc → Nat
  | .selecting | .readTag | .readLength | .readData _ | .pushing _ => 1
  | _ => 0

namespace Listener

variable {l l' : Listener} {a : WorkerAction}

/-- The message a step enqueues. -/
def pushes (l : Listener) (a : WorkerAction) : Bool :=
  match l.loc, a with
  | .pushing _, .next => true
  | _, _ => false

theorem left_afterRead {loc : Loc} {n : Nat} (request : loc.request = some n) (stack : Buffer)
    (bs : List UInt8) : (loc.afterRead stack bs).left < loc.left ∧
      (loc.afterRead stack bs).yields ≤ loc.yields := by
  cases loc <;> simp only [Loc.request, reduceCtorEq] at request <;>
    simp only [Loc.afterRead] <;> split <;> try split
  all_goals simp [Loc.left, Loc.yields]

/-- Every step of the thread is one fewer to come. -/
theorem left_step (stop : l.mStop = true) (h : l.step a = some l') :
    l'.loc.left + 1 ≤ l.loc.left ∧
      l'.loc.yields + (if l.pushes a then 1 else 0) ≤ l.loc.yields := by
  cases step_effect h with
  | next stepped =>
      unfold Listener.next at stepped
      split at stepped <;> rename_i loc <;> cases stepped <;>
        simp [Loc.left, Loc.yields, pushes, loc, stop]
      cases l.socketSetUp <;> simp
  | accept loc backlog => simp [Loc.left, Loc.yields, pushes, loc]
  | acceptFails loc => simp [Loc.left, Loc.yields, pushes, loc]
  | timeout loc client => simp [Loc.left, Loc.yields, pushes, loc]
  | ready loc client readable => simp [Loc.left, Loc.yields, pushes, loc]
  | read portion stack request client unblocked =>
      obtain ⟨left, yields⟩ := left_afterRead request stack (Connection.taken _ _ portion)
      refine ⟨left, ?_⟩
      simpa [pushes] using yields
  | readFails request client =>
      cases loc : l.loc <;> rw [loc] at request <;> cases request <;>
        simp [Loc.left, Loc.yields, pushes, loc]

end Listener

/-! ### A thread nobody keeps -/

namespace Listener

/-- Told to stop, past the `accept`, and whoever it serves has closed the connection. -/
structure Leaving (l : Listener) : Prop where
  stop : l.mStop = true
  started : l.loc ≠ .noThread
  past : l.loc ≠ .accepting
  closed : ∀ c, l.client = some c → c.closed = true

variable {l l' : Listener}

/-- At the loop heads the thread turns away from `accept`. -/
theorem next_past (stop : l.mStop = true) (h : l.next = some l') :
    l'.loc ≠ .noThread ∧ l'.loc ≠ .accepting ∧ (l'.client = l.client ∨ l'.client = none) := by
  unfold Listener.next at h
  split at h <;> cases h <;> simp [stop]
  cases l.socketSetUp <;> simp

theorem Leaving.step (inv : l.Leaving) {a : WorkerAction} (h : l.step a = some l') :
    l'.Leaving := by
  have stop := (step_frame h).2.1.trans inv.stop
  cases step_effect h with
  | next stepped =>
      obtain ⟨started, past, client⟩ := next_past inv.stop stepped
      refine ⟨stop, started, past, fun c served => ?_⟩
      rcases client with same | none
      · exact inv.closed c (same ▸ served)
      · rw [none] at served
        cases served
  | accept loc => exact absurd loc inv.past
  | acceptFails loc => exact absurd loc inv.past
  | timeout => exact ⟨stop, by simp, by simp, inv.closed⟩
  | ready => exact ⟨stop, by simp, by simp, inv.closed⟩
  | @read n c portion stack request client =>
      have serving := afterRead_serving l.loc stack (c.taken n portion)
      have past := afterRead_ne_accepting l.loc stack (c.taken n portion)
      refine ⟨stop, ?_, past, ?_⟩
      · intro none
        simp only at none
        rw [none] at serving
        cases serving
      · rintro _ ⟨⟩
        exact inv.closed c client
  | readFails => exact ⟨stop, by simp, by simp, inv.closed⟩

theorem Leaving.onConnection (inv : l.Leaving) (target : Option Nat)
    {f : Connection → Connection} (keeps : ∀ c, c.closed = true → (f c).closed = true) :
    (l.onConnection target f).Leaving := by
  cases target with
  | none =>
      refine ⟨inv.stop, inv.started, inv.past, fun c served => ?_⟩
      obtain ⟨d, before, rfl⟩ := Option.map_eq_some_iff.mp served
      exact keeps d (inv.closed d before)
  | some j => exact ⟨inv.stop, inv.started, inv.past, inv.closed⟩

theorem Leaving.clientStep (inv : l.Leaving) {a : ClientAction} (h : l.clientStep a = some l') :
    l'.Leaving := by
  cases a with
  | connect =>
      simp only [Listener.clientStep, Option.ite_none_right_eq_some, Option.some.injEq] at h
      obtain ⟨-, rfl⟩ := h
      exact ⟨inv.stop, inv.started, inv.past, inv.closed⟩
  | send target bs =>
      cases h
      apply inv.onConnection target
      intro c closed
      rwa [Connection.arrive, if_pos closed]
  | hangUp target =>
      cases h
      exact inv.onConnection target fun _ _ => rfl

/-- Such a thread does not wait. -/
theorem Leaving.awake (inv : l.Leaving) : l.waiting = false := by
  have past := inv.past
  cases client : l.client with
  | none => simp [waiting, client, past]
  | some c => simp [waiting, client, past, Connection.readable, inv.closed c client]

end Listener

/-! ### One listener in the system -/

/-- What a step of the system is for the listener `i`: a step of its thread, of its clients,
or neither. -/
inductive Sys.At (i : Nat) (s : Sys) : Action → Sys → Prop where
  | worker {s' : Sys} {l l' : Listener} {b : WorkerAction} : s.listeners i = some l →
      l.step b = some l' → s'.listeners i = some l' → At i s (.worker i b) s'
  | client {s' : Sys} {l l' : Listener} {b : ClientAction} : s.listeners i = some l →
      l.clientStep b = some l' → s'.listeners i = some l' → At i s (.client i b) s'
  | other {a : Action} {s' : Sys} : (∀ b, a ≠ .worker i b) →
      (∀ l', s'.listeners i = some l' → ∃ l, s.listeners i = some l ∧
        l'.loc = l.loc ∧ l'.client = l.client ∧ (l.mStop = true → l'.mStop = true)) →
      At i s a s'

section Step

variable {s s' : Sys} {i j : Nat} {a : Action} {l l' : Listener}

/-- Nothing happened to the listener. -/
theorem Sys.At.same (away : ∀ b, a ≠ .worker i b) (same : s'.listeners i = s.listeners i) :
    s.At i a s' := by
  refine .other away fun l' found => ⟨l', ?_, rfl, rfl, id⟩
  rw [← same, found]

/-- One listener was changed by the module. -/
theorem Sys.At.set (away : ∀ b, a ≠ .worker i b) (found : s.listeners j = some l)
    (changed : s'.listeners = (s.set j l').listeners) (loc : l'.loc = l.loc)
    (client : l'.client = l.client) (stop : l.mStop = true → l'.mStop = true) : s.At i a s' := by
  by_cases same : i = j
  · subst same
    refine .other away fun k h => ⟨l, found, ?_⟩
    rw [changed, Sys.set_self, Option.some.injEq] at h
    subst h
    exact ⟨loc, client, stop⟩
  · exact .same away (by rw [changed, Sys.set_of_ne same])

theorem Sys.At.stop (pointer : s.pTcpListener = some j) (found : s.listeners j = some l)
    (effect : s.StopEffect j l s') : s.At i .resume s' := by
  cases effect with
  | storeStop => exact .set nofun found rfl rfl rfl fun _ => rfl
  | testJoinable => exact .same nofun rfl
  | join => exact .set nofun found rfl rfl rfl id
  | terminate => exact .same nofun rfl
  | delete =>
      refine .other nofun fun l' h => ?_
      by_cases same : i = j
      · subst same
        simp at h
      · simp only [Function.update_of_ne same] at h
        exact ⟨l', h, rfl, rfl, id⟩

theorem Sys.step_at (known : i < s.next) (h : s.step a = some s') :
    i < s'.next ∧ s.At i a s' := by
  cases (Sys.step_effect h).2 with
  | setPort => exact ⟨known, .same nofun rfl⟩
  | start =>
      exact ⟨known.trans (Nat.lt_succ_self _), .same nofun (Sys.set_of_ne known.ne)⟩
  | stopNothing => exact ⟨known, .same nofun rfl⟩
  | stop => exact ⟨known, .same nofun rfl⟩
  | resume pointer found effect =>
      refine ⟨?_, Sys.At.stop pointer found effect⟩
      cases effect <;> exact known
  | expire =>
      unfold Sys.expire
      split
      · exact ⟨known, .same nofun rfl⟩
      · split
        · exact ⟨known, .same nofun rfl⟩
        · rename_i found
          exact ⟨known, .set nofun found rfl rfl rfl id⟩
  | @worker j l l' b found stepped =>
      refine ⟨known, ?_⟩
      by_cases same : i = j
      · subst same
        exact .worker found stepped (Sys.set_self s i l')
      · refine .same (fun b' eq => ?_) (Sys.set_of_ne same)
        cases eq
        exact same rfl
  | @client j l l' b found stepped =>
      refine ⟨known, ?_⟩
      by_cases same : i = j
      · subst same
        exact .client found stepped (Sys.set_self s i l')
      · exact .same nofun (Sys.set_of_ne same)

end Step

/-! ### What is left of a run -/

/-- A step of the thread of the listener `i`. -/
def Action.isWorker (i : Nat) : Action → Bool
  | .worker j _ => j == i
  | _ => false

/-- A step with which it enqueues a packet. -/
def Sys.pushes (i : Nat) (m : Move Sys Action) : Bool :=
  match m.action with
  | .worker j b => j == i && (m.before.listeners i).any fun l => l.pushes b
  | _ => false

/-- The listener `i`, as long as it exists, was told to stop. -/
def Asked (i : Nat) (s : Sys) : Prop :=
  i < s.next ∧ ∀ l, s.listeners i = some l → l.mStop = true

/-- As long as it exists, nothing can make its thread wait. -/
def Departing (i : Nat) (s : Sys) : Prop :=
  i < s.next ∧ ∀ l, s.listeners i = some l → l.Leaving

/-- What is left of the thread of `i`. -/
def Sys.left (i : Nat) (s : Sys) : Nat :=
  match s.listeners i with
  | some l => l.loc.left
  | none => 0

def Sys.yields (i : Nat) (s : Sys) : Nat :=
  match s.listeners i with
  | some l => l.loc.yields
  | none => 0

section Run

variable {s s' : Sys} {i : Nat} {a : Action} {l l' : Listener}

theorem Asked.step (inv : Asked i s) (h : s.step a = some s') : Asked i s' := by
  obtain ⟨known, at_i⟩ := Sys.step_at inv.1 h
  refine ⟨known, fun k there => ?_⟩
  cases at_i with
  | worker found stepped found' =>
      rw [found', Option.some.injEq] at there
      exact there ▸ (Listener.step_frame stepped).2.1.trans (inv.2 _ found)
  | client found stepped found' =>
      rw [found', Option.some.injEq] at there
      exact there ▸ (Listener.clientStep_frame stepped).2.1.trans (inv.2 _ found)
  | other away kept =>
      obtain ⟨l, found, -, -, stop⟩ := kept k there
      exact stop (inv.2 l found)

theorem Departing.step (inv : Departing i s) (h : s.step a = some s') : Departing i s' := by
  obtain ⟨known, at_i⟩ := Sys.step_at inv.1 h
  refine ⟨known, fun k there => ?_⟩
  cases at_i with
  | worker found stepped found' =>
      rw [found', Option.some.injEq] at there
      exact there ▸ (inv.2 _ found).step stepped
  | client found stepped found' =>
      rw [found', Option.some.injEq] at there
      exact there ▸ (inv.2 _ found).clientStep stepped
  | other away kept =>
      obtain ⟨l, found, loc, client, stop⟩ := kept k there
      have leaving := inv.2 l found
      refine ⟨stop leaving.stop, ?_, ?_, ?_⟩
      · rw [loc]
        exact leaving.started
      · rw [loc]
        exact leaving.past
      · rw [client]
        exact leaving.closed

/-- No step raises what is left, and a step of the thread takes one off. -/
theorem Asked.falls (inv : Asked i s) (h : s.step a = some s') :
    s'.left i + (if a.isWorker i then 1 else 0) ≤ s.left i ∧
      s'.yields i + (if Sys.pushes i ⟨s, a, s'⟩ then 1 else 0) ≤ s.yields i := by
  obtain ⟨-, at_i⟩ := Sys.step_at inv.1 h
  cases at_i with
  | worker found stepped found' =>
      have falls := Listener.left_step (inv.2 _ found) stepped
      simpa [Sys.left, Sys.yields, Sys.pushes, Action.isWorker, found, found'] using falls
  | client found stepped found' =>
      have loc := (Listener.clientStep_frame stepped).2.2.1
      simp [Sys.left, Sys.yields, Sys.pushes, Action.isWorker, found, found', loc]
  | other away kept =>
      have idle : a.isWorker i = false ∧ Sys.pushes i ⟨s, a, s'⟩ = false := by
        cases a with
        | worker j b =>
            have ne : j ≠ i := fun same => away b (by rw [same])
            simp [Action.isWorker, Sys.pushes, ne]
        | _ => exact ⟨rfl, rfl⟩
      rw [idle.1, idle.2]
      cases found' : s'.listeners i with
      | none => simp [Sys.left, Sys.yields, found']
      | some l' =>
          obtain ⟨l, found, loc, -, -⟩ := kept l' found'
          simp [Sys.left, Sys.yields, found, found', loc]

variable {servPort : Int} {moves moves' : List (Move Sys Action)}

theorem Loc.left_le (loc : Loc) : loc.left ≤ 10 ∧ loc.yields ≤ 1 := by
  cases loc <;> simp [Loc.left, Loc.yields]

theorem Sys.left_le (i : Nat) (s : Sys) : s.left i ≤ 10 ∧ s.yields i ≤ 1 := by
  unfold Sys.left Sys.yields
  cases s.listeners i with
  | none => simp
  | some l => exact l.loc.left_le

/-- So a run has no more of them than were left at its start. -/
theorem Asked.bounded (inv : Asked i s) (later : Run Sys.step s moves' s') :
    moves'.countP (fun m => m.action.isWorker i) ≤ 10 ∧ moves'.countP (Sys.pushes i) ≤ 1 := by
  obtain ⟨left, yields⟩ := Sys.left_le i s
  have statements := later.count_le_rank (Sys.left i) (fun m => m.action.isWorker i) inv
    (fun _ _ _ inv h => inv.step h) fun _ _ _ inv h => (inv.falls h).1
  have packets := later.count_le_rank (Sys.yields i) (Sys.pushes i) inv
    (fun _ _ _ inv h => inv.step h) fun _ _ _ inv h => (inv.falls h).2
  exact ⟨by omega, by omega⟩

/-- Listeners on the heap are below `next`. -/
theorem known_of_found (run : Run Sys.step (Sys.init servPort) moves s)
    (found : s.listeners i = some l) : i < s.next := by
  by_contra fresh
  rw [(consistent_run run).fresh i (not_lt.mp fresh)] at found
  cases found

/-- Once `m_stop` of a listener is set, its thread takes at most ten more steps and enqueues at
most one more packet, whatever the clients send, whichever commands follow and whether or not
anyone waits for it. -/
theorem stopped_thread_bounded (run : Run Sys.step (Sys.init servPort) moves s)
    (found : s.listeners i = some l) (asked : l.mStop = true)
    (later : Run Sys.step s moves' s') :
    moves'.countP (fun m => m.action.isWorker i) ≤ 10 ∧ moves'.countP (Sys.pushes i) ≤ 1 := by
  have inv : Asked i s := by
    refine ⟨known_of_found run found, fun k there => ?_⟩
    rw [found, Option.some.injEq] at there
    exact there ▸ asked
  exact inv.bounded later

/-- A thread in a `select` with a whole message before it when `stop()` stores the flag: it
still reads the message, enqueues it, and ends with the tenth step. -/
def selectingAtStop : List Action :=
  [.start .success true, .worker 0 .next, .worker 0 .next, .worker 0 .next, .client 0 .connect,
    .worker 0 .accept, .worker 0 .next, .client 0 (.send none (frame [7])), .stop false, .resume]

def lastStatements : List Action :=
  [.worker 0 (.select true), .worker 0 (.read 4 staleStack), .worker 0 (.read 4 staleStack),
    .worker 0 (.read 1 staleStack), .worker 0 .next, .worker 0 .next, .worker 0 .next,
    .worker 0 .next, .worker 0 .next, .worker 0 .next]

/-- Both bounds are reached. -/
theorem ten_statements_one_packet : ∃ s l moves' s',
    exec Sys.step (Sys.init 4000) selectingAtStop = some s ∧ s.listeners 0 = some l ∧
      l.mStop = true ∧ Run Sys.step s moves' s' ∧
      moves'.countP (fun m => m.action.isWorker 0) = 10 ∧
      (s'.listeners 0).map (fun l => (l.queuePckRead, l.loc)) = some ([[7]], .finished) ∧
      moves'.countP (fun m => m.action.isWorker 0) ≤ 10 ∧ moves'.countP (Sys.pushes 0) ≤ 1 := by
  have ran : ((exec Sys.step (Sys.init 4000) selectingAtStop).bind fun s =>
      (exec Sys.step s lastStatements).map fun s' => ((s.listeners 0).map fun l => l.mStop,
        (s'.listeners 0).map fun l => (l.queuePckRead, l.loc))) =
      some (some true, some ([[7]], .finished)) := by decide +kernel
  obtain ⟨s, first, rest⟩ := Option.bind_eq_some_iff.mp ran
  obtain ⟨s', second, seen⟩ := Option.map_eq_some_iff.mp rest
  obtain ⟨flag, last⟩ := Prod.mk.inj seen
  obtain ⟨l, found, asked⟩ := Option.map_eq_some_iff.mp flag
  obtain ⟨moves, run, -⟩ := run_of_exec first
  obtain ⟨moves', later, actions⟩ := run_of_exec second
  refine ⟨s, l, moves', s', first, found, asked, later, ?_, last,
    stopped_thread_bounded run found asked later⟩
  have count := congrArg (List.countP (Action.isWorker 0)) actions
  rw [List.countP_map] at count
  exact count

/-- If the client served, if any, has closed its end, a thread told to stop that is not in
`accept` comes to its end without anyone's help: until then, or until a `read` fails, it always
has a step, and it has at most ten. -/
theorem departed_client_frees (run : Run Sys.step (Sys.init servPort) moves s)
    (found : s.listeners i = some l) (leaving : l.Leaving) (later : Run Sys.step s moves' s') :
    moves'.countP (fun m => m.action.isWorker i) ≤ 10 ∧
      ∀ l', s'.listeners i = some l' → l'.loc.ended = false →
        ∃ b : WorkerAction, b.succeeds = true ∧ (l'.step b).isSome = true := by
  have inv : Departing i s := by
    refine ⟨known_of_found run found, fun k there => ?_⟩
    rw [found, Option.some.injEq] at there
    exact there ▸ leaving
  have asked : Asked i s := ⟨inv.1, fun k there => (inv.2 k there).stop⟩
  refine ⟨(asked.bounded later).1, fun l' found' unfinished => ?_⟩
  have consistent := later.invariant (consistent_run run) fun _ _ _ inv h => inv.step h
  have leaving' := (later.invariant inv fun _ _ _ inv h => inv.step h).2 l' found'
  exact ((consistent.wf i l' found').can_step_iff leaving'.started unfinished).mpr leaving'.awake

/-- The same thread, whose client has sent the tag of a message only and closed: it is not
kept waiting for the rest. -/
theorem cut_off_client_frees : ∃ s l moves' s' l',
    exec Sys.step (Sys.init 4000) [.start .success true, .worker 0 .next, .worker 0 .next,
      .worker 0 .next, .client 0 .connect, .worker 0 .accept, .worker 0 .next,
      .client 0 (.send none (LittleEndian.encode 4 magicTag)), .client 0 (.hangUp none),
      .stop false, .resume] = some s ∧
    s.listeners 0 = some l ∧ Run Sys.step s moves' s' ∧ s'.listeners 0 = some l' ∧
      l'.loc = .readLength ∧
      ∃ b : WorkerAction, b.succeeds = true ∧ (l'.step b).isSome = true := by
  have ran : ((exec Sys.step (Sys.init 4000) [.start .success true, .worker 0 .next,
      .worker 0 .next, .worker 0 .next, .client 0 .connect, .worker 0 .accept, .worker 0 .next,
      .client 0 (.send none (LittleEndian.encode 4 magicTag)), .client 0 (.hangUp none),
      .stop false, .resume]).bind fun s =>
      (exec Sys.step s [.worker 0 (.select true), .worker 0 (.read 4 staleStack)]).map fun s' =>
        ((s.listeners 0).map fun l => (l.mStop, l.loc, l.client.map Connection.closed),
          (s'.listeners 0).map fun l => l.loc)) =
      some (some (true, .selecting, some true), some .readLength) := by decide +kernel
  obtain ⟨s, first, rest⟩ := Option.bind_eq_some_iff.mp ran
  obtain ⟨s', second, seen⟩ := Option.map_eq_some_iff.mp rest
  obtain ⟨before, after⟩ := Prod.mk.inj seen
  obtain ⟨l, found, at_s⟩ := Option.map_eq_some_iff.mp before
  obtain ⟨l', found', loc'⟩ := Option.map_eq_some_iff.mp after
  simp only [Prod.mk.injEq] at at_s
  obtain ⟨stop, loc, closed⟩ := at_s
  obtain ⟨moves, run, -⟩ := run_of_exec first
  obtain ⟨moves', later, -⟩ := run_of_exec second
  have leaving : l.Leaving := by
    refine ⟨stop, by simp [loc], by simp [loc], fun c served => ?_⟩
    simpa [served] using closed
  exact ⟨s, l, moves', s', l', first, found, later, found', loc',
    (departed_client_frees run found leaving later).2 l' found' (by rw [loc']; rfl)⟩

end Run

end UwAppNet
