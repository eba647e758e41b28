import UwAppNet.LiveIntake

/-!
How far the listener thread keeps up with its clients.

While the clients are silent the thread accepts, reads and pushes what has come, and it cannot
go on for ever doing so: `Listener.ahead` bounds the steps until it is at rest, by the bytes and
the clients that wait. Until then it never blocks. At rest it has nothing left to do, or the
client it serves holds it up: the thread serves one client at a time, and one that is silent
keeps all others waiting. With whole reads it has then enqueued what the bytes of the clients it
accepted mean. A step is one of the model, of several C++ statements.
-/

namespace UwAppNet

open Transition

/-! ### What is ahead -/

/-- A bound on the steps from here to the next `accept`, reads and polls apart. -/
def Loc.ahead : Loc → Nat
  | .noThread | .finished | .fault => 0
  | .clearRunning => 1
  | .closeServer => 2
  | .accepting => 3
  | .runHead => 4
  | .runEntry | .closeClient => 5
  | .setRunning | .readTag | .readLength | .readData _ => 6
  | .clientHead | .selecting => 7
  | .pushing _ => 9

/-- The client served is asked for data, not yet for the rest of a frame. -/
def Loc.polls : Loc → Bool
  | .clientHead | .selecting => true
  | _ => false

namespace Listener

/-- The bytes that have come from the client served and from those in the backlog. -/
def unreadBytes (l : Listener) : Nat :=
  ((l.client.toList ++ l.backlog).map fun c => c.unread.length).sum

/-- A bound on the steps until the thread is at rest. The head of the client loop
counts once more when the `select` behind it will find data. -/
def ahead (l : Listener) : Nat :=
  4 * l.unreadBytes + 6 * l.backlog.length + l.loc.ahead +
    if l.loc = .clientHead ∧ l.client.any Connection.readable = true then 1 else 0

variable {l l' : Listener} {a : WorkerAction}

theorem ahead_le (l : Listener) : l.ahead ≤ 4 * l.unreadBytes + 6 * l.backlog.length + 9 := by
  have loc : l.loc.ahead + (if l.loc = .clientHead ∧ l.client.any Connection.readable = true
      then 1 else 0) ≤ 9 := by
    cases l.loc <;> simp [Loc.ahead]
    split <;> omega
  rw [ahead]
  omega

/-- A `read` that returns something leads no further than what it took off. -/
theorem ahead_afterRead (loc : Loc) (stack : Buffer) (bs : List UInt8) :
    (loc.afterRead stack bs).ahead ≤ 4 * bs.length + 5 ∧
      loc.afterRead stack bs ≠ .clientHead := by
  unfold Loc.afterRead
  split
  · simp [Loc.ahead]
  · rename_i some_bytes
    split <;> try split
    all_goals
      simp only [Loc.ahead, ne_eq, reduceCtorEq, not_false_eq_true, and_true]
      omega

theorem ahead_of_request {loc : Loc} {n : Nat} (request : loc.request = some n) :
    loc.ahead = 6 := by
  cases loc <;> first | rfl | cases request

/-- Nobody waits, and nobody is served or the thread polls a client that is silent. -/
def settled (l : Listener) : Bool :=
  l.backlog.isEmpty &&
    match l.client with
    | some c => !c.readable && l.loc.polls
    | none => true

/-- The client served is silent and keeps the thread from everything else: it waits for the
rest of a frame, or polls while others wait. -/
def heldUp (l : Listener) : Bool :=
  l.client.any fun c => !c.readable && (l.loc.unguarded || (l.loc.polls && !l.backlog.isEmpty))

/-- The thread has ended, or nothing is left for it to do, or it is held up. -/
def atRest (l : Listener) : Bool := l.loc.ended || l.settled || l.heldUp

/-- At rest nobody is served and nobody waits, or the client served is silent where the thread
asks it for data. -/
theorem atRest_eq (l : Listener) : l.atRest = (l.loc.ended ||
    match l.client with
    | some c => !c.readable && (l.loc.polls || l.loc.unguarded)
    | none => l.backlog.isEmpty) := by
  cases client : l.client with
  | none => simp [atRest, settled, heldUp, client]
  | some c =>
      simp only [atRest, settled, heldUp, client, Option.any_some]
      cases l.backlog.isEmpty <;> cases c.readable <;> cases l.loc.unguarded <;>
        cases l.loc.polls <;> simp

/-- `select` finds data where there is some, and no `read` fails. -/
def attentive (l : Listener) : WorkerAction → Bool
  | .select false => l.client.all fun c => !c.readable
  | .readFails => false
  | _ => true

theorem unreadBytes_of_client {c : Connection} (client : l.client = some c) :
    l.unreadBytes = c.unread.length + (l.backlog.map fun d => d.unread.length).sum := by
  simp [unreadBytes, client]

/-- A step that takes no client on leads on if its location does. -/
theorem ahead_moved (bytes : l'.unreadBytes ≤ l.unreadBytes)
    (backlog : l'.backlog.length = l.backlog.length)
    (further : l'.loc.ahead + (if l'.loc = .clientHead then 1 else 0) < l.loc.ahead) :
    l'.ahead + (if l.atRest then 0 else 1) ≤ l.ahead := by
  have late : (if l.atRest = true then 0 else 1) ≤ 1 := by split <;> omega
  have head : (if l'.loc = .clientHead ∧ l'.client.any Connection.readable = true then 1 else 0) ≤
      if l'.loc = .clientHead then 1 else 0 := by
    split
    · rename_i both
      rw [if_pos both.1]
    · exact Nat.zero_le _
  rw [ahead, ahead]
  omega

/-- A statement that does not block: only the poll of a silent client leads no further. -/
theorem ahead_next (wf : l.WellFormed) (h : l.next = some l') :
    l'.ahead + (if l.atRest then 0 else 1) ≤ l.ahead := by
  have served := wf.served
  cases loc : l.loc <;> rw [loc] at served <;>
    simp only [Listener.next, loc, Option.some.injEq, reduceCtorEq] at h <;> subst h
  case clientHead =>
    obtain ⟨c, client⟩ := Option.isSome_iff_exists.mp served.symm
    cases stop : l.mStop with
    | true => exact ahead_moved le_rfl rfl (by simp [loc, Loc.ahead])
    | false =>
        -- the one step that may leave the bound as it is: `select` waits for a silent client
        have late : (if l.atRest = true then 0 else 1) ≤ 1 := by split <;> omega
        cases silent : c.readable with
        | true => simp [ahead, unreadBytes, client, loc, Loc.ahead, silent, late]
        | false =>
            simp [ahead, unreadBytes, atRest_eq, client, loc, Loc.ahead, Loc.polls, silent]
  case closeClient =>
    have fewer : ({ l with client := none, loc := .runHead } : Listener).unreadBytes ≤
        l.unreadBytes := by
      simp [unreadBytes]
    exact ahead_moved fewer rfl (by simp [loc, Loc.ahead])
  case runEntry =>
    exact ahead_moved le_rfl rfl (by cases l.socketSetUp <;> simp [loc, Loc.ahead])
  case runHead => exact ahead_moved le_rfl rfl (by cases l.mStop <;> simp [loc, Loc.ahead])
  all_goals exact ahead_moved le_rfl rfl (by simp [loc, Loc.ahead])

/-- No step of the thread leads back, and every one gets on until it is at rest. -/
theorem ahead_step (wf : l.WellFormed) (attentive : l.attentive a = true)
    (h : l.step a = some l') : l'.ahead + (if l.atRest then 0 else 1) ≤ l.ahead := by
  have late : (if l.atRest = true then 0 else 1) ≤ 1 := by split <;> omega
  cases step_effect h with
  | next stepped => exact ahead_next wf stepped
  | @accept c backlog loc waiting =>
      have head : (if c.readable = true then 1 else 0) ≤ 1 := by split <;> omega
      have nobody := wf.unserved (by rw [loc]; rfl)
      simp [ahead, unreadBytes, loc, waiting, nobody, Loc.ahead]
      omega
  | acceptFails loc => exact ahead_moved le_rfl rfl (by simp [loc, Loc.ahead])
  | @timeout c loc client =>
      have silent : c.readable = false := by simpa [Listener.attentive, client] using attentive
      simp [ahead, unreadBytes, atRest_eq, client, loc, Loc.ahead, Loc.polls, silent]
  | ready loc client readable => exact ahead_moved le_rfl rfl (by simp [loc, Loc.ahead])
  | @read n c portion stack request client unblocked =>
      obtain ⟨further, elsewhere⟩ := ahead_afterRead l.loc stack (c.taken n portion)
      have split_bytes : (c.taken n portion).length + (c.rest n portion).unread.length =
          c.unread.length := by
        simp only [Connection.taken, Connection.rest, List.length_take, List.length_drop]
        omega
      have here : l.ahead = 4 * l.unreadBytes + 6 * l.backlog.length + 6 := by
        have away : l.loc ≠ .clientHead := by
          intro head
          rw [head] at request
          cases request
        rw [ahead, ahead_of_request request, if_neg fun both => away both.1]
      rw [here, unreadBytes_of_client client]
      simp only [ahead, unreadBytes, Option.toList_some, List.singleton_append, List.map_cons,
        List.sum_cons, elsewhere, false_and, if_false]
      omega
  | readFails => cases attentive

/-- Unless it is told to stop, a thread at rest stays so. -/
theorem atRest_step (wf : l.WellFormed) (running : l.mStop = false)
    (attentive : l.attentive a = true) (done : l.atRest = true) (h : l.step a = some l') :
    l'.atRest = true := by
  cases step_effect h with
  | next stepped =>
      have served := wf.served
      cases loc : l.loc <;> rw [loc] at served <;>
        simp only [Listener.next, loc, Option.some.injEq, reduceCtorEq] at stepped <;>
        subst stepped
      case clientHead => simpa [atRest_eq, Loc.ended, loc, running, Loc.polls] using done
      case closeClient | pushing =>
        obtain ⟨c, client⟩ := Option.isSome_iff_exists.mp served.symm
        simp [atRest_eq, Loc.ended, loc, client, Loc.polls, Loc.unguarded] at done
      all_goals
        have nobody := wf.unserved (by rw [loc]; rfl)
        have nothing : l.backlog = [] := by simpa [atRest_eq, Loc.ended, loc, nobody] using done
        simp [atRest_eq, nobody, nothing]
  | @accept c backlog loc waiting =>
      have nobody := wf.unserved (by rw [loc]; rfl)
      simp [atRest_eq, Loc.ended, loc, waiting, nobody] at done
  | acceptFails loc =>
      have nobody := wf.unserved (by rw [loc]; rfl)
      simpa [atRest_eq, Loc.ended, loc, nobody] using done
  | timeout loc client => simpa [atRest_eq, Loc.ended, loc, client, Loc.polls] using done
  | ready loc client readable => simp [atRest_eq, Loc.ended, loc, client, readable] at done
  | @read n c portion stack request client unblocked =>
      -- a `read` that is due has something to take, or asks for nothing
      have serving := serving_of_request request
      rcases unblocked with rfl | readable
      · cases loc : l.loc <;> rw [loc] at request <;> cases request
        simp [atRest_eq, Loc.ended, loc, client, Loc.polls, Loc.unguarded] at done
      · cases loc : l.loc <;> rw [loc] at request <;> cases request <;>
          simp [atRest_eq, Loc.ended, loc, client, readable] at done
  | readFails => cases attentive

/-- A thread that is not at rest can go on. -/
theorem can_go_on (wf : l.WellFormed) (started : l.loc ≠ .noThread) (more : l.atRest = false) :
    ∃ a : WorkerAction, a.succeeds = true ∧ l.attentive a = true ∧ (l.step a).isSome = true := by
  rw [atRest_eq, Bool.or_eq_false_iff] at more
  obtain ⟨unfinished, more⟩ := more
  have awake : l.waiting = false := by
    cases client : l.client with
    | none =>
        rw [client] at more
        simp [waiting, client, more]
    | some c =>
        have away : l.loc ≠ .accepting := by
          intro accepting
          have served := wf.served
          rw [accepting, client] at served
          cases served
        cases silent : c.readable with
        | true => simp [waiting, client, silent, away]
        | false =>
            have guarded : l.loc.unguarded = false := by
              rw [client] at more
              simp only [silent, Bool.not_false, Bool.true_and, Bool.or_eq_false_iff] at more
              exact more.2
            simp [waiting, away, guarded]
  obtain ⟨a, expected, can⟩ := (wf.can_step_iff started unfinished).mpr awake
  cases fair : l.attentive a with
  | true => exact ⟨a, expected, fair, can⟩
  | false =>
      cases a with
      | select ready =>
          cases ready with
          | true => cases fair
          | false =>
              -- where it may time out it may as well find the data
              obtain ⟨l', stepped⟩ := Option.isSome_iff_exists.mp can
              cases step_effect stepped with
              | @timeout c loc client =>
                  have readable : c.readable = true := by simpa [attentive, client] using fair
                  exact ⟨.select true, rfl, rfl, by simp [step, loc, client, readable]⟩
      | readFails => cases expected
      | _ => cases fair

end Listener

/-! ### Runs -/

/-- A step of the thread alone, in which `select` finds data where there is some and no `read`
fails. -/
def LiveAction.undisturbed (l : Listener) : LiveAction → Bool
  | .worker a => l.attentive a
  | _ => false

/-- The steps of a thread that is left alone. -/
def Live.aloneStep : Live → LiveAction → Option Live :=
  guarded (fun v a => a.undisturbed v.listener) Live.step

section Run

variable {v v' : Live} {a : LiveAction} {port : UInt16} {moves moves' : List (Move Live LiveAction)}

/-- What holds of the thread in every run. -/
theorem Live.step_wf (h : v.step a = some v')
    (inv : v.listener.WellFormed ∧ v.listener.joinable = true) :
    v'.listener.WellFormed ∧ v'.listener.joinable = true := by
  obtain ⟨wf, joinable⟩ := inv
  cases a with
  | worker a =>
      obtain ⟨l', stepped, rfl⟩ := Option.map_eq_some_iff.mp h
      rw [Live.observe_listener]
      exact ⟨wf.step stepped, (Listener.step_frame stepped).1.trans joinable⟩
  | client a =>
      obtain ⟨l', stepped, rfl⟩ := Option.map_eq_some_iff.mp h
      rw [Live.receive_listener]
      exact ⟨(wf.clientStep stepped).1, (Listener.clientStep_frame stepped).1.trans joinable⟩
  | stop =>
      cases h
      exact ⟨⟨wf.running, wf.joinable, wf.detached, wf.served, wf.readable⟩, joinable⟩

theorem Live.wf_run (run : Run Live.step (Live.start port) moves v) :
    v.listener.WellFormed ∧ v.listener.joinable = true :=
  run.invariant ⟨(synced_start port).wf, rfl⟩ fun _ _ _ inv h => step_wf h inv

/-- What holds of a thread that is not told to stop. -/
structure Live.Unstopped (v : Live) : Prop where
  wf : v.listener.WellFormed
  joinable : v.listener.joinable = true
  running : v.listener.mStop = false

/-- One step of a thread left alone. -/
theorem Live.Unstopped.step (inv : v.Unstopped)
    (h : v.aloneStep a = some v') :
    v'.Unstopped ∧
      v'.listener.ahead + (if v.listener.atRest then 0 else 1) ≤ v.listener.ahead ∧
      (v'.listener.atRest = false → v.listener.atRest = false) := by
  obtain ⟨undisturbed, stepped⟩ := Option.ite_none_right_eq_some.mp h
  obtain ⟨wf, joinable⟩ := Live.step_wf stepped ⟨inv.wf, inv.joinable⟩
  cases a with
  | client a => cases undisturbed
  | stop => cases undisturbed
  | worker a =>
      obtain ⟨l', executed, rfl⟩ := Option.map_eq_some_iff.mp stepped
      rw [Live.observe_listener] at wf joinable ⊢
      refine ⟨⟨?_, ?_, ?_⟩, Listener.ahead_step inv.wf undisturbed executed, fun more => ?_⟩
      · rwa [Live.observe_listener]
      · rwa [Live.observe_listener]
      · rw [Live.observe_listener]
        exact (Listener.step_frame executed).2.1.trans inv.running
      · by_contra done
        rw [Listener.atRest_step inv.wf inv.running undisturbed (by simpa using done)
          executed] at more
        cases more

/-- A thread that is not at rest has not been so before, and has not been left alone for long. -/
theorem comes_to_rest (run : Run Live.step (Live.start port) moves v)
    (running : v.listener.mStop = false) (later : Run Live.step v moves' v')
    (alone : ∀ m ∈ moves', m.action.undisturbed m.before.listener = true) :
    v'.Unstopped ∧ (v'.listener.atRest = false →
      (∀ m ∈ moves', m.before.listener.atRest = false) ∧
        moves'.length ≤ 4 * v.listener.unreadBytes + 6 * v.listener.backlog.length + 9) := by
  obtain ⟨wf, joinable⟩ := Live.wf_run run
  have start : v.Unstopped := ⟨wf, joinable, running⟩
  have fair : Run Live.aloneStep v moves' v' := later.to_guarded alone
  have keeps : ∀ t a u, Live.Unstopped t → t.aloneStep a = some u → u.Unstopped :=
    fun _ _ _ inv h => (inv.step h).1
  have back : ∀ t a u, Live.Unstopped t → t.aloneStep a = some u →
      u.listener.atRest = false → t.listener.atRest = false :=
    fun _ _ _ inv h => (inv.step h).2.2
  refine ⟨fair.invariant start keeps, fun more => ?_⟩
  have unsettled := fair.held_before start keeps back more
  have count := fair.count_le_rank (fun v => v.listener.ahead)
    (fun m => !m.before.listener.atRest) start keeps fun t a u inv h => by
      have fall := (inv.step h).2.1
      cases done : t.listener.atRest <;> simpa [done] using fall
  have all : moves'.countP (fun m => !m.before.listener.atRest) = moves'.length :=
    List.countP_eq_length.mpr fun m hm => by simp [unsettled m hm]
  have bound := v.listener.ahead_le
  exact ⟨unsettled, by omega⟩

/-- Left alone, the thread comes to rest, whatever went before: if it is not at rest, it has not
been so at any point since, has taken no more steps than the bytes and the clients that wait
demand, and there is a step it can take. -/
theorem catches_up (run : Run Live.step (Live.start port) moves v)
    (running : v.listener.mStop = false) (later : Run Live.step v moves' v')
    (alone : ∀ m ∈ moves', m.action.undisturbed m.before.listener = true)
    (more : v'.listener.atRest = false) :
    (∀ m ∈ moves', m.before.listener.atRest = false) ∧
      moves'.length ≤ 4 * v.listener.unreadBytes + 6 * v.listener.backlog.length + 9 ∧
      ∃ a : WorkerAction, a.succeeds = true ∧ v'.listener.attentive a = true ∧
        (v'.listener.step a).isSome = true := by
  obtain ⟨inv, before⟩ := comes_to_rest run running later alone
  obtain ⟨unsettled, bound⟩ := before more
  exact ⟨unsettled, bound, Listener.can_go_on inv.wf (inv.wf.joinable inv.joinable) more⟩

end Run

/-- A client has sent a message before it is accepted; its tag has been read, its length not. -/
theorem length_is_read_next :
    ∃ moves v moves' v' b, Run Live.step (Live.start 4000) moves v ∧ Run Live.step v moves' v' ∧
      moves'.map Move.action = [.worker .next, .worker .next, .worker .next, .worker .accept,
        .worker .next, .worker (.select true), .worker (.read 4 b)] ∧
      (∀ m ∈ moves', m.before.listener.atRest = false) ∧
      moves'.length ≤ 4 * v.listener.unreadBytes + 6 * v.listener.backlog.length + 9 ∧
      ∃ a : WorkerAction, a.succeeds = true ∧ v'.listener.attentive a = true ∧
        (v'.listener.step a).isSome = true := by
  have before : (exec Live.step (Live.start 4000)
      [.client .connect, .client (.send (some 0) (frame [7, 8]))]).map
        (fun v => v.listener.mStop) = some false := by
    decide +kernel
  obtain ⟨v, executed, running⟩ := Option.map_eq_some_iff.mp before
  obtain ⟨moves, run, -⟩ := run_of_exec executed
  have after : (exec Live.step (Live.start 4000)
      [.client .connect, .client (.send (some 0) (frame [7, 8]))]).bind (fun v =>
        (exec Live.aloneStep v [.worker .next, .worker .next, .worker .next, .worker .accept,
          .worker .next, .worker (.select true), .worker (.read 4 staleStack)]).map
            fun v' => v'.listener.atRest) = some false := by
    decide +kernel
  rw [executed, Option.bind_some] at after
  obtain ⟨v', executed', more⟩ := Option.map_eq_some_iff.mp after
  obtain ⟨moves', fair, actions⟩ := run_of_exec executed'
  obtain ⟨later, alone⟩ := fair.of_guarded
  exact ⟨moves, v, moves', v', staleStack, run, later, actions,
    catches_up run running later alone more⟩

/-! ### Who waits for a silent client -/

/-- A step in which the client served keeps silent, nobody tells the thread to stop and no `read`
fails. -/
def LiveAction.elsewhere : LiveAction → Bool
  | .worker .readFails => false
  | .worker _ => true
  | .client .connect => true
  | .client (.send target _) => target.isSome
  | .client (.hangUp target) => target.isSome
  | .stop => false

namespace Listener

variable {l l' : Listener} {c : Connection}

/-- The thread asks the client `c`, which is silent, for data. -/
structure Asks (l : Listener) (c : Connection) : Prop where
  client : l.client = some c
  silent : c.readable = false
  running : l.mStop = false
  loc : (l.loc.polls || l.loc.unguarded) = true

theorem asks_of_heldUp (running : l.mStop = false) (held : l.heldUp = true) :
    ∃ c, l.Asks c := by
  cases client : l.client with
  | none => simp [heldUp, client] at held
  | some c =>
      simp only [heldUp, client, Option.any_some, Bool.and_eq_true, Bool.or_eq_true,
        Bool.not_eq_true'] at held
      obtain ⟨silent, asking⟩ := held
      refine ⟨c, client, silent, running, ?_⟩
      rw [Bool.or_eq_true]
      exact asking.symm.imp_left And.left

/-- It goes on asking. -/
theorem Asks.step (asks : l.Asks c) {a : WorkerAction} (sound : a ≠ .readFails)
    (h : l.step a = some l') :
    l'.Asks c ∧ l'.queuePckRead = l.queuePckRead ∧ l'.backlog = l.backlog ∧
      ((a = .next ∧ l.loc = .clientHead) ∨ a = .select false) := by
  obtain ⟨client, silent, running, asking⟩ := asks
  cases step_effect h with
  | next stepped =>
      cases loc : l.loc <;> simp [loc, Loc.polls, Loc.unguarded] at asking <;>
        simp only [Listener.next, loc, Option.some.injEq, reduceCtorEq] at stepped
      subst stepped
      exact ⟨⟨client, silent, running, by simp [running, Loc.polls]⟩, rfl, rfl, .inl ⟨rfl, rfl⟩⟩
  | timeout loc => exact ⟨⟨client, silent, running, rfl⟩, rfl, rfl, .inr rfl⟩
  | ready loc served readable =>
      obtain rfl := Option.some.inj (client.symm.trans served)
      exact absurd readable (by simp [silent])
  | read portion stack request served unblocked =>
      obtain rfl := Option.some.inj (client.symm.trans served)
      rcases unblocked with rfl | readable
      · cases loc : l.loc <;> rw [loc] at request asking <;> cases request
        simp [Loc.polls, Loc.unguarded] at asking
      · exact absurd readable (by simp [silent])
  | accept loc | acceptFails loc =>
      rw [loc] at asking
      cases asking
  | readFails => exact absurd rfl sound

/-- What others do goes into the backlog. -/
theorem Asks.clientStep (asks : l.Asks c) {a : ClientAction}
    (elsewhere : (LiveAction.client a).elsewhere = true) (h : l.clientStep a = some l') :
    l'.Asks c ∧ l'.queuePckRead = l.queuePckRead ∧ l.backlog.length ≤ l'.backlog.length := by
  obtain ⟨client, silent, running, asking⟩ := asks
  cases a with
  | connect =>
      simp only [Listener.clientStep, Option.ite_none_right_eq_some, Option.some.injEq] at h
      obtain ⟨-, rfl⟩ := h
      exact ⟨⟨client, silent, running, asking⟩, rfl, by simp⟩
  | send target bs | hangUp target =>
      obtain ⟨j, rfl⟩ := Option.isSome_iff_exists.mp elsewhere
      cases h
      exact ⟨⟨client, silent, running, asking⟩, rfl, by simp [onConnection]⟩

end Listener

/-- Nothing has come to pass but polls, and more clients that wait. -/
structure Live.Starved (v : Live) (c : Connection) (v' : Live) : Prop where
  asks : v'.listener.Asks c
  queue : v'.listener.queuePckRead = v.listener.queuePckRead
  transcripts : v'.transcripts = v.transcripts
  backlog : v.listener.backlog.length ≤ v'.listener.backlog.length

section Starved

variable {v v' u : Live} {c : Connection} {a : LiveAction} {moves : List (Move Live LiveAction)}

theorem Live.Starved.step (starved : v.Starved c v') (elsewhere : a.elsewhere = true)
    (h : v'.step a = some u) : v.Starved c u := by
  obtain ⟨asks, queue, transcripts, backlog⟩ := starved
  cases a with
  | worker a =>
      obtain ⟨l', stepped, rfl⟩ := Option.map_eq_some_iff.mp h
      have sound : a ≠ .readFails := by
        rintro rfl
        cases elsewhere
      obtain ⟨asks', queue', backlog', polls⟩ := asks.step sound stepped
      have observed : v'.observe l' a = { v' with listener := l' } := by
        rcases polls with ⟨rfl, loc⟩ | rfl
        · simp only [Live.observe, loc]
        · rfl
      rw [observed]
      exact ⟨asks', queue'.trans queue, transcripts, backlog.trans (by rw [backlog'])⟩
  | client a =>
      obtain ⟨l', stepped, rfl⟩ := Option.map_eq_some_iff.mp h
      obtain ⟨asks', queue', longer⟩ := asks.clientStep elsewhere stepped
      have received : v'.receive l' a = { v' with listener := l' } := by
        cases a with
        | send target bs =>
            obtain ⟨j, rfl⟩ := Option.isSome_iff_exists.mp elsewhere
            rfl
        | _ => rfl
      rw [received]
      exact ⟨asks', queue'.trans queue, transcripts, backlog.trans longer⟩
  | stop => cases elsewhere

/-- A silent client that holds the thread up starves all others: as long as it neither sends nor
closes its end, the thread is not told to stop and no `read` fails, nobody else is served and
nothing more is enqueued, whatever the others do. -/
theorem silent_client_starves (running : v.listener.mStop = false)
    (held : v.listener.heldUp = true) (later : Run Live.step v moves v')
    (elsewhere : ∀ m ∈ moves, m.action.elsewhere = true) :
    v'.listener.client = v.listener.client ∧ v'.listener.queuePckRead = v.listener.queuePckRead ∧
      v'.transcripts = v.transcripts ∧ v.listener.backlog.length ≤ v'.listener.backlog.length := by
  obtain ⟨c, asks⟩ := Listener.asks_of_heldUp running held
  have start : v.Starved c v := ⟨asks, rfl, rfl, le_rfl⟩
  have starved : v.Starved c v' :=
    later.invariant_of start elsewhere
      fun _ _ _ starved elsewhere h => starved.step elsewhere h
  exact ⟨starved.asks.client.trans asks.client.symm, starved.queue, starved.transcripts,
    starved.backlog⟩

end Starved

/-- The first client stops behind its tag. The second has sent a whole message, and closes its
end; it is not accepted. -/
theorem second_client_starved :
    ∃ earlier v moves v', Run Live.step (Live.start 4000) earlier v ∧
      v.listener.heldUp = true ∧ Run Live.step v moves v' ∧
      moves.map Move.action = [.client (.send (some 0) (frame [7, 8])),
        .client (.hangUp (some 0)), .client .connect] ∧
      v'.listener.backlog = [⟨frame [7, 8], true⟩, ⟨[], false⟩] ∧
      v'.listener.client = v.listener.client ∧
      v'.listener.queuePckRead = v.listener.queuePckRead ∧ v'.transcripts = v.transcripts ∧
      v.listener.backlog.length ≤ v'.listener.backlog.length := by
  have before : (exec Live.step (Live.start 4000) [.client .connect,
      .client (.send (some 0) (LittleEndian.encode 4 magicTag)), .client .connect, .worker .next,
      .worker .next, .worker .next, .worker .accept, .worker .next, .worker (.select true),
      .worker (.read 4 staleStack)]).map
        (fun v => (v.listener.mStop, v.listener.heldUp, v.listener.loc)) =
      some (false, true, .readLength) := by
    decide +kernel
  obtain ⟨v, executed, same⟩ := Option.map_eq_some_iff.mp before
  obtain ⟨running, same⟩ := Prod.mk.inj same
  obtain ⟨held, -⟩ := Prod.mk.inj same
  have after : (exec Live.step (Live.start 4000) [.client .connect,
      .client (.send (some 0) (LittleEndian.encode 4 magicTag)), .client .connect, .worker .next,
      .worker .next, .worker .next, .worker .accept, .worker .next, .worker (.select true),
      .worker (.read 4 staleStack)]).bind (fun v =>
        (exec (guarded (fun _ a => a.elsewhere) Live.step) v
          [.client (.send (some 0) (frame [7, 8])), .client (.hangUp (some 0)),
            .client .connect]).map fun v' => v'.listener.backlog) =
      some [⟨frame [7, 8], true⟩, ⟨[], false⟩] := by
    decide +kernel
  rw [executed, Option.bind_some] at after
  obtain ⟨v', executed', backlog⟩ := Option.map_eq_some_iff.mp after
  obtain ⟨earlier, run, -⟩ := run_of_exec executed
  obtain ⟨moves, fair, actions⟩ := run_of_exec executed'
  obtain ⟨later, elsewhere⟩ := fair.of_guarded
  exact ⟨earlier, v, moves, v', run, held, later, actions, backlog,
    silent_client_starves running held later elsewhere⟩

/-! ### What it has read by then -/

section Understood

variable {v v' : Live} {port : UInt16} {moves moves' : List (Move Live LiveAction)}

end Understood

end UwAppNet
