import UwAppNet.Framing
import UwAppNet.Lib.Transition

/-!
The listener thread: `StoppableThread::RunInternal`, `TcpListener::Run` and
`HandleTCPclient`, one statement at a time.

`Loc` says which statement the thread is about to execute; a step of the model stands for
the C++ statements up to the next one that another thread or a client can affect. Clients
act on the listener only through its backlog and through the bytes of their connections. A
failed `read` makes `HandleTCPclient` copy `(size_t)-1` bytes: what the thread does then is
undefined, and in the model it does nothing more.
-/

namespace UwAppNet

/-! ### The state -/

/-- The statement the listener thread is about to execute. -/
inductive Loc where
  | noThread
  -- RunInternal
  | setRunning | clearRunning | finished
  -- Run
  | runEntry | runHead | accepting | closeServer
  -- HandleTCPclient and ReceivePacket
  | clientHead | selecting | readTag | readLength | readData (n : Nat)
  | pushing (data : List UInt8) | closeClient
  -- the `memcpy` after a failed `read`
  | fault
deriving DecidableEq, Repr

/-- `Run` has been entered and has not returned, as far as `m_running` tells. -/
def Loc.inRun : Loc → Bool
  | .noThread | .setRunning | .finished => false
  | _ => true

/-- A client is being served. -/
def Loc.serving : Loc → Bool
  | .clientHead | .selecting | .readTag | .readLength | .readData _ | .pushing _
  | .closeClient | .fault => true
  | _ => false

/-- The thread does nothing more. -/
def Loc.ended : Loc → Bool
  | .finished | .fault => true
  | _ => false

/-- A client connection: the bytes that arrived and were not read, and whether the
client closed its end. -/
structure Connection where
  unread : List UInt8
  closed : Bool
deriving DecidableEq, Repr

/-- A `read` returns and `select` reports the socket ready. -/
def Connection.readable (c : Connection) : Bool := !c.unread.isEmpty || c.closed

/-- The members of `StoppableThread`; `joinable` is that of `m_thread`. -/
structure StoppableThread where
  mRunning : Bool
  mStop : Bool
  joinable : Bool

/-- A `TcpListener` with the position of its thread. `bound` says that the server
socket holds its port, `queuePckRead` lists the payloads of the queued packets. -/
structure Listener extends StoppableThread where
  port : UInt16
  socketSetUp : Bool
  bound : Bool
  loc : Loc
  backlog : List Connection
  client : Option Connection
  queuePckRead : List (List UInt8)

/-! ### The thread's steps -/

/-- What a step of the thread depends on besides the state: whether a blocking call
succeeds, how much a `read` returns, what the stack held before it. -/
inductive WorkerAction where
  | next
  | accept
  | acceptFails
  | select (ready : Bool)
  | read (portion : Nat) (stack : Buffer)
  | readFails

/-- No call fails in the step. -/
def WorkerAction.succeeds : WorkerAction → Bool
  | .acceptFails | .readFails => false
  | _ => true

/-- The number of bytes the pending `read` asks for. -/
def Loc.request : Loc → Option Nat
  | .readTag => some 4
  | .readLength => some 4
  | .readData n => some n
  | _ => none

/-- Where a `read` that returned `bs` leads: the tests of `ReceivePacket` and the
test of its return value. -/
def Loc.afterRead (loc : Loc) (stack : Buffer) (bs : List UInt8) : Loc :=
  if bs.length = 0 then .closeClient
  else
    match loc with
    | .readTag => if (stack.store bs).word ≠ magicTag then .closeClient else .readLength
    | .readLength =>
        if (stack.store bs).word > maxLengthPayload then .closeClient
        else .readData (stack.store bs).word
    | _ => .pushing bs

/-- The bytes a `read` of `n` takes from a connection: at least one while there are
any. -/
def Connection.taken (c : Connection) (n portion : Nat) : List UInt8 :=
  c.unread.take (min (max 1 portion) n)

def Connection.rest (c : Connection) (n portion : Nat) : Connection :=
  { c with unread := c.unread.drop (min (max 1 portion) n) }

namespace Listener

/-- The statements that neither block nor depend on the peer. -/
def next (l : Listener) : Option Listener :=
  match l.loc with
  | .setRunning => some { l with mRunning := true, loc := .runEntry }
  | .runEntry => some { l with loc := if l.socketSetUp then .runHead else .clearRunning }
  | .runHead => some { l with loc := if l.mStop then .closeServer else .accepting }
  | .clientHead => some { l with loc := if l.mStop then .closeClient else .selecting }
  | .pushing data =>
      some { l with queuePckRead := l.queuePckRead ++ [data], loc := .clientHead }
  | .closeClient => some { l with client := none, loc := .runHead }
  | .closeServer => some { l with bound := false, loc := .clearRunning }
  | .clearRunning => some { l with mRunning := false, loc := .finished }
  | _ => none

/-- One step of the listener thread. -/
def step (l : Listener) : WorkerAction → Option Listener
  | .next => l.next
  | .accept =>
      match l.loc, l.backlog with
      | .accepting, c :: backlog =>
          some { l with client := some c, backlog := backlog, loc := .clientHead }
      | _, _ => none
  | .acceptFails => if l.loc = .accepting then some { l with loc := .closeServer } else none
  | .select ready =>
      match l.loc, l.client with
      | .selecting, some c =>
          if ready && !c.readable then none
          else some { l with loc := if ready then .readTag else .clientHead }
      | _, _ => none
  | .read portion stack =>
      match l.loc.request, l.client with
      | some n, some c =>
          if n ≠ 0 && !c.readable then none
          else some { l with
            client := some (c.rest n portion)
            loc := l.loc.afterRead stack (c.taken n portion) }
      | _, _ => none
  | .readFails =>
      match l.loc.request, l.client with
      | some _, some _ => some { l with loc := .fault }
      | _, _ => none

end Listener

/-! ### The clients' steps -/

/-- What clients do: one connects, or the one served (`none`) or waiting in the
backlog (`some j`) sends bytes or closes its end. -/
inductive ClientAction where
  | connect
  | send (target : Option Nat) (bs : List UInt8)
  | hangUp (target : Option Nat)

/-- Bytes arrive, unless the client closed its end before. -/
def Connection.arrive (bs : List UInt8) (c : Connection) : Connection :=
  if c.closed then c else { c with unread := c.unread ++ bs }

def Connection.hangUp (c : Connection) : Connection := { c with closed := true }

namespace Listener

/-- Change the connection of one client. -/
def onConnection (l : Listener) (target : Option Nat) (f : Connection → Connection) : Listener :=
  match target with
  | none => { l with client := l.client.map f }
  | some j => { l with backlog := l.backlog.modify j f }

/-- A step of the clients; nobody can connect to a socket that is not set up. -/
def clientStep (l : Listener) : ClientAction → Option Listener
  | .connect =>
      if l.socketSetUp && l.bound then some { l with backlog := l.backlog ++ [⟨[], false⟩] }
      else none
  | .send target bs => some (l.onConnection target (Connection.arrive bs))
  | .hangUp target => some (l.onConnection target Connection.hangUp)

end Listener

/-! ### What the thread may wait for -/

/-- The next `read` is not preceded by a `select` and asks for at least a byte. -/
def Loc.unguarded : Loc → Bool
  | .readLength => true
  | .readData n => n != 0
  | _ => false

namespace Listener

/-- The thread waits for a client: to connect, or to go on with a frame. -/
def waiting (l : Listener) : Bool :=
  (l.loc == .accepting && l.backlog.isEmpty) ||
    (l.loc.unguarded && l.client.any fun c => !c.readable)

/-- What holds of a listener at every step of its thread. -/
structure WellFormed (l : Listener) : Prop where
  running : l.mRunning = l.loc.inRun
  joinable : l.joinable = true → l.loc ≠ .noThread
  detached : l.joinable = false → l.loc = .noThread ∨ l.loc = .finished
  served : l.loc.serving = l.client.isSome
  readable : l.loc = .readTag → ∀ c, l.client = some c → c.readable = true

variable {l l' : Listener} {a : WorkerAction}

/-- What a step of the thread can be: a statement that does not block, a connection
accepted or not, a `select` that times out or finds data, a `read` that returns or fails. -/
inductive Effect (l : Listener) : WorkerAction → Listener → Prop where
  | next {l' : Listener} : l.next = some l' → Effect l .next l'
  | accept {c : Connection} {backlog : List Connection} :
      l.loc = .accepting → l.backlog = c :: backlog →
      Effect l .accept { l with client := some c, backlog := backlog, loc := .clientHead }
  | acceptFails : l.loc = .accepting → Effect l .acceptFails { l with loc := .closeServer }
  | timeout {c : Connection} : l.loc = .selecting → l.client = some c →
      Effect l (.select false) { l with loc := .clientHead }
  | ready {c : Connection} : l.loc = .selecting → l.client = some c → c.readable = true →
      Effect l (.select true) { l with loc := .readTag }
  | read {n : Nat} {c : Connection} (portion : Nat) (stack : Buffer) :
      l.loc.request = some n → l.client = some c → n = 0 ∨ c.readable = true →
      Effect l (.read portion stack) { l with
        client := some (c.rest n portion)
        loc := l.loc.afterRead stack (c.taken n portion) }
  | readFails {n : Nat} {c : Connection} : l.loc.request = some n → l.client = some c →
      Effect l .readFails { l with loc := .fault }

theorem step_effect (h : l.step a = some l') : l.Effect a l' := by
  cases a with
  | next => exact .next h
  | accept =>
      simp only [step] at h
      split at h
      · rename_i c backlog loc pending
        cases h
        exact .accept loc pending
      · cases h
  | acceptFails =>
      simp only [step, Option.ite_none_right_eq_some, Option.some.injEq] at h
      obtain ⟨loc, rfl⟩ := h
      exact .acceptFails loc
  | select ready =>
      simp only [step] at h
      split at h
      · rename_i c loc client
        cases ready with
        | false =>
            cases h
            exact .timeout loc client
        | true =>
            simp only [Bool.true_and, Bool.not_eq_true', Option.ite_none_left_eq_some,
              Option.some.injEq, Bool.not_eq_false, if_true] at h
            obtain ⟨readable, rfl⟩ := h
            exact .ready loc client readable
      · cases h
  | read portion stack =>
      simp only [step] at h
      split at h
      · rename_i n c request client
        simp only [Bool.and_eq_true, decide_eq_true_eq, Bool.not_eq_true',
          Option.ite_none_left_eq_some, Option.some.injEq] at h
        obtain ⟨unblocked, rfl⟩ := h
        refine .read portion stack request client ?_
        by_contra blocked
        simp only [not_or, Bool.not_eq_true] at blocked
        exact unblocked (by simpa using blocked)
      · cases h
  | readFails =>
      simp only [step] at h
      split at h
      · rename_i n c request client
        cases h
        exact .readFails request client
      · cases h

/-- What a statement that does not block can be. -/
theorem next_frame (h : l.next = some l') :
    l'.joinable = l.joinable ∧ l'.mStop = l.mStop ∧ l'.port = l.port ∧
      l'.backlog = l.backlog := by
  unfold next at h
  split at h <;> cases h <;> exact ⟨rfl, rfl, rfl, rfl⟩

/-- The thread does not touch its own thread object, nor the stop flag. -/
theorem step_frame (h : l.step a = some l') :
    l'.joinable = l.joinable ∧ l'.mStop = l.mStop ∧ l'.port = l.port := by
  cases step_effect h with
  | next stepped =>
      obtain ⟨joinable, stop, port, -⟩ := next_frame stepped
      exact ⟨joinable, stop, port⟩
  | _ => exact ⟨rfl, rfl, rfl⟩

/-- A `read` is made for a client that is served. -/
theorem serving_of_request {loc : Loc} {n : Nat} (h : loc.request = some n) :
    loc.serving = true := by
  cases loc <;> first | rfl | cases h

theorem afterRead_serving (loc : Loc) (stack : Buffer) (bs : List UInt8) :
    (loc.afterRead stack bs).serving = true := by
  unfold Loc.afterRead
  split
  · rfl
  · split <;> try split
    all_goals rfl

theorem afterRead_ne_readTag (loc : Loc) (stack : Buffer) (bs : List UInt8) :
    loc.afterRead stack bs ≠ .readTag := by
  unfold Loc.afterRead
  split
  · simp
  · split <;> try split
    all_goals simp

theorem inRun_of_serving {loc : Loc} (h : loc.serving = true) : loc.inRun = true := by
  cases loc <;> first | rfl | cases h

theorem live_of_serving {loc : Loc} (h : loc.serving = true) :
    loc ≠ .noThread ∧ loc ≠ .finished := by
  cases loc <;> simp [Loc.serving] at h ⊢

/-- Nobody is served where the thread is not in `HandleTCPclient`. -/
theorem WellFormed.unserved (wf : l.WellFormed) (away : l.loc.serving = false) :
    l.client = none := by
  rw [wf.served] at away
  exact Option.not_isSome_iff_eq_none.mp (by simp [away])

/-- A thread that was started and has not ended is joinable. -/
theorem WellFormed.joinable_of_live (wf : l.WellFormed) (started : l.loc ≠ .noThread)
    (unfinished : l.loc ≠ .finished) : l.joinable = true := by
  by_contra detached
  rcases wf.detached (Bool.eq_false_iff.mpr detached) with loc | loc
  · exact started loc
  · exact unfinished loc

/-- A step that only moves the thread on keeps the invariant as far as its new
location agrees with the flags. -/
theorem WellFormed.moved (wf : l.WellFormed) (started : l.loc ≠ .noThread)
    (unfinished : l.loc ≠ .finished) (joinable : l'.joinable = l.joinable)
    (running : l'.mRunning = l'.loc.inRun) (started' : l'.loc ≠ .noThread)
    (served : l'.loc.serving = l'.client.isSome)
    (readable : l'.loc = .readTag → ∀ c, l'.client = some c → c.readable = true) :
    l'.WellFormed := by
  have thread := wf.joinable_of_live started unfinished
  refine ⟨running, fun _ => started', fun detached => ?_, served, readable⟩
  rw [joinable, thread] at detached
  cases detached

theorem WellFormed.next (wf : l.WellFormed) (h : l.next = some l') : l'.WellFormed := by
  have running := wf.running
  have served := wf.served
  cases loc : l.loc <;> rw [loc] at running served <;>
    simp only [Listener.next, loc, Option.some.injEq, reduceCtorEq] at h <;> subst h
  case setRunning =>
    exact wf.moved (by simp [loc]) (by simp [loc]) rfl rfl nofun served nofun
  case runEntry =>
    refine wf.moved (by simp [loc]) (by simp [loc]) rfl ?_ ?_ ?_ ?_ <;> dsimp only <;> split
    all_goals first | exact running | exact served | nofun
  case runHead =>
    refine wf.moved (by simp [loc]) (by simp [loc]) rfl ?_ ?_ ?_ ?_ <;> dsimp only <;> split
    all_goals first | exact running | exact served | nofun
  case clientHead =>
    refine wf.moved (by simp [loc]) (by simp [loc]) rfl ?_ ?_ ?_ ?_ <;> dsimp only <;> split
    all_goals first | exact running | exact served | nofun
  case pushing data =>
    exact wf.moved (by simp [loc]) (by simp [loc]) rfl running nofun served nofun
  case closeClient =>
    exact wf.moved (by simp [loc]) (by simp [loc]) rfl running nofun rfl nofun
  case closeServer =>
    exact wf.moved (by simp [loc]) (by simp [loc]) rfl running nofun served nofun
  case clearRunning =>
    exact wf.moved (by simp [loc]) (by simp [loc]) rfl rfl nofun served nofun

/-- Every step of the thread keeps the invariant. -/
theorem WellFormed.step (wf : l.WellFormed) (h : l.step a = some l') : l'.WellFormed := by
  have running := wf.running
  have served := wf.served
  cases step_effect h with
  | next stepped => exact wf.next stepped
  | accept loc =>
      rw [loc] at running
      exact wf.moved (by simp [loc]) (by simp [loc]) rfl running nofun rfl nofun
  | acceptFails loc =>
      rw [loc] at running served
      exact wf.moved (by simp [loc]) (by simp [loc]) rfl running nofun served nofun
  | timeout loc =>
      rw [loc] at running served
      exact wf.moved (by simp [loc]) (by simp [loc]) rfl running nofun served nofun
  | ready loc client readable =>
      rw [loc] at running served
      refine wf.moved (by simp [loc]) (by simp [loc]) rfl running nofun served ?_
      intro _ e he
      rw [client] at he
      cases he
      exact readable
  | @read n c portion stack request client =>
      have serving := serving_of_request request
      have after := afterRead_serving l.loc stack (c.taken n portion)
      obtain ⟨started, unfinished⟩ := live_of_serving serving
      rw [inRun_of_serving serving] at running
      refine wf.moved started unfinished rfl (running.trans (inRun_of_serving after).symm)
        (live_of_serving after).1 after fun tag => absurd tag (afterRead_ne_readTag l.loc stack _)
  | readFails request client =>
      have serving := serving_of_request request
      obtain ⟨started, unfinished⟩ := live_of_serving serving
      rw [inRun_of_serving serving] at running
      rw [client] at served
      exact wf.moved started unfinished rfl running nofun
        (by rw [client]; rfl) nofun

/-! ### The reads are `ReceivePacket` -/

/-- A pending `read` on a connection the client has closed is that of a socket. -/
theorem step_read (sched : Schedule) {n : Nat} {bs : List UInt8} {s s' : Socket}
    (stack : Buffer) (request : l.loc.request = some n)
    (client : l.client = some ⟨s.unread, true⟩)
    (received : (socketPeer sched).read s n = (.bytes bs, s')) :
    l.step (.read (sched.portion s.calls) stack) = some { l with
      client := some ⟨s'.unread, true⟩
      loc := l.loc.afterRead stack bs } := by
  have portion : max 1 (sched.portion s.calls) = sched.portion s.calls :=
    max_eq_right (sched.pos s.calls)
  have cut : min (min (sched.portion s.calls) (min n s.unread.length)) s.unread.length =
      min (min (sched.portion s.calls) n) s.unread.length := by
    omega
  cases received
  simp only [step, request, client, Connection.readable, Bool.or_true, Bool.not_true,
    Bool.and_false, Bool.false_eq_true, if_false, Connection.taken, Connection.rest, portion]
  rw [List.take_eq_take_iff.mpr cut, List.drop_eq_drop_iff.mpr cut]

end Listener

/-- Where the loop goes on after `ReceivePacket`. -/
def Received.loc {σ : Type*} (r : Received σ) : Loc :=
  if r.ret = 0 then .closeClient else .pushing (r.bufferMsg.bytes r.ret.toNat)

namespace Listener

variable {l l' : Listener} {a : WorkerAction}

/-- The thread gets from one state to the other by reads alone. -/
def ReadsTo (l l' : Listener) : Prop :=
  ∃ as, (∀ b ∈ as, ∃ portion stack, b = .read portion stack) ∧
    Transition.exec Listener.step l as = some l'

theorem ReadsTo.refl (l : Listener) : ReadsTo l l := ⟨[], by simp, rfl⟩

theorem ReadsTo.read {l l' l'' : Listener} {portion : Nat} {stack : Buffer}
    (first : l.step (.read portion stack) = some l') (rest : ReadsTo l' l'') :
    ReadsTo l l'' := by
  obtain ⟨as, reads, ran⟩ := rest
  refine ⟨.read portion stack :: as, ?_, ?_⟩
  · rw [List.forall_mem_cons]
    exact ⟨⟨portion, stack, rfl⟩, reads⟩
  · rw [Transition.exec, first]
    exact ran

/-- The reads of the thread on a connection the client has closed receive what
`ReceivePacket` receives from it as a socket. -/
theorem exec_receivePacket (sched : Schedule) {s : Socket} (magic size bufferMsg : Buffer)
    (tag : l.loc = .readTag) (client : l.client = some ⟨s.unread, true⟩) :
    let r := receivePacket (socketPeer sched) s magic size bufferMsg
    ReadsTo l { l with client := some ⟨r.peer.unread, true⟩, loc := r.loc } := by
  intro r
  obtain ⟨m, s₁, first⟩ : ∃ m s₁, (socketPeer sched).read s 4 = (.bytes m, s₁) := ⟨_, _, rfl⟩
  apply ReadsTo.read (step_read sched magic (by rw [tag]; rfl) client first)
  rw [tag]
  by_cases empty : m.length = 0
  · rw [show r = _ from receivePacket_end first empty]
    simp [Received.loc, Loc.afterRead, empty, ReadsTo.refl]
  by_cases bad : (magic.store m).word ≠ magicTag
  · rw [show r = _ from receivePacket_bad_tag first bad]
    simp [Received.loc, Loc.afterRead, bad, ReadsTo.refl]
  have tagged : Loc.readTag.afterRead magic m = .readLength := by
    simp only [Loc.afterRead, if_neg empty, if_neg bad]
  rw [tagged]
  obtain ⟨d, s₂, second⟩ : ∃ d s₂, (socketPeer sched).read s₁ 4 = (.bytes d, s₂) := ⟨_, _, rfl⟩
  apply ReadsTo.read (step_read sched size rfl rfl second)
  by_cases empty₂ : d.length = 0
  · rw [show r = _ from receivePacket_no_length first empty (not_not.mp bad) second empty₂]
    simp [Received.loc, Loc.afterRead, empty₂, ReadsTo.refl]
  by_cases long : maxLengthPayload < (size.store d).word
  · rw [show r = _ from receivePacket_bad_length first empty (not_not.mp bad) second long]
    simp [Received.loc, Loc.afterRead, long, ReadsTo.refl]
  have sized : Loc.readLength.afterRead size d = .readData (size.store d).word := by
    simp only [Loc.afterRead, if_neg empty₂, gt_iff_lt, if_neg long]
  dsimp only
  rw [sized]
  obtain ⟨e, s₃, third⟩ :
      ∃ e s₃, (socketPeer sched).read s₂ (size.store d).word = (.bytes e, s₃) := ⟨_, _, rfl⟩
  apply ReadsTo.read (step_read sched bufferMsg rfl rfl third)
  rw [show r = _ from receivePacket_data first empty (not_not.mp bad) second empty₂
    (not_lt.mp long) third]
  simp [Received.loc, Loc.afterRead, Buffer.bytes_store, ReadsTo.refl]

/-! ### Progress -/

/-- Where a `read` is pending nothing else can happen, and unless it fails it returns at
once if it asks for nothing or the connection is readable. -/
theorem can_read_iff {n : Nat} {c : Connection} (request : l.loc.request = some n)
    (client : l.client = some c) :
    (∃ a : WorkerAction, a.succeeds = true ∧ (l.step a).isSome = true) ↔
      n = 0 ∨ c.readable = true := by
  constructor
  · rintro ⟨a, succeeds, can⟩
    obtain ⟨l', h⟩ := Option.isSome_iff_exists.mp can
    cases step_effect h with
    | next stepped =>
        cases loc : l.loc <;> rw [loc] at request <;> simp [Loc.request] at request <;>
          simp [next, loc] at stepped
    | read portion stack request' client' ready =>
        rw [request] at request'
        rw [client] at client'
        cases request'
        cases client'
        exact ready
    | readFails => cases succeeds
    | accept loc | acceptFails loc | timeout loc | ready loc =>
        rw [loc] at request
        cases request
  · intro ready
    refine ⟨.read 1 staleStack, rfl, ?_⟩
    simp only [step, request, client]
    rcases ready with zero | readable
    · simp [zero]
    · simp [readable]

/-- The thread runs on by itself, without a call that fails, exactly where it does not wait
for a client. -/
theorem WellFormed.can_step_iff (wf : l.WellFormed) (started : l.loc ≠ .noThread)
    (unfinished : l.loc.ended = false) :
    (∃ a : WorkerAction, a.succeeds = true ∧ (l.step a).isSome = true) ↔ l.waiting = false := by
  have client : l.loc.serving = true → ∃ c, l.client = some c := fun serving =>
    Option.isSome_iff_exists.mp (wf.served.symm.trans serving)
  cases loc : l.loc
  case noThread => exact absurd loc started
  case finished | fault =>
    rw [loc] at unfinished
    cases unfinished
  case accepting =>
    cases backlog : l.backlog with
    | nil =>
        refine iff_of_false ?_ (by simp [waiting, loc, backlog])
        rintro ⟨a, succeeds, can⟩
        cases a <;> simp [Listener.step, Listener.next, loc, backlog, Loc.request,
          WorkerAction.succeeds] at can succeeds
    | cons c rest =>
        refine iff_of_true ⟨.accept, rfl, ?_⟩ ?_
        · simp [Listener.step, loc, backlog]
        · simp [waiting, loc, backlog, Loc.unguarded]
  case selecting =>
    obtain ⟨c, client⟩ := client (by rw [loc]; rfl)
    refine iff_of_true ⟨.select false, rfl, ?_⟩ ?_
    · simp [Listener.step, loc, client]
    · simp [waiting, loc, Loc.unguarded]
  case readTag =>
    obtain ⟨c, client⟩ := client (by rw [loc]; rfl)
    have ready := wf.readable loc c client
    rw [can_read_iff (n := 4) (by rw [loc]; rfl) client]
    exact iff_of_true (.inr ready) (by simp [waiting, loc, Loc.unguarded])
  case readLength =>
    obtain ⟨c, client⟩ := client (by rw [loc]; rfl)
    rw [can_read_iff (n := 4) (by rw [loc]; rfl) client]
    simp [waiting, loc, client, Loc.unguarded]
  case readData n =>
    obtain ⟨c, client⟩ := client (by rw [loc]; rfl)
    rw [can_read_iff (n := n) (by rw [loc]; rfl) client]
    simp [waiting, loc, client, Loc.unguarded, imp_iff_not_or]
  all_goals
    refine iff_of_true ⟨.next, rfl, ?_⟩ ?_
    · simp [Listener.step, Listener.next, loc]
    · simp [waiting, loc, Loc.unguarded]

/-- The pending `read` takes all there is of an open connection, and the frame goes
on. -/
def runsDry (l : Listener) (portion : Nat) (stack : Buffer) : Prop :=
  ∃ n c, l.loc.request = some n ∧ l.client = some c ∧
    (l.loc.afterRead stack (c.taken n portion)).unguarded = true ∧
    (c.rest n portion).readable = false

theorem afterRead_ne_accepting (loc : Loc) (stack : Buffer) (bs : List UInt8) :
    loc.afterRead stack bs ≠ .accepting := by
  intro accepting
  have serving := afterRead_serving loc stack bs
  rw [accepting] at serving
  cases serving

/-- Told to stop, the thread leaves both loops before it blocks. -/
theorem next_awake (h : l.next = some l') (stop : l.mStop = true) : l'.waiting = false := by
  unfold next at h
  split at h <;> cases h
  case h_2 => cases l.socketSetUp <;> simp [waiting, Loc.unguarded]
  all_goals simp [waiting, stop, Loc.unguarded]

/-- A thread told to stop comes to wait for a client only in a `read` that takes the
last bytes of an unfinished frame. -/
theorem waiting_step_iff (h : l.step a = some l') (stop : l.mStop = true) :
    l'.waiting = true ↔ ∃ portion stack, a = .read portion stack ∧ l.runsDry portion stack := by
  cases step_effect h with
  | next stepped => exact iff_of_false (by simp [next_awake stepped stop]) nofun
  | @read n c portion stack request client =>
      have accepting := afterRead_ne_accepting l.loc stack (c.taken n portion)
      constructor
      · intro waits
        simp only [waiting, beq_eq_false_iff_ne.mpr accepting, Bool.false_and, Bool.false_or,
          Option.any_some, Bool.and_eq_true, Bool.not_eq_true'] at waits
        exact ⟨portion, stack, rfl, n, c, request, client, waits.1, waits.2⟩
      · rintro ⟨_, _, ⟨⟩, n', c', request', client', goesOn, dry⟩
        rw [request] at request'
        rw [client] at client'
        cases request'
        cases client'
        simp [waiting, goesOn, dry]
  | _ => exact iff_of_false (by simp [waiting, Loc.unguarded]) nofun

/-! ### Clients never make the thread wait -/

theorem arrive_readable (bs : List UInt8) {c : Connection} (h : c.readable = true) :
    (c.arrive bs).readable = true := by
  unfold Connection.arrive
  split
  · exact h
  · rename_i opened
    cases unread : c.unread <;> simp_all [Connection.readable]

theorem hangUp_readable (c : Connection) : c.hangUp.readable = true := by
  simp [Connection.hangUp, Connection.readable]

/-- A change that keeps connections readable keeps the invariant and does not make
the thread wait. -/
theorem WellFormed.onConnection (wf : l.WellFormed) (target : Option Nat)
    {f : Connection → Connection} (keeps : ∀ c, c.readable = true → (f c).readable = true) :
    (l.onConnection target f).WellFormed ∧
      (l.waiting = false → (l.onConnection target f).waiting = false) := by
  cases target with
  | none =>
      refine ⟨⟨wf.running, wf.joinable, wf.detached, ?_, ?_⟩, ?_⟩
      · simpa [Listener.onConnection] using wf.served
      · intro loc c client
        obtain ⟨d, served, rfl⟩ := Option.map_eq_some_iff.mp client
        exact keeps d (wf.readable loc d served)
      · intro awake
        cases client : l.client with
        | none => simpa [waiting, Listener.onConnection, client] using awake
        | some c =>
            by_cases readable : c.readable = true
            · have readable' := keeps c readable
              simpa [waiting, Listener.onConnection, client, readable, readable'] using awake
            · simp_all [waiting, Listener.onConnection]
  | some j =>
      refine ⟨⟨wf.running, wf.joinable, wf.detached, wf.served, wf.readable⟩, ?_⟩
      intro awake
      simpa [waiting, Listener.onConnection, List.isEmpty_iff] using awake

/-- Clients touch the connections only. -/
theorem clientStep_frame {a : ClientAction} (h : l.clientStep a = some l') :
    l'.joinable = l.joinable ∧ l'.mStop = l.mStop ∧ l'.loc = l.loc ∧
      l'.queuePckRead = l.queuePckRead := by
  cases a with
  | connect =>
      simp only [clientStep, Option.ite_none_right_eq_some, Option.some.injEq] at h
      obtain ⟨-, rfl⟩ := h
      exact ⟨rfl, rfl, rfl, rfl⟩
  | send target bs =>
      cases h
      cases target <;> exact ⟨rfl, rfl, rfl, rfl⟩
  | hangUp target =>
      cases h
      cases target <;> exact ⟨rfl, rfl, rfl, rfl⟩

theorem WellFormed.clientStep (wf : l.WellFormed) {a : ClientAction}
    (h : l.clientStep a = some l') :
    l'.WellFormed ∧ (l.waiting = false → l'.waiting = false) := by
  cases a with
  | connect =>
      simp only [Listener.clientStep, Option.ite_none_right_eq_some, Option.some.injEq] at h
      obtain ⟨-, rfl⟩ := h
      refine ⟨⟨wf.running, wf.joinable, wf.detached, wf.served, wf.readable⟩, fun awake => ?_⟩
      simp only [waiting, Bool.or_eq_false_iff, Bool.and_eq_false_iff] at awake ⊢
      exact ⟨.inr (by simp), awake.2⟩
  | send target bs =>
      cases h
      exact wf.onConnection target fun c => arrive_readable bs
  | hangUp target =>
      cases h
      exact wf.onConnection target fun c _ => hangUp_readable c

end Listener

end UwAppNet
