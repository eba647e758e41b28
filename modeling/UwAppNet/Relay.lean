import UwAppNet.EndToEnd
import UwAppNet.Framing

/-!
From the clients to the lower layers: the listener thread serves one connection after the
other and fills `queuePckRead`, the timer empties it.

The emptiness test of `init_Packet_TCP` is made outside the lock. It stays true until
the pop, because only the timer takes packets away. No packet is lost on the way, but the
counter `pkts_push_queue` only counts what went in.
-/

namespace UwAppNet

open Transition

/-! ### One listener after the other -/

/-- A node and its listener thread. `client` is the other end of the connection being
served. No step reads `enqueued`, the payloads this listener enqueued, and `earlier`, the
number of packets that were sent down before it was started. -/
structure Relay (σ : Type*) where
  node : Node
  client : Option σ
  clnSockDescr : Nat
  bufferMsg : Buffer
  enqueued : List (List UInt8)
  earlier : Nat

/-- `accept` returns a connection, `HandleTCPclient` goes round its loop once, the timer
tests the queue, or takes a packet and sends it down, or the node is stopped and started
again. -/
inductive RelayAction (σ : Type*) where
  | accept (clnSockDescr : Nat) (client : σ)
  | serve (t : Tick)
  | test
  | pop (clock : ℚ)
  | restart (bufferMsg : Buffer)

namespace Relay

variable {σ : Type*}

/-- A node whose listener was just started for the first time. -/
def start (heap : Nat → Bool) (b : Bound) (bufferMsg : Buffer) : Relay σ where
  node := Node.start heap b
  client := none
  clnSockDescr := 0
  bufferMsg := bufferMsg
  enqueued := []
  earlier := 0

/-- What the loop of `HandleTCPclient` works on. -/
def view (r : Relay σ) (s : σ) : Client σ where
  peer := s
  clnSockDescr := r.clnSockDescr
  bufferMsg := r.bufferMsg
  queuePckRead := r.node.queuePckRead
  pktsPushQueue := r.node.mod.pktsPushQueue

/-- What it leaves behind. -/
def put (r : Relay σ) (c : Client σ) : Relay σ :=
  { r with
    node := { r.node with
      mod := { r.node.mod with pktsPushQueue := c.pktsPushQueue }
      queuePckRead := c.queuePckRead }
    client := some c.peer
    clnSockDescr := c.clnSockDescr
    bufferMsg := c.bufferMsg }

/-- The end of `HandleTCPclient`, back to `accept`. -/
def disconnect (r : Relay σ) (c : Client σ) : Relay σ := { r.put c.close with client := none }

/-- One iteration for the connection to `s`. -/
def serve (peer : Peer σ) (r : Relay σ) (s : σ) (t : Tick) : Option (Relay σ) :=
  if t.stopRequested then some (r.disconnect (r.view s))
  else
    let i := (r.view s).iterate peer t
    match i.status with
    | .again => some { r.put i.after with
        enqueued := r.enqueued ++ i.pushed.toList.map Packet.payload }
    | .closed => some (r.disconnect i.after)
    | .fault => none

/-- `stop`, which deletes the listener and its queue, and `start`, which makes a new one. -/
def restart (r : Relay σ) (bufferMsg : Buffer) : Relay σ where
  node := { r.node with queuePckRead := [] }
  client := none
  clnSockDescr := 0
  bufferMsg := bufferMsg
  enqueued := []
  earlier := r.node.sentDown.length

/-- One step of the listener thread or of the simulator, in which the timer runs and
commands are given. -/
def step (peer : Peer σ) (r : Relay σ) : RelayAction σ → Option (Relay σ)
  | .accept clnSockDescr s =>
      match r.client with
      | none => some { r with client := some s, clnSockDescr := clnSockDescr }
      | some _ => none
  | .serve t => r.client.bind fun s => r.serve peer s t
  | .test => (r.node.step .test).map fun n => { r with node := n }
  | .pop clock => (r.node.step (.pop clock)).map fun n => { r with node := n }
  | .restart bufferMsg => if r.node.popping then none else some (r.restart bufferMsg)

/-- The packets this listener's timer sent down. -/
def sent (r : Relay σ) : List Packet := r.node.emitted.drop r.earlier

/-- What a step does to the node and the record of it. -/
inductive Change (r r' : Relay σ) : Prop where
  | acts (a : NodeAction) : r.node.step a = some r'.node →
      r'.enqueued = r.enqueued ++ a.message → r'.earlier = r.earlier → Change r r'
  | rests : r'.node = r.node → r'.enqueued = r.enqueued → r'.earlier = r.earlier → Change r r'
  | restarts (bufferMsg : Buffer) : r.node.popping = false → r' = r.restart bufferMsg →
      Change r r'

section Step

variable {peer : Peer σ} {r r' : Relay σ}

/-- An iteration enqueues one message or nothing. -/
theorem serve_change {s : σ} {t : Tick} (h : r.serve peer s t = some r') : Change r r' := by
  unfold serve at h
  split at h
  · cases h
    exact .rests rfl rfl rfl
  · rcases iterate_cases peer (r.view s) t with
      ⟨-, eq⟩ | ⟨s', reads, -, -, eq⟩ | ⟨s', reads, buf, -, -, eq⟩ |
        ⟨s', m, l, d, -, pos, fits, eq⟩
    · rw [eq] at h
      cases h
      exact .rests rfl (List.append_nil _) rfl
    · rw [eq] at h
      cases h
    · rw [eq] at h
      cases h
      exact .rests rfl rfl rfl
    · rw [eq] at h
      cases h
      refine .acts (.enqueue t.alloc (r.bufferMsg.store d) d.length) ?_ ?_ rfl
      · exact if_pos ⟨pos, fits⟩
      · have payload := payload_makePacket t.alloc (r.bufferMsg.store d) fits
        simp only [NodeAction.message, view, Option.toList_some, List.map_singleton, payload]

theorem step_change {a : RelayAction σ} (h : r.step peer a = some r') : Change r r' := by
  cases a with
  | accept clnSockDescr s =>
      cases idle : r.client with
      | some _ => simp [step, idle] at h
      | none =>
          simp only [step, idle, Option.some.injEq] at h
          subst h
          exact .rests rfl rfl rfl
  | serve t =>
      obtain ⟨s, -, served⟩ := Option.bind_eq_some_iff.mp h
      exact serve_change served
  | test =>
      obtain ⟨n, tested, rfl⟩ := Option.map_eq_some_iff.mp h
      exact .acts .test tested (List.append_nil _).symm rfl
  | pop clock =>
      obtain ⟨n, popped, rfl⟩ := Option.map_eq_some_iff.mp h
      exact .acts (.pop clock) popped (List.append_nil _).symm rfl
  | restart bufferMsg =>
      simp only [step, Option.ite_none_left_eq_some, Option.some.injEq] at h
      exact .restarts bufferMsg (by simpa using h.1) h.2.symm

end Step

end Relay

/-! ### The identifiers on the wire -/

/-- Packets are numbered from 1 in the `uid_` field. -/
structure Identified (n : Node) : Prop where
  uidcnt : n.mod.uidcnt = n.sentDown.length
  uids : n.emitted.map (fun p => p.ch.uid) =
    (List.range n.sentDown.length).map fun i : Nat => (i : Int) + 1

theorem Identified.uid {n : Node} (inv : Identified n) (i : Nat) (h : i < n.emitted.length) :
    n.emitted[i].ch.uid = i + 1 := by
  have at_i := List.getElem_of_eq inv.uids (i := i) (by simpa using h)
  simpa using at_i

theorem fillHeaders_uid (m : UwAppNetModule) (clock : ℚ) (ptmp : Packet) :
    (m.fillHeaders clock ptmp).1.ch.uid = m.uidcnt + 1 ∧
      (m.fillHeaders clock ptmp).2.uidcnt = m.uidcnt + 1 := ⟨rfl, rfl⟩

theorem Identified.step {n n' : Node} {a : NodeAction} (inv : Identified n)
    (h : n.step a = some n') : Identified n' := by
  rcases Node.step_cases h with
    ⟨alloc, bufferMsg, recvMsgSize, -, -, -, rfl⟩ | ⟨-, -, rfl⟩ |
      ⟨clock, ptmp, rest, -, -, -, rfl⟩
  · exact ⟨inv.uidcnt, inv.uids⟩
  · exact ⟨inv.uidcnt, inv.uids⟩
  · obtain ⟨uid, uidcnt⟩ := fillHeaders_uid n.mod clock ptmp
    have uids : (n.sentDown.map Emission.packet).map (fun p => p.ch.uid) = _ := inv.uids
    constructor
    · rw [uidcnt, inv.uidcnt, List.length_append]
      rfl
    · rw [Node.emitted, List.map_append, List.map_append, uids, List.length_append,
        List.length_singleton, List.range_succ, List.map_append, List.map_singleton,
        List.map_singleton, List.map_singleton, uid, inv.uidcnt]

/-- The numbers of consecutive packets are consecutive, in 16 bits. -/
theorem Stream.succ {packets : List Packet} (s : Stream packets) (i : Nat)
    (h : i + 1 < packets.length) :
    packets[i + 1].uwApph.sn = packets[i].uwApph.sn + 1 := by
  apply UInt16.toNat_inj.mp
  rw [UInt16.toNat_add, s.numbers (i + 1) h, s.numbers i (Nat.lt_of_succ_lt h), wireNumber,
    wireNumber]
  show _ = ((i + 2) % 2 ^ 16 + 1) % 2 ^ 16
  omega

/-! ### No message is lost -/

/-- The queue hands on what it was given, in order and numbered one by one. -/
structure LosslessFifo {σ : Type*} (r : Relay σ) : Prop where
  fifo : (r.sent ++ r.node.queuePckRead).map Packet.payload = r.enqueued
  popped : r.node.popping = true → r.node.queuePckRead ≠ []
  pktSent : r.node.mod.getPktSent = r.node.sentDown.length
  uid : ∀ (i : Nat) (h : i + 1 < r.node.emitted.length),
    r.node.emitted[i + 1].ch.uid = r.node.emitted[i].ch.uid + 1
  sn : ∀ (i : Nat) (h : i + 1 < r.node.emitted.length),
    r.node.emitted[i + 1].uwApph.sn = r.node.emitted[i].uwApph.sn + 1

/-- What every step preserves. -/
structure Relaying {σ : Type*} (r : Relay σ) : Prop where
  numbered : Numbered r.node
  identified : Identified r.node
  earlier : r.earlier ≤ r.node.emitted.length
  fifo : (r.sent ++ r.node.queuePckRead).map Packet.payload = r.enqueued
  popped : r.node.popping = true → r.node.queuePckRead ≠ []

section Invariant

variable {σ : Type*} {peer : Peer σ} {r r' : Relay σ}

theorem relaying_start (heap : Nat → Bool) (b : Bound) (bufferMsg : Buffer) :
    Relaying (Relay.start heap b bufferMsg : Relay σ) where
  numbered := numbered_start heap b
  identified := ⟨rfl, rfl⟩
  earlier := Nat.zero_le _
  fifo := rfl
  popped := by simp [Relay.start, Node.start]

/-- Between a successful test and the pop nothing but an enqueue takes place. -/
theorem Node.popping_step {n n' : Node} {a : NodeAction} (h : n.step a = some n') :
    n'.popping = true → n'.queuePckRead ≠ [] := by
  rcases Node.step_cases h with
    ⟨alloc, bufferMsg, recvMsgSize, -, -, -, rfl⟩ | ⟨-, -, rfl⟩ |
      ⟨clock, ptmp, rest, -, -, -, rfl⟩
  · intro _
    simp [Node.enqueue]
  · intro tested
    simpa [Node.test] using tested
  · rintro ⟨⟩

/-- The payloads sent and queued, as the last ones of all that ever were. -/
theorem Relay.payloads_eq_drop (le : r.earlier ≤ r.node.emitted.length) :
    (r.sent ++ r.node.queuePckRead).map Packet.payload =
      ((r.node.emitted ++ r.node.queuePckRead).map Packet.payload).drop r.earlier := by
  rw [Relay.sent, ← List.drop_append_of_le_length le, List.map_drop]

theorem Relaying.acts {act : NodeAction} (inv : Relaying r)
    (stepped : r.node.step act = some r'.node) (enqueued : r'.enqueued = r.enqueued ++ act.message)
    (earlier : r'.earlier = r.earlier) : Relaying r' := by
  have le : r'.earlier ≤ r'.node.emitted.length := by
    rw [earlier]
    exact inv.earlier.trans (Node.emitted_prefix stepped).length_le
  have old : r.earlier ≤ ((r.node.emitted ++ r.node.queuePckRead).map Packet.payload).length := by
    rw [List.length_map, List.length_append]
    exact Nat.le_add_right_of_le inv.earlier
  constructor
  · exact inv.numbered.step stepped
  · exact inv.identified.step stepped
  · exact le
  · rw [Relay.payloads_eq_drop le, earlier, Node.messages_step stepped,
      List.drop_append_of_le_length old, ← Relay.payloads_eq_drop inv.earlier, inv.fifo, enqueued]
  · exact Node.popping_step stepped

/-- A new listener has nothing queued and nothing sent. -/
theorem Relaying.restart (inv : Relaying r) (idle : r.node.popping = false)
    (bufferMsg : Buffer) : Relaying (r.restart bufferMsg) := by
  have length : r.node.emitted.length = r.node.sentDown.length := List.length_map ..
  constructor
  · exact ⟨inv.numbered.txsn, inv.numbered.stream, inv.numbered.pktSent⟩
  · exact ⟨inv.identified.uidcnt, inv.identified.uids⟩
  · exact length.ge
  · show ((r.node.emitted.drop r.node.sentDown.length) ++ []).map Packet.payload = []
    rw [List.append_nil, ← length, List.drop_length]
    rfl
  · intro popping
    have contra : r.node.popping = true := popping
    rw [idle] at contra
    cases contra

theorem Relaying.step {a : RelayAction σ} (inv : Relaying r) (h : r.step peer a = some r') :
    Relaying r' := by
  cases Relay.step_change h with
  | acts act stepped enqueued earlier => exact inv.acts stepped enqueued earlier
  | rests node enqueued earlier =>
      constructor
      · rw [node]
        exact inv.numbered
      · rw [node]
        exact inv.identified
      · rw [node, earlier]
        exact inv.earlier
      · rw [Relay.sent, node, earlier, enqueued]
        exact inv.fifo
      · rw [node]
        exact inv.popped
  | restarts bufferMsg idle restarted =>
      rw [restarted]
      exact inv.restart idle bufferMsg

theorem Relaying.losslessFifo (inv : Relaying r) : LosslessFifo r := by
  constructor
  · exact inv.fifo
  · exact inv.popped
  · rw [UwAppNetModule.getPktSent, inv.numbered.txsn]
    omega
  · intro i h
    rw [inv.identified.uid (i + 1) h, inv.identified.uid i (Nat.lt_of_succ_lt h)]
    push_cast
    rfl
  · exact inv.numbered.stream.succ

/-- Whatever the clients do and however the two threads take turns, the payloads sent
down and those still queued are the payloads enqueued, and packets are numbered one by
one. `txsn` and `uidcnt` step once a packet: it is about fewer than `2 ^ 31` of them. -/
theorem lossless_fifo {heap : Nat → Bool} {b : Bound} {bufferMsg : Buffer}
    {moves : List (Move (Relay σ) (RelayAction σ))}
    (run : Run (Relay.step peer) (Relay.start heap b bufferMsg) moves r) : LosslessFifo r :=
  (run.invariant (relaying_start heap b bufferMsg) fun _ _ _ inv h => inv.step h).losslessFifo

end Invariant

/-- Two connections of one message each to the same listener. The second one is accepted when the
first has ended, and its message comes in between the test that found the first and its pop. -/
def twoConnections : List (RelayAction Socket) :=
  [.accept 5 ⟨0, frames [[1, 2, 3]]⟩, .serve staleTick, .test, .serve staleTick,
    .accept 6 ⟨0, frames [[4]]⟩, .serve staleTick, .pop 3]

theorem two_connections_lossless :
    ∃ moves r, Run (Relay.step (socketPeer ⟨fun _ => 9, fun _ => by decide⟩))
        (Relay.start (fun _ => false) ⟨1, 0, 0⟩ staleStack) moves r ∧
      moves.map Move.action = twoConnections ∧
      r.earlier = 0 ∧ r.clnSockDescr = 6 ∧ r.client.map Socket.unread = some [] ∧
      r.enqueued = [[1, 2, 3], [4]] ∧ r.sent.map Packet.payload = [[1, 2, 3]] ∧
      LosslessFifo r := by
  have ran : (exec (Relay.step (socketPeer ⟨fun _ => 9, fun _ => by decide⟩))
      (Relay.start (fun _ => false) ⟨1, 0, 0⟩ staleStack) twoConnections).map
        (fun r => ((r.earlier, r.clnSockDescr, r.client.map Socket.unread),
          (r.enqueued, r.sent.map Packet.payload))) =
      some ((0, 6, some []), ([[1, 2, 3], [4]], [[1, 2, 3]])) := by decide +kernel
  obtain ⟨r, executed, same⟩ := Option.map_eq_some_iff.mp ran
  obtain ⟨moves, run, actions⟩ := run_of_exec executed
  simp only [Prod.mk.injEq] at same
  obtain ⟨⟨earlier, descriptor, client⟩, enqueued, sent⟩ := same
  exact ⟨moves, r, run, actions, earlier, descriptor, client, enqueued, sent, lossless_fifo run⟩

/-! ### The counter -/

/-- `getPktsPushQueue()` is the number of packets in the queue. -/
def CounterExact (n : Node) : Prop := n.mod.getPktsPushQueue = n.queuePckRead.length

section Counter

variable {n n' : Node} {a : NodeAction}

/-- The counter is the number of packets ever enqueued. -/
def Counted (n : Node) : Prop :=
  n.mod.getPktsPushQueue = n.queuePckRead.length + n.sentDown.length

/-- No packet was sent down yet. -/
def Unsent (n : Node) : Prop := n.sentDown = []

theorem counted_start (heap : Nat → Bool) (b : Bound) : Counted (Node.start heap b) := rfl

theorem unsent_start (heap : Nat → Bool) (b : Bound) : Unsent (Node.start heap b) := rfl

theorem Counted.step (inv : Counted n) (h : n.step a = some n') : Counted n' := by
  have before : n.mod.pktsPushQueue = n.queuePckRead.length + n.sentDown.length := inv
  rcases Node.step_cases h with
    ⟨alloc, bufferMsg, recvMsgSize, -, -, -, rfl⟩ | ⟨-, -, rfl⟩ |
      ⟨clock, ptmp, rest, -, -, queue, rfl⟩
  · show n.mod.pktsPushQueue + 1 = _
    simp only [Node.enqueue, List.length_append, List.length_singleton]
    omega
  · exact inv
  · rw [queue, List.length_cons] at before
    show n.mod.pktsPushQueue = rest.length + (n.sentDown ++ [_]).length
    rw [List.length_append, List.length_singleton]
    omega

/-- It is the length of the queue as long as nothing was sent down. -/
theorem Counted.exact_iff (inv : Counted n) : CounterExact n ↔ Unsent n := by
  rw [CounterExact, inv, Unsent, ← List.length_eq_zero_iff]
  omega

/-- Only a pop sends a packet down. -/
theorem Unsent.step_iff (unsent : Unsent n) (h : n.step a = some n') :
    Unsent n' ↔ ∀ clock, a ≠ .pop clock := by
  rcases Node.step_cases h with
    ⟨alloc, bufferMsg, recvMsgSize, rfl, -, -, rfl⟩ | ⟨rfl, -, rfl⟩ |
      ⟨clock, ptmp, rest, rfl, -, -, rfl⟩
  · exact iff_of_true unsent (by simp)
  · exact iff_of_true unsent (by simp)
  · exact iff_of_false (by simp [Unsent]) (fun none => none clock rfl)

/-- In a run, the counter agrees with the queue after every step exactly when no step
takes a packet from the queue. -/
theorem push_counter_iff {heap : Nat → Bool} {b : Bound} {moves : List (Move Node NodeAction)}
    (run : Run Node.step (Node.start heap b) moves n) :
    (∀ m ∈ moves, CounterExact m.after) ↔ ∀ m ∈ moves, ∀ clock, m.action ≠ .pop clock :=
  run.exact_guard (counted_start heap b) (unsent_start heap b) (fun _ _ _ inv h => inv.step h)
    (fun _ _ _ inv unsent h => ((inv.step h).exact_iff.trans (unsent.step_iff h)).symm)
    fun _ _ _ inv _ h exact => (inv.step h).exact_iff.mp exact

end Counter

/-- Two messages enqueued and none sent: the counter is 2. -/
theorem queued_messages_counted :
    ∃ moves n, Run Node.step (Node.start (fun _ => false) ⟨1, 0, 0⟩) moves n ∧
      moves.length = 3 ∧ n.queuePckRead.length = 2 ∧ ∀ m ∈ moves, CounterExact m.after := by
  have empty : Run Node.step (Node.start (fun _ => false) ⟨1, 0, 0⟩) [] _ := .nil
  have run := ((empty.snoc (a := .enqueue (oneBytePacket 0) (fun _ => 7) 1) rfl).snoc
    (a := .test) rfl).snoc (a := .enqueue (oneBytePacket 0) (fun _ => 8) 1) rfl
  refine ⟨_, _, run, rfl, rfl, (push_counter_iff run).mpr ?_⟩
  simp

/-- One message enqueued and sent down: the queue is empty and the counter still 1. -/
theorem sent_message_still_counted :
    ∃ moves n, Run Node.step (Node.start (fun _ => false) ⟨1, 0, 0⟩) moves n ∧
      n.queuePckRead = [] ∧ n.mod.getPktsPushQueue = 1 ∧ ¬ CounterExact n := by
  have empty : Run Node.step (Node.start (fun _ => false) ⟨1, 0, 0⟩) [] _ := .nil
  have run := ((empty.snoc (a := .enqueue (oneBytePacket 0) (fun _ => 7) 1) rfl).snoc
    (a := .test) rfl).snoc (a := .pop 0) rfl
  refine ⟨_, _, run, rfl, rfl, fun exact => ?_⟩
  have same : (1 : Int) = 0 := exact
  cases same

end UwAppNet
