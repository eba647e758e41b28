import UwAppNet.DropMode
import UwAppNet.Sender

/-!
One sender, one receiver in drop mode and any channel between them.

The channel may hand over a packet at any time after its emission, any number of
times or never. `Conserved` joins the sender's queue and counter, the packets on the
way and what the receiver has passed on; from it the messages delivered are a
subsequence of the messages enqueued.
-/

namespace UwAppNet

open RunningMax Transition

/-! ### The joint system -/

/-- A sender, a receiver and the history of both ends: `messages` are the messages
`HandleTCPclient` enqueued, `arrived` the packets the receiver handled, `delivered`
the payloads it passed to `send_data`. -/
structure Link where
  sender : Node
  receiver : UwAppNetModule
  messages : List (List UInt8)
  arrived : List Arrival
  delivered : List (List UInt8)

/-- A step of the sender, or the arrival of the packet emitted after `i` others. -/
inductive LinkAction where
  | sender (a : NodeAction)
  | arrive (i : Nat) (clock : ℚ)

/-- The message a step of the sender enqueues. -/
def NodeAction.message : NodeAction → List (List UInt8)
  | .enqueue _ bufferMsg recvMsgSize => [bufferMsg.bytes recvMsgSize]
  | _ => []

namespace Link

/-- Two nodes just started. -/
def start (senderHeap heap : Nat → Bool) (senderBound b : Bound) : Link where
  sender := Node.start senderHeap senderBound
  receiver := UwAppNetModule.fresh heap b true
  messages := []
  arrived := []
  delivered := []

/-- `recv` of an emitted packet at the other end. -/
def arrive (l : Link) (clock : ℚ) (p : Packet) : Link :=
  let (receiver, exit) := l.receiver.statistics clock p
  { l with
    receiver := receiver
    arrived := l.arrived ++ [⟨clock, p⟩]
    delivered := l.delivered ++ exit.sent }

def step (l : Link) : LinkAction → Option Link
  | .sender a => (l.sender.step a).map fun n =>
      { l with sender := n, messages := l.messages ++ a.message }
  | .arrive i clock => l.sender.emitted[i]?.map (l.arrive clock)

end Link

/-- What a step of the joint system can do. -/
theorem Link.step_cases {l l' : Link} {a : LinkAction} (h : l.step a = some l') :
    (∃ act n, a = .sender act ∧ l.sender.step act = some n ∧
        l' = { l with sender := n, messages := l.messages ++ act.message }) ∨
      (∃ i clock p, a = .arrive i clock ∧ p ∈ l.sender.emitted ∧ l' = l.arrive clock p) := by
  cases a with
  | sender act =>
      obtain ⟨n, stepped, rfl⟩ := Option.map_eq_some_iff.mp h
      exact .inl ⟨act, n, rfl, stepped, rfl⟩
  | arrive i clock =>
      obtain ⟨p, found, rfl⟩ := Option.map_eq_some_iff.mp h
      exact .inr ⟨i, clock, p, rfl, List.mem_of_getElem? found, rfl⟩

/-! ### The joint invariant -/

/-- No message is lost, copied or changed on the way to the lower layers, and what
the receiver knows and passed on follows from emitted packets alone. -/
structure Conserved (heap : Nat → Bool) (b : Bound) (l : Link) : Prop where
  numbered : Numbered l.sender
  messages : l.messages = (l.sender.emitted ++ l.sender.queuePckRead).map Packet.payload
  arrived : ∀ a ∈ l.arrived, a.packet ∈ l.sender.emitted
  receiver : l.receiver = (UwAppNetModule.fresh heap b true).recvAll l.arrived
  delivered : l.delivered = (UwAppNetModule.fresh heap b true).sentData l.arrived

section Invariant

variable {senderHeap heap : Nat → Bool} {senderBound b : Bound} {l l' : Link}

theorem conserved_start : Conserved heap b (Link.start senderHeap heap senderBound b) where
  numbered := numbered_start senderHeap senderBound
  messages := rfl
  arrived := by simp [Link.start]
  receiver := rfl
  delivered := rfl

/-- The sender only ever adds to what it emitted. -/
theorem Node.emitted_prefix {n n' : Node} {a : NodeAction} (h : n.step a = some n') :
    n.emitted <+: n'.emitted := by
  rcases Node.step_cases h with
    ⟨_, _, _, -, -, -, rfl⟩ | ⟨-, -, rfl⟩ | ⟨clock, ptmp, rest, -, -, -, rfl⟩
  · exact List.prefix_rfl
  · exact List.prefix_rfl
  · rw [Node.emitted, Node.emitted, List.map_append]
    exact List.prefix_append ..

/-- Emitted and queued messages are the messages enqueued, in order. -/
theorem Node.messages_step {n n' : Node} {a : NodeAction} (h : n.step a = some n') :
    (n'.emitted ++ n'.queuePckRead).map Packet.payload =
      (n.emitted ++ n.queuePckRead).map Packet.payload ++ a.message := by
  rcases Node.step_cases h with
    ⟨alloc, bufferMsg, recvMsgSize, rfl, -, small, rfl⟩ | ⟨rfl, -, rfl⟩ |
      ⟨clock, ptmp, rest, rfl, -, queue, rfl⟩
  · have payload := payload_makePacket alloc bufferMsg small
    simp [Node.enqueue, Node.emitted, NodeAction.message, payload]
  · simp [Node.test, Node.emitted, NodeAction.message]
  · simp [Node.emitted, NodeAction.message, queue, fillHeaders_payload]

theorem Conserved.step (inv : Conserved heap b l) {a : LinkAction} (h : l.step a = some l') :
    Conserved heap b l' := by
  rcases Link.step_cases h with ⟨act, n, -, stepped, rfl⟩ | ⟨i, clock, p, -, emitted, rfl⟩
  · refine ⟨inv.numbered.step stepped, ?_, ?_, inv.receiver, inv.delivered⟩
    · rw [Node.messages_step stepped, ← inv.messages]
    · exact fun a ha => (Node.emitted_prefix stepped).subset (inv.arrived a ha)
  · refine ⟨inv.numbered, inv.messages, ?_, ?_, ?_⟩
    · intro a ha
      rcases List.mem_append.mp ha with earlier | last
      · exact inv.arrived a earlier
      · rw [List.mem_singleton.mp last]
        exact emitted
    · simp [Link.arrive, inv.receiver]
    · simp [Link.arrive, inv.receiver, inv.delivered, UwAppNetModule.exitAfter]

theorem conserved_run {moves : List (Move Link LinkAction)}
    (run : Run Link.step (Link.start senderHeap heap senderBound b) moves l) :
    Conserved heap b l :=
  run.invariant conserved_start fun _ _ _ inv h => inv.step h

/-- While the numbers stay inside the table, the packets accepted are a subsequence
of the packets emitted. -/
theorem Conserved.accepted_sublist (inv : Conserved heap b l)
    (few : l.sender.emitted.length < 65534) :
    ((records Arrival.sn 0 (dataArrivals l.arrived)).map Arrival.packet).Sublist
      l.sender.emitted := by
  have unwrapped : l.sender.emitted.length < ushrtMax := few.trans (by decide)
  apply sublist_of_increasing fun p : Packet => p.uwApph.sn.toNat
  · exact List.pairwise_map.mpr (records_increasing _)
  · exact inv.numbered.stream.increasing unwrapped
  · intro p hp
    obtain ⟨a, ha, rfl⟩ := List.mem_map.mp hp
    have data : a ∈ dataArrivals l.arrived := (records_sublist _).subset ha
    exact inv.arrived a (mem_dataArrivals.mp data).1

theorem Conserved.clear (inv : Conserved heap b l)
    (few : l.sender.emitted.length < 65534) : Clear heap l.arrived := by
  intro a ha _
  obtain ⟨i, hi, same⟩ := List.getElem_of_mem (inv.arrived a ha)
  have number := inv.numbered.stream.number (few.trans (by decide)) i hi
  rw [same] at number
  refine .inl ?_
  rw [Arrival.sn, number]
  show i + 2 < 65535
  omega

/-- Whatever the channel loses, repeats or reorders, the messages passed to
`send_data` are a subsequence of the messages enqueued at the sender. -/
theorem delivered_sublist_messages (drop : b.dropOutOfOrder = 1)
    {moves : List (Move Link LinkAction)}
    (run : Run Link.step (Link.start senderHeap heap senderBound b) moves l)
    (few : l.sender.emitted.length < 65534) : l.delivered.Sublist l.messages := by
  have inv := conserved_run run
  have accepted := (inv.accepted_sublist few).map Packet.payload
  rw [inv.delivered, sentData_eq drop (inv.clear few), inv.messages, List.map_append]
  rw [List.map_map] at accepted
  exact accepted.trans (List.sublist_append_left _ _)

end Invariant

/-- One message sent and its packet received twice. -/
def repeatedArrival : Option Link :=
  exec Link.step (Link.start (fun _ => false) (fun _ => false) ⟨1, 0, 0⟩ ⟨1, 0, 0⟩)
    [.sender (.enqueue (oneBytePacket 0) (fun _ => 7) 1), .sender .test, .sender (.pop 0),
      .arrive 0 0, .arrive 0 0]

/-- The message is passed on once. -/
theorem repeated_packet_delivered_once :
    ∃ l, repeatedArrival = some l ∧ l.arrived.length = 2 ∧ l.delivered = [[7]] ∧
      l.delivered.Sublist l.messages := by
  have ran : repeatedArrival = some (repeatedArrival.get rfl) := rfl
  obtain ⟨moves, run, -⟩ := run_of_exec ran
  exact ⟨_, ran, rfl, rfl, delivered_sublist_messages rfl run (by decide)⟩

end UwAppNet
