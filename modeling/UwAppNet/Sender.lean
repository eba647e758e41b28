import UwAppNet.Module
import UwAppNet.Lib.Transition
import Mathlib.Data.List.Range

/-!
The send path: `HandleTCPclient` appends the packets it builds to `queuePckRead`,
and the timer's `init_Packet_TCP` takes them off again and hands them down.

The two run on different threads. Both change the queue under `m_Mutex`, but
`init_Packet_TCP` tests for emptiness before it takes the lock, so the test and the
pop are steps of their own.
-/

namespace UwAppNet

open Transition

/-- An `int` converted to `size_t`. -/
def sizeT (n : Int) : Nat := (n % 0x10000000000000000).toNat

/-- The packet `HandleTCPclient` builds in `alloc`, the storage `Packet::alloc()`
returned, from the first `recvMsgSize` bytes of `buffer_msg`. -/
def makePacket (alloc : Packet) (bufferMsg : Buffer) (recvMsgSize : Int) : Packet :=
  { alloc with
    ch := { alloc.ch with size := recvMsgSize }
    uwApph := { alloc.uwApph with
      payloadMsg := memcpy alloc.uwApph.payloadMsg bufferMsg (sizeT recvMsgSize)
      payloadSize := UInt16.ofInt recvMsgSize } }

/-- The header fields `init_Packet_TCP` writes. -/
def UwAppNetModule.fillHeaders (m : UwAppNetModule) (clock : ℚ) (ptmp : Packet) :
    Packet × UwAppNetModule :=
  let (uid, m) := m.incrUidCnt
  let ch : HdrCmn := { ptmp.ch with
    uid := uid
    ptype := .dataApplication
    direction := .down
    timestamp := clock }
  let (sn, m) := m.incrPktSent
  let uwApph := { ptmp.uwApph with sn := UInt16.ofInt sn }
  let rftt := m.getRftt
  let uwApph :=
    if rftt ≥ 0 then { uwApph with rftt := rftt * 10000, rfttValid := true }
    else { uwApph with rfttValid := false }
  let uwApph := { uwApph with priority := 0 }
  ({ ch := ch, dport := m.getDstPort, daddr := m.getDstAddr, uwApph := uwApph }, m)

/-- A packet handed to `sendDown`, with `getPktSent()` at that moment. -/
structure Emission where
  packet : Packet
  pktSent : Int

/-- A sending module and its listener's queue. `popping` holds while
`init_Packet_TCP` is between its emptiness test and the pop; `sentDown` lists the
packets given to the lower layers so far. -/
structure Node where
  mod : UwAppNetModule
  queuePckRead : List Packet
  popping : Bool
  sentDown : List Emission

/-- The steps of the two threads. -/
inductive NodeAction where
  | enqueue (alloc : Packet) (bufferMsg : Buffer) (recvMsgSize : Nat)
  | test
  | pop (clock : ℚ)

namespace Node

/-- A node whose listener was just started. -/
def start (heap : Nat → Bool) (b : Bound) : Node where
  mod := { UwAppNetModule.init heap b with pTcpListener := true }
  queuePckRead := []
  popping := false
  sentDown := []

/-- `queuePckRead.push(p); p_Owner->incrPktsPushQueue()`. -/
def enqueue (n : Node) (p : Packet) : Node :=
  { n with
    mod := n.mod.incrPktsPushQueue
    queuePckRead := n.queuePckRead ++ [p] }

/-- `if (!queuePckRead.empty())`. -/
def test (n : Node) : Node := { n with popping := !n.queuePckRead.isEmpty }

/-- The body of `init_Packet_TCP`; `front()` of an empty queue has no behaviour. -/
def pop (n : Node) (clock : ℚ) : Option Node :=
  match n.queuePckRead with
  | [] => none
  | ptmp :: rest =>
      let (packet, m) := n.mod.fillHeaders clock ptmp
      some {
        mod := m
        queuePckRead := rest
        popping := false
        sentDown := n.sentDown ++ [⟨packet, m.getPktSent⟩] }

/-- One step of the listener thread or of the timer. `HandleTCPclient` enqueues
messages of 1 to `MAX_LENGTH_PAYLOAD` bytes; the timer does not interrupt itself. -/
def step (n : Node) : NodeAction → Option Node
  | .enqueue alloc bufferMsg recvMsgSize =>
      if 1 ≤ recvMsgSize ∧ recvMsgSize ≤ maxLengthPayload then
        some (n.enqueue (makePacket alloc bufferMsg recvMsgSize))
      else none
  | .test => if n.popping then none else some n.test
  | .pop clock => if n.popping then n.pop clock else none

/-- `init_Packet_TCP` run to its end without another step in between. -/
def initPacketTCP (n : Node) (clock : ℚ) : Option Node :=
  if n.test.popping then n.test.pop clock else some n.test

/-- The packets given to the lower layers, in order. -/
def emitted (n : Node) : List Packet := n.sentDown.map Emission.packet

end Node

/-! ### What the send path writes -/

theorem sizeT_natCast {n : Nat} (small : n < 0x10000000000000000) : sizeT n = n := by
  unfold sizeT
  omega

/-- The packet built from `n` bytes carries exactly these bytes. -/
theorem payload_makePacket (alloc : Packet) (bufferMsg : Buffer) {n : Nat}
    (small : n ≤ maxLengthPayload) :
    (makePacket alloc bufferMsg n).payload = bufferMsg.bytes n := by
  have small' : n ≤ 4096 := small
  have size : (UInt16.ofInt (n : Int)).toNat = n := by
    have : ((n : Int) % 2 ^ 16).toNat = n := by omega
    rw [UInt16.ofInt, this, UInt16.toNat_ofNat']
    omega
  simp only [Packet.payload, makePacket, size, sizeT_natCast (n := n) (by omega),
    bytes_memcpy]

section FillHeaders

variable (m : UwAppNetModule) (clock : ℚ) (ptmp : Packet)

theorem fillHeaders_txsn : (m.fillHeaders clock ptmp).2.txsn = m.txsn + 1 := rfl

theorem fillHeaders_getPktSent :
    (m.fillHeaders clock ptmp).2.getPktSent = m.getPktSent + 1 := by
  show m.txsn + 1 - 1 = m.txsn - 1 + 1
  omega

theorem fillHeaders_sn :
    (m.fillHeaders clock ptmp).1.uwApph.sn = UInt16.ofInt (m.txsn + 1) := by
  by_cases known : m.rftt ≥ 0 <;>
    simp [UwAppNetModule.fillHeaders, UwAppNetModule.incrUidCnt, UwAppNetModule.incrPktSent,
      UwAppNetModule.getRftt, known]

theorem fillHeaders_ptype : (m.fillHeaders clock ptmp).1.ch.ptype = .dataApplication := rfl

/-- The headers change, the message does not. -/
theorem fillHeaders_payload : (m.fillHeaders clock ptmp).1.payload = ptmp.payload := by
  by_cases known : m.rftt ≥ 0 <;>
    simp [UwAppNetModule.fillHeaders, UwAppNetModule.incrUidCnt, UwAppNetModule.incrPktSent,
      UwAppNetModule.getRftt, Packet.payload, known]

end FillHeaders

/-- `init_Packet_TCP` is the test followed by the pop. -/
theorem initPacketTCP_eq (n : Node) (clock : ℚ) (idle : n.popping = false) :
    n.initPacketTCP clock =
      exec Node.step n (if n.queuePckRead.isEmpty then [.test] else [.test, .pop clock]) := by
  cases h : n.queuePckRead.isEmpty <;>
    simp [Node.initPacketTCP, Node.test, exec, Node.step, idle, h]

/-! ### The numbers on the wire -/

/-- The `sn_` of the packet emitted after `i` others: `txsn` starts at 1 and is
incremented before it is used, then cut to 16 bits. -/
def wireNumber (i : Nat) : Nat := (i + 2) % 2 ^ 16

/-- A complete stream of one fresh sender, in the order of emission. -/
structure Stream (packets : List Packet) : Prop where
  ptype : ∀ p ∈ packets, p.ch.ptype = .dataApplication
  numbers : ∀ (i : Nat) (h : i < packets.length),
    packets[i].uwApph.sn.toNat = wireNumber i

theorem Stream.concat {packets : List Packet} (s : Stream packets) {p : Packet}
    (ptype : p.ch.ptype = .dataApplication)
    (number : p.uwApph.sn.toNat = wireNumber packets.length) : Stream (packets ++ [p]) := by
  constructor
  · intro q hq
    rcases List.mem_append.mp hq with h | h
    · exact s.ptype q h
    · rw [List.mem_singleton.mp h]
      exact ptype
  · intro i hi
    by_cases old : i < packets.length
    · rw [List.getElem_append_left old]
      exact s.numbers i old
    · have last : i = packets.length := by
        simp only [List.length_append, List.length_singleton] at hi
        omega
      subst last
      simpa using number

theorem Stream.take {packets : List Packet} (s : Stream packets) (n : Nat) :
    Stream (packets.take n) := by
  constructor
  · exact fun p hp => s.ptype p (List.mem_of_mem_take hp)
  · intro i hi
    rw [List.getElem_take]
    exact s.numbers i (by simp only [List.length_take] at hi; omega)

/-- Until the 16-bit field wraps, the number of a packet is its position plus two. -/
theorem Stream.number {packets : List Packet} (s : Stream packets)
    (unwrapped : packets.length < ushrtMax) (i : Nat) (h : i < packets.length) :
    packets[i].uwApph.sn.toNat = i + 2 := by
  have bound : packets.length < 65535 := unwrapped
  rw [s.numbers i h, wireNumber]
  omega

/-- Until the 16-bit field wraps, numbers increase along the stream. -/
theorem Stream.increasing {packets : List Packet} (s : Stream packets)
    (unwrapped : packets.length < ushrtMax) :
    packets.Pairwise fun p q => p.uwApph.sn.toNat < q.uwApph.sn.toNat := by
  rw [List.pairwise_iff_getElem]
  intro i j hi hj lt
  rw [s.number unwrapped i hi, s.number unwrapped j hj]
  omega

/-! ### Runs of a sender -/

/-- What every reachable sender state satisfies. -/
structure Numbered (n : Node) : Prop where
  txsn : n.mod.txsn = n.sentDown.length + 1
  stream : Stream n.emitted
  pktSent : ∀ (i : Nat) (h : i < n.sentDown.length), n.sentDown[i].pktSent = i + 1

theorem numbered_start (heap : Nat → Bool) (b : Bound) : Numbered (Node.start heap b) where
  txsn := rfl
  stream := ⟨by simp [Node.emitted, Node.start], by simp [Node.emitted, Node.start]⟩
  pktSent := by simp [Node.start]

/-- What a step of the node can do. -/
theorem Node.step_cases {n n' : Node} {a : NodeAction} (h : n.step a = some n') :
    (∃ alloc bufferMsg recvMsgSize, a = .enqueue alloc bufferMsg recvMsgSize ∧
        1 ≤ recvMsgSize ∧ recvMsgSize ≤ maxLengthPayload ∧
        n' = n.enqueue (makePacket alloc bufferMsg recvMsgSize)) ∨
      (a = .test ∧ n.popping = false ∧ n' = n.test) ∨
      (∃ clock ptmp rest, a = .pop clock ∧ n.popping = true ∧
        n.queuePckRead = ptmp :: rest ∧
        n' = {
          mod := (n.mod.fillHeaders clock ptmp).2
          queuePckRead := rest
          popping := false
          sentDown := n.sentDown ++ [⟨(n.mod.fillHeaders clock ptmp).1,
            (n.mod.fillHeaders clock ptmp).2.getPktSent⟩] }) := by
  cases a with
  | enqueue alloc bufferMsg recvMsgSize =>
      simp only [Node.step, Option.ite_none_right_eq_some, Option.some.injEq] at h
      exact .inl ⟨alloc, bufferMsg, recvMsgSize, rfl, h.1.1, h.1.2, h.2.symm⟩
  | test =>
      simp only [Node.step, Option.ite_none_left_eq_some, Option.some.injEq] at h
      exact .inr (.inl ⟨rfl, by simpa using h.1, h.2.symm⟩)
  | pop clock =>
      simp only [Node.step, Option.ite_none_right_eq_some] at h
      obtain ⟨popping, h⟩ := h
      cases queue : n.queuePckRead with
      | nil => simp [Node.pop, queue] at h
      | cons ptmp rest =>
          simp only [Node.pop, queue, Option.some.injEq] at h
          exact .inr (.inr ⟨clock, ptmp, rest, rfl, popping, rfl, h.symm⟩)

theorem Numbered.step {n n' : Node} {a : NodeAction} (inv : Numbered n)
    (h : n.step a = some n') : Numbered n' := by
  rcases Node.step_cases h with
    ⟨alloc, bufferMsg, recvMsgSize, -, -, -, rfl⟩ | ⟨-, -, rfl⟩ |
      ⟨clock, ptmp, rest, -, -, -, rfl⟩
  · exact ⟨inv.txsn, inv.stream, inv.pktSent⟩
  · exact ⟨inv.txsn, inv.stream, inv.pktSent⟩
  · have txsn := inv.txsn
    have number : (UInt16.ofInt (n.mod.txsn + 1)).toNat = wireNumber n.emitted.length := by
      have length : n.emitted.length = n.sentDown.length := List.length_map ..
      have cut : ((n.mod.txsn + 1) % 2 ^ 16).toNat = wireNumber n.emitted.length := by
        rw [wireNumber]
        omega
      rw [UInt16.ofInt, cut, UInt16.toNat_ofNat', wireNumber]
      omega
    constructor
    · rw [fillHeaders_txsn, txsn]
      simp
    · simp only [Node.emitted, List.map_append, List.map_cons, List.map_nil]
      apply inv.stream.concat (fillHeaders_ptype ..)
      rw [fillHeaders_sn]
      exact number
    · intro i hi
      by_cases old : i < n.sentDown.length
      · simp only [List.getElem_append_left old]
        exact inv.pktSent i old
      · have last : i = n.sentDown.length := by
          simp only [List.length_append, List.length_singleton] at hi
          omega
        subst last
        simp only [List.getElem_concat_length]
        rw [fillHeaders_getPktSent, UwAppNetModule.getPktSent, txsn]
        omega

/-- Every fresh sender numbers its packets 2, 3, … and counts them 1, 2, … -/
theorem numbered_run {heap : Nat → Bool} {b : Bound} {moves : List (Move Node NodeAction)}
    {n : Node} (run : Run Node.step (Node.start heap b) moves n) : Numbered n :=
  run.invariant (numbered_start heap b) fun _ _ _ inv h => inv.step h

/-! ### A steadily fed sender -/

/-- One message comes in and the timer sends it on at once. -/
def Node.relay (n : Node) (p : Packet) (clock : ℚ) : Node where
  mod := (n.mod.incrPktsPushQueue.fillHeaders clock p).2
  queuePckRead := []
  popping := false
  sentDown := n.sentDown ++ [⟨(n.mod.incrPktsPushQueue.fillHeaders clock p).1,
    (n.mod.incrPktsPushQueue.fillHeaders clock p).2.getPktSent⟩]

/-- A packet built from the one-byte message `byte` in blank storage. -/
def oneBytePacket (byte : UInt8) : Packet :=
  makePacket
    { ch := ⟨0, .other 0, .none, 0, 0⟩, dport := 0, daddr := 0
      uwApph := ⟨0, 0, false, 0, 0, fun _ => 0⟩ }
    (fun _ => byte) 1

/-- A sender that was given `k` one-byte messages and has sent each on. -/
def steadyNode (heap : Nat → Bool) (b : Bound) : Nat → Node
  | 0 => Node.start heap b
  | k + 1 => (steadyNode heap b k).relay (oneBytePacket (UInt8.ofNat k)) k

theorem steadyNode_idle (heap : Nat → Bool) (b : Bound) (k : Nat) :
    (steadyNode heap b k).queuePckRead = [] ∧ (steadyNode heap b k).popping = false := by
  cases k <;> exact ⟨rfl, rfl⟩

@[simp] theorem length_emitted_steadyNode (heap : Nat → Bool) (b : Bound) (k : Nat) :
    (steadyNode heap b k).emitted.length = k := by
  induction k with
  | zero => rfl
  | succ k ih =>
      simp only [Node.emitted, List.length_map] at ih ⊢
      simp [steadyNode, Node.relay, ih]

/-- The steady sender is reached by enqueue, test and pop in turn. -/
theorem run_steadyNode (heap : Nat → Bool) (b : Bound) (k : Nat) :
    ∃ moves, Run Node.step (Node.start heap b) moves (steadyNode heap b k) := by
  induction k with
  | zero => exact ⟨[], .nil⟩
  | succ k ih =>
      obtain ⟨moves, run⟩ := ih
      obtain ⟨empty, idle⟩ := steadyNode_idle heap b k
      let n := steadyNode heap b k
      let p := oneBytePacket (UInt8.ofNat k)
      have first : n.step (.enqueue _ (fun _ => UInt8.ofNat k) 1) = some (n.enqueue p) := rfl
      have second : (n.enqueue p).step .test =
          some { n.enqueue p with popping := true } := by
        simp [Node.step, Node.enqueue, Node.test, n, idle]
      have third : Node.step { n.enqueue p with popping := true } (.pop k) =
          some (n.relay p k) := by
        simp [Node.step, Node.enqueue, Node.pop, Node.relay, n, empty]
      exact ⟨_, ((run.snoc first).snoc second).snoc third⟩

end UwAppNet
