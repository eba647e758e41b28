import UwAppNet.EndToEnd
import UwAppNet.ErrorRate
import UwAppNet.Lib.Simulation
import Mathlib.Logic.Function.Basic

/-!
Any number of nodes that all send and receive, over a channel that loses, repeats and
reorders.

Which nodes a packet can reach is up to the lower layers: `reach i d j` says that what the node
`i` sends to the address `d` may come to `j`, so that 255 may reach all. No node looks at the
address itself. Listeners are stopped, started and replaced at any time. Two results hold of
every run: no node passes on a message that was not enqueued at a node that reaches it, and a
node in drop mode to which the packets of one sender come passes on its messages in order, none
twice.
-/

namespace UwAppNet

open RunningMax Transition

/-! ### A node that sends and receives -/

/-- A node, whether `start` replaced a listener, and its history: `messages` are the messages
enqueued at its listener, `arrived` the packets `recv` was called with, `delivered` the payloads
`send_data` was called with. No step reads the history. -/
structure Site where
  node : Node
  replaced : Bool
  messages : List (List UInt8)
  arrived : List Arrival
  delivered : List (List UInt8)

/-- A step of the listener thread or of the timer, and the commands; `orphan` is an enqueue of
a listener that `start` has replaced, whose queue nobody reads any more. -/
inductive SiteAction where
  | send (a : NodeAction)
  | start
  | stop
  | orphan

namespace Site

/-- A module as constructed, without a listener. -/
def init (heap : Nat → Bool) (b : Bound) : Site where
  node := {
    mod := UwAppNetModule.init heap b
    queuePckRead := []
    popping := false
    sentDown := [] }
  replaced := false
  messages := []
  arrived := []
  delivered := []

/-- `p_tcp_listener` and the queue of a listener are set or cleared together. -/
def setListener (s : Site) (present replaced : Bool) : Site :=
  { s with
    node := { s.node with
      mod := { s.node.mod with pTcpListener := present }
      queuePckRead := [] }
    replaced := replaced }

/-- All that an orphan changes in its module is the counter. -/
def countPush (s : Site) : Site :=
  { s with node := { s.node with mod := s.node.mod.incrPktsPushQueue } }

def step (s : Site) : SiteAction → Option Site
  | .send a =>
      if s.node.mod.pTcpListener then
        (s.node.step a).map fun n => { s with node := n, messages := s.messages ++ a.message }
      else none
  | .start =>
      if s.node.popping then none
      else some (s.setListener true (s.replaced || s.node.mod.pTcpListener))
  | .stop => if s.node.popping then none else some (s.setListener false s.replaced)
  | .orphan => if s.replaced then some s.countPush else none

/-- `recv(p)` at a scheduler time. -/
def recv (s : Site) (a : Arrival) : Site :=
  let (mod, exit) := s.node.mod.statistics a.clock a.packet
  { s with
    node := { s.node with mod := mod }
    arrived := s.arrived ++ [a]
    delivered := s.delivered ++ exit.sent }

/-- What a step can do. -/
theorem step_cases {s s' : Site} {a : SiteAction} (h : s.step a = some s') :
    (∃ act n, s.node.step act = some n ∧
        s' = { s with node := n, messages := s.messages ++ act.message }) ∨
      (∃ present replaced, s' = s.setListener present replaced) ∨ s' = s.countPush := by
  cases a with
  | send act =>
      simp only [step, Option.ite_none_right_eq_some] at h
      obtain ⟨n, stepped, rfl⟩ := Option.map_eq_some_iff.mp h.2
      exact .inl ⟨act, n, stepped, rfl⟩
  | start =>
      simp only [step, Option.ite_none_left_eq_some, Option.some.injEq] at h
      exact .inr (.inl ⟨_, _, h.2.symm⟩)
  | stop =>
      simp only [step, Option.ite_none_left_eq_some, Option.some.injEq] at h
      exact .inr (.inl ⟨_, _, h.2.symm⟩)
  | orphan =>
      simp only [step, Option.ite_none_right_eq_some, Option.some.injEq] at h
      exact .inr (.inr h.2.symm)

end Site

/-! ### The receive path of such a node -/

namespace UwAppNetModule

/-- The module as its receive path sees it: nothing the send path or the commands change,
and a listener. -/
def receiving (m : UwAppNetModule) : UwAppNetModule :=
  { m with uidcnt := 0, txsn := 1, pktsPushQueue := 0, pTcpListener := true }

variable (m : UwAppNetModule) (a : Arrival)

/-- The receive path neither reads nor writes the rest. -/
theorem statistics_receiving : (m.receiving.statistics a.clock a.packet).1 =
    (m.statistics a.clock a.packet).1.receiving := by
  have mode : m.receiving.useDropOutOfOrder = m.useDropOutOfOrder := rfl
  have table : m.receiving.snCheck = m.snCheck := rfl
  have highest : m.receiving.hrsn = m.hrsn := rfl
  rw [statistics_eq, statistics_eq (m := m), mode, table, highest]
  split
  · rfl
  · split
    · rfl
    · split
      · rfl
      · rw [accept_eq, accept_eq]
        rfl

/-- Without a listener nothing is passed on. -/
theorem sent_receiving : (m.statistics a.clock a.packet).2.sent =
    if m.pTcpListener then (m.receiving.statistics a.clock a.packet).2.sent else [] := by
  have admits : m.receiving.admits a.packet = m.admits a.packet := rfl
  have listener : m.receiving.pTcpListener = true := rfl
  rw [sent_statistics, sent_statistics, admits, listener, Bool.and_true]
  cases m.pTcpListener <;> simp

/-- It does not touch what the send path works on. -/
theorem statistics_send_side (clock : ℚ) (p : Packet) :
    (m.statistics clock p).1.dstAddr = m.dstAddr ∧
      (m.statistics clock p).1.txsn = m.txsn ∧
      (m.statistics clock p).1.uidcnt = m.uidcnt ∧
      (m.statistics clock p).1.pktsPushQueue = m.pktsPushQueue := by
  rw [statistics_eq]
  split
  · exact ⟨rfl, rfl, rfl, rfl⟩
  · split
    · exact ⟨rfl, rfl, rfl, rfl⟩
    · split
      · exact ⟨rfl, rfl, rfl, rfl⟩
      · rw [accept_eq]
        exact ⟨rfl, rfl, rfl, rfl⟩

theorem statistics_dropOutOfOrder (clock : ℚ) (p : Packet) :
    (m.statistics clock p).1.dropOutOfOrder = m.dropOutOfOrder := by
  rw [statistics_eq]
  split
  · rfl
  · split
    · rfl
    · split
      · rfl
      · rw [accept_eq]
        rfl

/-- With the order check off every data packet is passed on. -/
theorem sentData_off {m : UwAppNetModule} (off : m.dropOutOfOrder ≠ 1)
    (listener : m.pTcpListener = true) (arrivals : List Arrival) :
    m.sentData arrivals = (dataArrivals arrivals).map fun a => a.packet.payload := by
  induction arrivals generalizing m with
  | nil => rfl
  | cons a arrivals ih =>
      have rest := ih (m := (m.statistics a.clock a.packet).1)
        (by rwa [statistics_dropOutOfOrder]) (by rwa [statistics_pTcpListener])
      have first : (m.statistics a.clock a.packet).2.sent =
          if a.isData then [a.packet.payload] else [] := by
        rw [sent_statistics, admits_off off, listener, Bool.and_true]
      show (m.statistics a.clock a.packet).2.sent ++ _ = _
      rw [first, rest, dataArrivals, dataArrivals, List.filter_cons]
      split <;> rfl

/-- Whatever the mode, the payloads passed on are payloads received, in order. -/
theorem sentData_sublist (m : UwAppNetModule) (arrivals : List Arrival) :
    (m.sentData arrivals).Sublist (arrivals.map fun a => a.packet.payload) := by
  induction arrivals generalizing m with
  | nil => exact List.Sublist.slnil
  | cons a arrivals ih =>
      have first : (m.statistics a.clock a.packet).2.sent.Sublist [a.packet.payload] := by
        rw [sent_statistics]
        split
        · exact List.Sublist.refl _
        · exact List.nil_sublist _
      exact first.append (ih _)

end UwAppNetModule

/-! ### What every run of a node keeps -/

/-- A node invents, changes and copies no message, and its receive path is that of a
module that only ever heard `arrived`. -/
structure Site.Sound (heap : Nat → Bool) (b : Bound) (s : Site) : Prop where
  numbered : Numbered s.node
  dstAddr : s.node.mod.dstAddr = b.destAddr
  daddr : ∀ p ∈ s.node.emitted, p.daddr = b.destAddr
  messages : ((s.node.emitted ++ s.node.queuePckRead).map Packet.payload).Sublist s.messages
  sized : ∀ data ∈ s.messages, 1 ≤ data.length ∧ data.length ≤ maxLengthPayload
  receiver : s.node.mod.receiving = (UwAppNetModule.fresh heap b true).recvAll s.arrived
  delivered : s.delivered.Sublist ((UwAppNetModule.fresh heap b true).sentData s.arrived)

section Site

variable {heap : Nat → Bool} {b : Bound} {s s' : Site}

theorem sound_init (heap : Nat → Bool) (b : Bound) : (Site.init heap b).Sound heap b where
  numbered := ⟨rfl, (numbered_start heap b).stream, (numbered_start heap b).pktSent⟩
  dstAddr := rfl
  daddr := by simp [Site.init, Node.emitted]
  messages := List.nil_sublist _
  sized := by simp [Site.init]
  receiver := rfl
  delivered := List.nil_sublist _

/-- The send path leaves the receive path alone and addresses what it emits. -/
theorem Node.step_addressed {n n' : Node} {a : NodeAction} (h : n.step a = some n') :
    n'.mod.receiving = n.mod.receiving ∧ n'.mod.dstAddr = n.mod.dstAddr ∧
      ∀ p ∈ n'.emitted, p ∈ n.emitted ∨ p.daddr = n.mod.dstAddr := by
  rcases Node.step_cases h with
    ⟨alloc, bufferMsg, recvMsgSize, -, -, -, rfl⟩ | ⟨-, -, rfl⟩ |
      ⟨clock, ptmp, rest, -, -, -, rfl⟩
  · exact ⟨rfl, rfl, fun p hp => .inl hp⟩
  · exact ⟨rfl, rfl, fun p hp => .inl hp⟩
  · refine ⟨rfl, rfl, fun p hp => ?_⟩
    rw [Node.emitted, List.map_append, List.mem_append, List.map_singleton,
      List.mem_singleton] at hp
    rcases hp with old | rfl
    · exact .inl old
    · exact .inr rfl

/-- Messages have 1 to `MAX_LENGTH_PAYLOAD` bytes. -/
theorem NodeAction.message_sized {n n' : Node} {a : NodeAction} (h : n.step a = some n') :
    ∀ data ∈ a.message, 1 ≤ data.length ∧ data.length ≤ maxLengthPayload := by
  rcases Node.step_cases h with
    ⟨alloc, bufferMsg, recvMsgSize, rfl, pos, small, -⟩ | ⟨rfl, -, -⟩ | ⟨clock, ptmp, rest, rfl, -⟩
  · rw [NodeAction.message, List.forall_mem_singleton, Buffer.length_bytes]
    exact ⟨pos, small⟩
  · simp [NodeAction.message]
  · simp [NodeAction.message]

theorem Site.Sound.step (sound : s.Sound heap b) {a : SiteAction} (h : s.step a = some s') :
    s'.Sound heap b := by
  rcases Site.step_cases h with ⟨act, n, stepped, rfl⟩ | ⟨present, replaced, rfl⟩ | rfl
  · obtain ⟨receiving, dstAddr, emitted⟩ := Node.step_addressed stepped
    refine ⟨sound.numbered.step stepped, dstAddr.trans sound.dstAddr, ?_, ?_, ?_,
      receiving.trans sound.receiver, sound.delivered⟩
    · intro p hp
      rcases emitted p hp with old | new
      · exact sound.daddr p old
      · exact new.trans sound.dstAddr
    · rw [Node.messages_step stepped]
      exact sound.messages.append_right _
    · exact List.forall_mem_append.mpr ⟨sound.sized, NodeAction.message_sized stepped⟩
  · have numbered := sound.numbered
    refine ⟨⟨numbered.txsn, numbered.stream, numbered.pktSent⟩, sound.dstAddr, sound.daddr, ?_,
      sound.sized, sound.receiver, sound.delivered⟩
    have unqueued : (s.node.emitted ++ []).Sublist (s.node.emitted ++ s.node.queuePckRead) :=
      (List.nil_sublist _).append_left _
    exact (unqueued.map Packet.payload).trans sound.messages
  · have numbered := sound.numbered
    exact ⟨⟨numbered.txsn, numbered.stream, numbered.pktSent⟩, sound.dstAddr, sound.daddr,
      sound.messages, sound.sized, sound.receiver, sound.delivered⟩

/-- A packet may arrive at any time. -/
theorem Site.Sound.recv (sound : s.Sound heap b) (a : Arrival) : (s.recv a).Sound heap b := by
  obtain ⟨dstAddr, txsn, -, -⟩ := s.node.mod.statistics_send_side a.clock a.packet
  have numbered := sound.numbered
  refine ⟨⟨txsn.trans numbered.txsn, numbered.stream, numbered.pktSent⟩,
    dstAddr.trans sound.dstAddr, sound.daddr, sound.messages, sound.sized, ?_, ?_⟩
  · show (s.node.mod.statistics a.clock a.packet).1.receiving = _
    rw [← UwAppNetModule.statistics_receiving, sound.receiver, Site.recv,
      UwAppNetModule.recvAll_concat]
  · show (s.delivered ++ (s.node.mod.statistics a.clock a.packet).2.sent).Sublist _
    rw [UwAppNetModule.sent_receiving, sound.receiver, Site.recv, UwAppNetModule.sentData_concat,
      UwAppNetModule.exitAfter]
    apply sound.delivered.append
    cases s.node.mod.pTcpListener
    · exact List.nil_sublist _
    · exact List.Sublist.refl _

/-- A step hears nothing and takes back nothing that was emitted. -/
theorem Site.step_frame {a : SiteAction} (h : s.step a = some s') :
    s'.arrived = s.arrived ∧ s.node.emitted ⊆ s'.node.emitted := by
  rcases Site.step_cases h with ⟨act, n, stepped, rfl⟩ | ⟨present, replaced, rfl⟩ | rfl
  · exact ⟨rfl, (Node.emitted_prefix stepped).subset⟩
  · exact ⟨rfl, List.Subset.refl _⟩
  · exact ⟨rfl, List.Subset.refl _⟩

end Site

/-! ### The network -/

/-- A step of the node `i`, or the packet `i` emitted after `k` others reaches `j`. -/
inductive NetworkAction (ι : Type*) where
  | site (i : ι) (a : SiteAction)
  | arrive (i : ι) (k : Nat) (j : ι) (clock : ℚ)

namespace Network

variable {ι : Type*} [DecidableEq ι]

/-- The modules as constructed. -/
def start (heap : ι → Nat → Bool) (b : ι → Bound) (i : ι) : Site := Site.init (heap i) (b i)

/-- One step. The lower layers hand a packet to nodes it can reach, as often and as late as
they like. -/
def step (reach : ι → UInt8 → ι → Bool) (net : ι → Site) : NetworkAction ι → Option (ι → Site)
  | .site i a => ((net i).step a).map (Function.update net i)
  | .arrive i k j clock => (net i).node.emitted[k]?.bind fun p =>
      if reach i p.daddr j then some (Function.update net j ((net j).recv ⟨clock, p⟩)) else none

/-- What a step of the network can do. -/
theorem step_cases {reach : ι → UInt8 → ι → Bool} {net net' : ι → Site} {a : NetworkAction ι}
    (h : step reach net a = some net') :
    (∃ i act s, (net i).step act = some s ∧ net' = Function.update net i s) ∨
      ∃ i j clock p, p ∈ (net i).node.emitted ∧ reach i p.daddr j = true ∧
        net' = Function.update net j ((net j).recv ⟨clock, p⟩) := by
  cases a with
  | site i act =>
      obtain ⟨s, stepped, rfl⟩ := Option.map_eq_some_iff.mp h
      exact .inl ⟨i, act, s, stepped, rfl⟩
  | arrive i k j clock =>
      obtain ⟨p, found, h⟩ := Option.bind_eq_some_iff.mp h
      simp only [Option.ite_none_right_eq_some, Option.some.injEq] at h
      exact .inr ⟨i, j, clock, p, List.mem_of_getElem? found, h.1, h.2.symm⟩

end Network

/-- Every node keeps its own invariant, and what a node received was emitted at a node
that reaches it. -/
structure Networked {ι : Type*} (reach : ι → UInt8 → ι → Bool) (heap : ι → Nat → Bool)
    (b : ι → Bound) (net : ι → Site) : Prop where
  sound : ∀ i, (net i).Sound (heap i) (b i)
  origin : ∀ j, ∀ a ∈ (net j).arrived, ∃ i, reach i (b i).destAddr j = true ∧
    a.packet ∈ (net i).node.emitted

/-- All that arrived at `j` was emitted at `i`. -/
def HearsOnly {ι : Type*} (net : ι → Site) (i j : ι) : Prop :=
  ∀ a ∈ (net j).arrived, a.packet ∈ (net i).node.emitted

/-! ### The counters of a link -/

section Link

variable {heap : Nat → Bool} {b : Bound} {l : Link}

/-- Numbers up to that of the last packet emitted can arrive, and that one only with the
last packet. -/
theorem Conserved.sn_arrived (inv : Conserved heap b l) (few : l.sender.emitted.length < 65534)
    {a : Arrival} (ha : a ∈ l.arrived) :
    a.isData = true ∧ a.sn ≤ l.sender.emitted.length + 1 ∧
      (a.sn = l.sender.emitted.length + 1 ↔ l.sender.emitted.getLast? = some a.packet) := by
  have emitted := inv.arrived a ha
  have number := inv.numbered.stream.number (few.trans (by decide))
  obtain ⟨k, hk, same⟩ := List.getElem_of_mem emitted
  have sn : a.sn = k + 2 := by rw [Arrival.sn, ← same, number k hk]
  refine ⟨isData_iff.mpr (inv.numbered.stream.ptype _ emitted), by omega, ?_⟩
  rw [List.getLast?_eq_getElem?, List.getElem?_eq_some_iff]
  constructor
  · intro top
    have last : l.sender.emitted.length - 1 = k := by omega
    exact ⟨by omega, by simp only [last, same]⟩
  · rintro ⟨hl, last⟩
    have top : a.sn = l.sender.emitted.length - 1 + 2 := by rw [Arrival.sn, ← last, number _ hl]
    omega

/-- The highest number heard is that of the last packet exactly when it was heard. -/
theorem Conserved.peak_arrived (inv : Conserved heap b l)
    (few : l.sender.emitted.length < 65534) :
    peak Arrival.sn 0 (dataArrivals l.arrived) ≤ l.sender.emitted.length + 1 ∧
      (peak Arrival.sn 0 (dataArrivals l.arrived) = l.sender.emitted.length + 1 ↔
        ∃ a ∈ l.arrived, l.sender.emitted.getLast? = some a.packet) := by
  have heard := fun a ha => inv.sn_arrived few (a := a) ha
  have bounded : peak Arrival.sn 0 (dataArrivals l.arrived) ≤ l.sender.emitted.length + 1 :=
    peak_le_iff.mpr ⟨Nat.zero_le _, fun a ha => (heard a (mem_dataArrivals.mp ha).1).2.1⟩
  refine ⟨bounded, ?_⟩
  constructor
  · intro top
    have below := mt peak_lt_iff.mpr (not_lt.mpr top.ge)
    push Not at below
    obtain ⟨a, ha, above⟩ := below (Nat.succ_pos _)
    have arrived := (mem_dataArrivals.mp ha).1
    obtain ⟨-, le, last⟩ := heard a arrived
    exact ⟨a, arrived, last.mp (le.antisymm above)⟩
  · rintro ⟨a, ha, last⟩
    obtain ⟨data, -, top⟩ := heard a ha
    apply bounded.antisymm
    rw [← top.mpr last]
    exact (peak_le_iff.mp le_rfl).2 a (mem_dataArrivals.mpr ⟨ha, data⟩)

/-- Receptions and losses against the packets emitted. -/
theorem Conserved.reconciled (inv : Conserved heap b l) (drop : b.dropOutOfOrder = 1)
    (few : l.sender.emitted.length < 65534) :
    l.receiver.pktsRecv ≤ l.sender.emitted.length ∧ 0 ≤ l.receiver.pktsLost ∧
      l.receiver.pktsLost + l.receiver.pktsRecv ≤ (l.sender.emitted.length : Int) + 1 ∧
      (l.receiver.pktsLost + l.receiver.pktsRecv = (l.sender.emitted.length : Int) + 1 ↔
        ∃ a ∈ l.arrived, l.sender.emitted.getLast? = some a.packet) := by
  have t := tracks_recvAll drop true (inv.clear few)
  have nonneg := counts_nonneg heap drop true l.arrived
  rw [← inv.receiver] at t nonneg
  have accepted := (inv.accepted_sublist few).length_le
  obtain ⟨bounded, reaches⟩ := inv.peak_arrived few
  rw [t.lost, t.highest, t.recv, tally_record, ← reaches]
  rw [List.length_map] at accepted
  refine ⟨by exact_mod_cast accepted, nonneg.2, by exact_mod_cast bounded, ?_⟩
  norm_cast

end Link

/-! ### Two nodes -/

/-- Two nodes in drop mode that send to all; the one hears the other. -/
def pairReach (sender : Bool) (addr : UInt8) (receiver : Bool) : Bool :=
  sender != receiver && addr == 255

def pairBound (_ : Bool) : Bound := ⟨1, 255, 0⟩

/-- Node 1 sends two messages and node 2 one. -/
def pairSends : List (NetworkAction Bool) :=
  [.site false .start, .site true .start,
    .site false (.send (.enqueue (oneBytePacket 0) (fun _ => 7) 1)),
    .site false (.send (.enqueue (oneBytePacket 0) (fun _ => 8) 1)),
    .site true (.send (.enqueue (oneBytePacket 0) (fun _ => 9) 1)),
    .site false (.send .test), .site false (.send (.pop 1)),
    .site true (.send .test), .site true (.send (.pop 1)),
    .site false (.send .test), .site false (.send (.pop 2))]

/-- The second packet overtakes the first and comes twice; node 1 is stopped before it hears
the answer. -/
def pairRun : List (NetworkAction Bool) :=
  pairSends ++
    [.arrive false 1 true 3, .arrive false 0 true 4, .arrive false 1 true 5,
      .site false .stop, .arrive true 0 false 6]

/-- It is a run, and what can be seen of its last state. -/
theorem pairRun_reaches : ∃ moves net,
    Run (Network.step pairReach) (Network.start (fun _ _ => false) pairBound) moves net ∧
      (net false).messages = [[7], [8]] ∧ (net true).delivered = [[8]] ∧
      (net false).delivered = [] ∧ (net true).arrived.length = 3 ∧
      (net false).node.emitted.length = 2 ∧ (net true).node.emitted.length = 1 ∧
      (net true).node.mod.getPktRecv = 1 ∧ (net true).node.mod.getPktLost = 2 ∧
      (net false).node.mod.getPktRecv = 1 := by
  have ran : (exec (Network.step pairReach) (Network.start (fun _ _ => false) pairBound)
      pairRun).map (fun net =>
        ([(net false).messages, (net true).delivered, (net false).delivered],
          [(net true).arrived.length, (net false).node.emitted.length,
            (net true).node.emitted.length],
          [(net true).node.mod.getPktRecv, (net true).node.mod.getPktLost,
            (net false).node.mod.getPktRecv])) =
      some ([[[7], [8]], [[8]], []], [3, 2, 1], [1, 2, 1]) := by decide +kernel
  obtain ⟨net, executed, same⟩ := Option.map_eq_some_iff.mp ran
  obtain ⟨moves, run, -⟩ := run_of_exec executed
  simp only [Prod.mk.injEq, List.cons.injEq, and_true, and_assoc] at same
  exact ⟨moves, net, run, same⟩

section Run

variable {ι : Type*} {reach : ι → UInt8 → ι → Bool} {heap : ι → Nat → Bool} {b : ι → Bound}
  {net net' : ι → Site} {moves : List (Move (ι → Site) (NetworkAction ι))} {i j : ι}

theorem networked_start (reach : ι → UInt8 → ι → Bool) (heap : ι → Nat → Bool) (b : ι → Bound) :
    Networked reach heap b (Network.start heap b) where
  sound i := sound_init (heap i) (b i)
  origin := by simp [Network.start, Site.init]

/-- A node that one sender reaches hears this one only. -/
theorem Networked.hearsOnly (inv : Networked reach heap b net)
    (only : ∀ k, reach k (b k).destAddr j = true → k = i) : HearsOnly net i j := by
  intro a ha
  obtain ⟨k, reached, emitted⟩ := inv.origin j a ha
  rwa [only k reached] at emitted

/-- The node that hears one sender only, as a link. -/
theorem Networked.conserved (inv : Networked reach heap b net) (only : HearsOnly net i j) :
    Conserved (heap j) (b j) {
      sender := (net i).node
      receiver := (net j).node.mod.receiving
      messages := ((net i).node.emitted ++ (net i).node.queuePckRead).map Packet.payload
      arrived := (net j).arrived
      delivered := (UwAppNetModule.fresh (heap j) (b j) true).sentData (net j).arrived } where
  numbered := (inv.sound i).numbered
  messages := rfl
  arrived := only
  receiver := (inv.sound j).receiver
  delivered := rfl

variable [DecidableEq ι]

/-- What was emitted stays emitted when one node changes. -/
theorem emitted_update {s : Site} (kept : (net i).node.emitted ⊆ s.node.emitted) {p : Packet}
    (found : ∃ k, reach k (b k).destAddr j = true ∧ p ∈ (net k).node.emitted) :
    ∃ k, reach k (b k).destAddr j = true ∧ p ∈ (Function.update net i s k).node.emitted := by
  obtain ⟨k, reached, emitted⟩ := found
  refine ⟨k, reached, ?_⟩
  by_cases same : k = i
  · subst same
    rw [Function.update_self]
    exact kept emitted
  · rwa [Function.update_of_ne same]

/-- One node changes, and hears at most a packet that was sent to it. -/
theorem Networked.update (inv : Networked reach heap b net) {s : Site}
    (sound : s.Sound (heap i) (b i)) (kept : (net i).node.emitted ⊆ s.node.emitted)
    (heard : ∀ a ∈ s.arrived, a ∈ (net i).arrived ∨
      ∃ k, reach k (b k).destAddr i = true ∧ a.packet ∈ (net k).node.emitted) :
    Networked reach heap b (Function.update net i s) := by
  constructor
  · intro k
    by_cases same : k = i
    · subst same
      rwa [Function.update_self]
    · rw [Function.update_of_ne same]
      exact inv.sound k
  · intro j a ha
    by_cases same : j = i
    · subst same
      rw [Function.update_self] at ha
      rcases heard a ha with old | new
      · exact emitted_update kept (inv.origin j a old)
      · exact emitted_update kept new
    · rw [Function.update_of_ne same] at ha
      exact emitted_update kept (inv.origin j a ha)

theorem Networked.step (inv : Networked reach heap b net) {a : NetworkAction ι}
    (h : Network.step reach net a = some net') : Networked reach heap b net' := by
  rcases Network.step_cases h with
    ⟨i, act, s, stepped, rfl⟩ | ⟨i, j, clock, p, emitted, reached, rfl⟩
  · obtain ⟨arrived, kept⟩ := Site.step_frame stepped
    refine inv.update ((inv.sound i).step stepped) kept fun a ha => .inl ?_
    rwa [arrived] at ha
  · refine inv.update ((inv.sound j).recv _) (List.Subset.refl _) fun a ha => ?_
    rcases List.mem_append.mp ha with old | new
    · exact .inl old
    · rw [List.mem_singleton.mp new]
      refine .inr ⟨i, ?_, emitted⟩
      rw [← (inv.sound i).daddr p emitted]
      exact reached

theorem networked_run (run : Run (Network.step reach) (Network.start heap b) moves net) :
    Networked reach heap b net :=
  run.invariant (networked_start reach heap b) fun _ _ _ inv h => inv.step h

/-- In every mode and whoever else reaches a node: a message it passes on is one that was
enqueued at a node that reaches it, byte for byte. -/
theorem delivered_from_sender (run : Run (Network.step reach) (Network.start heap b) moves net)
    {data : List UInt8} (delivered : data ∈ (net j).delivered) :
    ∃ i, reach i (b i).destAddr j = true ∧ data ∈ (net i).messages := by
  have inv := networked_run run
  have received := UwAppNetModule.sentData_sublist
    (UwAppNetModule.fresh (heap j) (b j) true) (net j).arrived
  obtain ⟨a, ha, rfl⟩ := List.mem_map.mp (((inv.sound j).delivered.trans received).subset delivered)
  obtain ⟨i, reached, emitted⟩ := inv.origin j a ha
  refine ⟨i, reached, (inv.sound i).messages.subset ?_⟩
  rw [List.map_append]
  exact List.mem_append_left _ (List.mem_map_of_mem emitted)

/-- Of the two messages only the second is passed on, and it is one of node 1. -/
theorem pair_delivered_from_sender : ∃ moves net,
    Run (Network.step pairReach) (Network.start (fun _ _ => false) pairBound) moves net ∧
      [8] ∈ (net true).delivered ∧
      ∃ i, pairReach i (pairBound i).destAddr true = true ∧ [8] ∈ (net i).messages := by
  obtain ⟨moves, net, run, -, delivered, -⟩ := pairRun_reaches
  have passed : [8] ∈ (net true).delivered := by rw [delivered]; decide
  exact ⟨moves, net, run, passed, delivered_from_sender run passed⟩

/-! ### One sender, in drop mode -/

omit [DecidableEq ι] in
theorem Networked.delivered_sublist (inv : Networked reach heap b net)
    (drop : (b j).dropOutOfOrder = 1) (only : HearsOnly net i j)
    (few : (net i).node.emitted.length < 65534) :
    (net j).delivered.Sublist (net i).messages := by
  have link := inv.conserved only
  have accepted := (link.accepted_sublist few).map Packet.payload
  rw [List.map_map] at accepted
  have sent := (inv.sound j).delivered
  rw [sentData_eq drop (link.clear few)] at sent
  have all := (inv.sound i).messages
  rw [List.map_append] at all
  exact (sent.trans accepted).trans ((List.sublist_append_left _ _).trans all)

/-- A node in drop mode that hears one sender passes on a subsequence of the messages
enqueued there, whatever is lost, repeated or reordered on the way, whatever the node itself
sends meanwhile and whenever the listeners of either node are stopped and started. -/
theorem full_duplex_sublist (run : Run (Network.step reach) (Network.start heap b) moves net)
    (drop : (b j).dropOutOfOrder = 1) (only : HearsOnly net i j)
    (few : (net i).node.emitted.length < 65534) :
    (net j).delivered.Sublist (net i).messages :=
  (networked_run run).delivered_sublist drop only few

/-- The answer of node 2 is heard and not passed on, as node 1 has no listener then. -/
theorem pair_full_duplex : ∃ moves net,
    Run (Network.step pairReach) (Network.start (fun _ _ => false) pairBound) moves net ∧
      (net true).delivered = [[8]] ∧ (net true).arrived.length = 3 ∧
      (net true).delivered.Sublist (net false).messages ∧
      (net false).delivered.Sublist (net true).messages := by
  obtain ⟨moves, net, run, -, delivered, -, arrived, emitted, emitted', -⟩ := pairRun_reaches
  have inv := networked_run run
  refine ⟨moves, net, run, delivered, arrived, ?_, ?_⟩
  · exact full_duplex_sublist run rfl (inv.hearsOnly (by decide)) (by rw [emitted]; decide)
  · exact full_duplex_sublist run rfl (inv.hearsOnly (by decide)) (by rw [emitted']; decide)

/-- The counters of a sender and of the node in drop mode that hears it: no more is received
than was sent, losses and receptions never exceed the packets sent by more than one, and
reach that sum exactly when the last packet sent has arrived. -/
theorem counters_reconcile (run : Run (Network.step reach) (Network.start heap b) moves net)
    (drop : (b j).dropOutOfOrder = 1) (only : HearsOnly net i j)
    (few : (net i).node.emitted.length < 65534) :
    let sender := (net i).node.mod
    let receiver := (net j).node.mod
    receiver.getPktRecv ≤ sender.getPktSent ∧ 0 ≤ receiver.getPktLost ∧
      receiver.getPktLost + receiver.getPktRecv ≤ sender.getPktSent + 1 ∧
      (receiver.getPktLost + receiver.getPktRecv = sender.getPktSent + 1 ↔
        ∃ a ∈ (net j).arrived, (net i).node.emitted.getLast? = some a.packet) := by
  intro sender receiver
  have inv := networked_run run
  have sent : sender.getPktSent = (net i).node.emitted.length := by
    have txsn := (inv.sound i).numbered.txsn
    rw [UwAppNetModule.getPktSent, txsn, Node.emitted, List.length_map]
    omega
  rw [sent]
  exact (inv.conserved only).reconciled drop few

/-- Two packets sent and one received: with the loss that is never sent, two lost. -/
theorem pair_counters_reconcile : ∃ moves net,
    Run (Network.step pairReach) (Network.start (fun _ _ => false) pairBound) moves net ∧
      (net true).node.mod.getPktRecv = 1 ∧ (net true).node.mod.getPktLost = 2 ∧
      ((net true).node.mod.getPktLost + (net true).node.mod.getPktRecv =
          (net false).node.mod.getPktSent + 1 ↔
        ∃ a ∈ (net true).arrived, (net false).node.emitted.getLast? = some a.packet) := by
  obtain ⟨moves, net, run, -, -, -, -, emitted, -, recv, lost, -⟩ := pairRun_reaches
  exact ⟨moves, net, run, recv, lost,
    (counters_reconcile (i := false) (j := true) run rfl ((networked_run run).hearsOnly (by decide))
      (by rw [emitted]; decide)).2.2.2⟩

/-! ### Where nothing is dropped -/

/-- A packet that reaches `j` finds a listener there. -/
def Network.listening (j : ι) (net : ι → Site) : NetworkAction ι → Bool
  | .arrive _ _ j' _ => decide (j' ≠ j) || (net j).node.mod.pTcpListener
  | .site _ _ => true

/-- Then `j` passes on what its receive path accepts. -/
structure Heard (reach : ι → UInt8 → ι → Bool) (heap : ι → Nat → Bool) (b : ι → Bound) (j : ι)
    (net : ι → Site) : Prop extends Networked reach heap b net where
  all : (net j).delivered = (UwAppNetModule.fresh (heap j) (b j) true).sentData (net j).arrived

omit [DecidableEq ι] in
theorem heard_start (reach : ι → UInt8 → ι → Bool) (heap : ι → Nat → Bool) (b : ι → Bound) (j : ι) :
    Heard reach heap b j (Network.start heap b) where
  toNetworked := networked_start reach heap b
  all := rfl

theorem Heard.step (inv : Heard reach heap b j net) {a : NetworkAction ι}
    (listening : Network.listening j net a = true) (h : Network.step reach net a = some net') :
    Heard reach heap b j net' := by
  refine ⟨inv.toNetworked.step h, ?_⟩
  cases a with
  | site i act =>
      obtain ⟨s, stepped, rfl⟩ := Option.map_eq_some_iff.mp h
      by_cases same : j = i
      · subst same
        rw [Function.update_self, (Site.step_frame stepped).1, ← inv.all]
        rcases Site.step_cases stepped with ⟨act, n, -, rfl⟩ | ⟨present, replaced, rfl⟩ | rfl <;> rfl
      · rw [Function.update_of_ne same]
        exact inv.all
  | arrive i k j' clock =>
      obtain ⟨p, found, h⟩ := Option.bind_eq_some_iff.mp h
      simp only [Option.ite_none_right_eq_some, Option.some.injEq] at h
      obtain ⟨-, rfl⟩ := h
      by_cases same : j = j'
      · subst same
        have listener : (net j).node.mod.pTcpListener = true := by
          simpa [Network.listening] using listening
        rw [Function.update_self]
        show (net j).delivered ++ ((net j).node.mod.statistics clock p).2.sent =
          UwAppNetModule.sentData _ ((net j).arrived ++ [⟨clock, p⟩])
        rw [UwAppNetModule.sentData_concat, inv.all, UwAppNetModule.exitAfter,
          ← (inv.sound j).receiver]
        exact congrArg _ ((UwAppNetModule.sent_receiving _ ⟨clock, p⟩).trans (if_pos listener))
      · rw [Function.update_of_ne same]
        exact inv.all

theorem heard_run (run : Run (Network.step reach) (Network.start heap b) moves net)
    (listening : ∀ m ∈ moves, Network.listening j m.before m.action = true) :
    Heard reach heap b j net :=
  run.invariant_of (heard_start reach heap b j) listening fun _ _ _ inv met h => inv.step met h

omit [DecidableEq ι] in
/-- Only data packets come in. -/
theorem Networked.dataArrivals_eq (inv : Networked reach heap b net) :
    dataArrivals (net j).arrived = (net j).arrived := by
  apply List.filter_eq_self.mpr
  intro a ha
  obtain ⟨i, -, emitted⟩ := inv.origin j a ha
  exact isData_iff.mpr ((inv.sound i).numbered.stream.ptype _ emitted)

omit [DecidableEq ι] in
theorem Heard.passes_unchecked (heard : Heard reach heap b j net) (off : (b j).dropOutOfOrder ≠ 1) :
    (net j).delivered = (net j).arrived.map fun a => a.packet.payload := by
  rw [heard.all, UwAppNetModule.sentData_off off rfl, heard.dataArrivals_eq]

/-- With the order check off, a node passes on every packet that reaches it while it has a
listener, from however many senders and in the order of arrival. -/
theorem unchecked_passes_all (run : Run (Network.step reach) (Network.start heap b) moves net)
    (off : (b j).dropOutOfOrder ≠ 1)
    (listening : ∀ m ∈ moves, Network.listening j m.before m.action = true) :
    (net j).delivered = (net j).arrived.map fun a => a.packet.payload :=
  (heard_run run listening).passes_unchecked off

/-- The two messages, the second of them twice and first. -/
theorem repeated_packet_passed_on : ∃ moves net,
    Run (Network.step pairReach)
        (Network.start (fun _ _ => false) fun _ => ⟨0, 255, 0⟩) moves net ∧
      (net true).delivered = [[8], [7], [8]] ∧
      (net true).delivered = (net true).arrived.map fun a => a.packet.payload := by
  have ran : (exec (guarded (Network.listening true) (Network.step pairReach))
      (Network.start (fun _ _ => false) fun _ => ⟨0, 255, 0⟩)
      (pairSends ++ [.arrive false 1 true 3, .arrive false 0 true 4, .arrive false 1 true 5])).map
        (fun net => (net true).delivered) = some [[8], [7], [8]] := by decide +kernel
  obtain ⟨net, executed, delivered⟩ := Option.map_eq_some_iff.mp ran
  obtain ⟨moves, run, -⟩ := run_of_exec executed
  obtain ⟨run, listening⟩ := run.of_guarded
  exact ⟨moves, net, run, delivered, unchecked_passes_all run (by decide) listening⟩

omit [DecidableEq ι] in
theorem Heard.passes_iff (heard : Heard reach heap b j net) (drop : (b j).dropOutOfOrder = 1)
    (only : HearsOnly net i j) (few : (net i).node.emitted.length < 65534) :
    ((net j).delivered = (net j).arrived.map fun a => a.packet.payload) ↔
      ((net j).arrived.map Arrival.packet).Sublist (net i).node.emitted := by
  have link := heard.conserved only
  have accepted := link.accepted_sublist few
  rw [heard.all, sentData_eq drop (link.clear few)]
  rw [heard.dataArrivals_eq] at accepted ⊢
  constructor
  · intro same
    have length := congrArg List.length same
    rw [List.length_map, List.length_map] at length
    rwa [(records_sublist _).eq_of_length length] at accepted
  · intro ordered
    have unwrapped : (net i).node.emitted.length < ushrtMax := few.trans (by decide)
    have stream := (heard.sound i).numbered.stream
    have increasing := List.pairwise_map.mp ((stream.increasing unwrapped).sublist ordered)
    have positive : ∀ a ∈ (net j).arrived, 0 < a.sn := by
      intro a ha
      obtain ⟨k, hk, same⟩ := List.getElem_of_mem (link.arrived a ha)
      rw [Arrival.sn, ← same, stream.number unwrapped k hk]
      omega
    rw [records_eq_self positive increasing]

/-- In drop mode it passes on every packet that reaches it from its only sender exactly when
they arrive in the order they were sent, none twice; losses do not matter. -/
theorem passes_all_iff_in_order (run : Run (Network.step reach) (Network.start heap b) moves net)
    (drop : (b j).dropOutOfOrder = 1) (only : HearsOnly net i j)
    (few : (net i).node.emitted.length < 65534)
    (listening : ∀ m ∈ moves, Network.listening j m.before m.action = true) :
    ((net j).delivered = (net j).arrived.map fun a => a.packet.payload) ↔
      ((net j).arrived.map Arrival.packet).Sublist (net i).node.emitted :=
  (heard_run run listening).passes_iff drop only few

/-- In order both are passed on. -/
theorem ordered_pair_passed_on : ∃ moves net,
    Run (Network.step pairReach) (Network.start (fun _ _ => false) pairBound) moves net ∧
      (net true).delivered = [[7], [8]] ∧
      ((net true).delivered = ((net true).arrived.map fun a => a.packet.payload) ↔
        ((net true).arrived.map Arrival.packet).Sublist (net false).node.emitted) := by
  have ran : (exec (guarded (Network.listening true) (Network.step pairReach))
      (Network.start (fun _ _ => false) pairBound)
      (pairSends ++ [.arrive false 0 true 3, .arrive false 1 true 4])).map
        (fun net => ((net true).delivered, (net false).node.emitted.length)) =
      some ([[7], [8]], 2) := by decide +kernel
  obtain ⟨net, executed, same⟩ := Option.map_eq_some_iff.mp ran
  obtain ⟨delivered, emitted⟩ := Prod.mk.inj same
  obtain ⟨moves, run, -⟩ := run_of_exec executed
  obtain ⟨run, listening⟩ := run.of_guarded
  exact ⟨moves, net, run, delivered,
    passes_all_iff_in_order run rfl ((networked_run run).hearsOnly (by decide))
      (by rw [emitted]; decide) listening⟩

end Run

end UwAppNet
