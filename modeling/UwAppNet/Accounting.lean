import UwAppNet.Station
import UwAppNet.DropMode

/-!
The counters of a node against what happened to it: every packet handed to `recv` is in
exactly one of three counters, every message read is sent or in the queue, and both hold
while the script switches `drop_out_of_order_` as it likes.
-/

namespace UwAppNet

open Transition

/-- How `recv` disposed of a packet in a step. -/
def exitOf (m : Move Station StationAction) : Option Exit :=
  match m.action with
  | .recv a => some (m.before.node.mod.statistics a.clock a.packet).2
  | _ => none

def accepts (m : Move Station StationAction) : Bool := (exitOf m).any Exit.accepted

def drops (reason : DropReason) (m : Move Station StationAction) : Bool :=
  exitOf m = some (.drop reason)

/-- A packet is handed to `recv`. -/
def receives (m : Move Station StationAction) : Bool := (exitOf m).isSome

/-- A message is read from the client. -/
def reads (m : Move Station StationAction) : Bool :=
  match m.action with
  | .send (.enqueue ..) => true
  | _ => false

/-- What one call of `statistics` does to the counters. -/
structure Disposed (m m' : UwAppNetModule) (exit : Exit) : Prop where
  recv : m'.pktsRecv = m.pktsRecv + if exit.accepted then 1 else 0
  ooseq : m'.pktsOoseq = m.pktsOoseq + if exit = .drop .outOfSequence then 1 else 0
  invalid : m'.pktsInvalid = m.pktsInvalid +
    if exit = .drop .unknownType ∨ exit = .drop .duplicatedPacket then 1 else 0
  fttsamples : m'.fttsamples = m.fttsamples + if exit.accepted then 1 else 0
  lost : m.pktsLost ≤ m'.pktsLost
  txsn : m'.txsn = m.txsn
  pktsPushQueue : m'.pktsPushQueue = m.pktsPushQueue

/-- The gap before an accepted packet is not negative. -/
theorem gap_nonneg {sn : UInt16} {esn : UInt32} (gap : sn.toUInt32 > esn) :
    0 ≤ uint32ToInt (sn.toUInt32 - esn) := by
  have width := UInt16.toNat_toUInt32 sn
  have small : sn.toUInt32.toNat < 2 ^ 16 := width ▸ sn.toNat_lt
  have le := UInt32.le_iff_toNat_le.mp (UInt32.le_of_lt gap)
  rw [uint32ToInt_sub (UInt32.le_of_lt gap) small]
  omega

theorem disposed_statistics (m : UwAppNetModule) (clock : ℚ) (p : Packet) :
    Disposed m (m.statistics clock p).1 (m.statistics clock p).2 := by
  rw [UwAppNetModule.statistics_eq]
  split
  · constructor <;> simp [UwAppNetModule.incrPktInvalid, Exit.accepted]
  · split
    · constructor <;>
        simp [UwAppNetModule.incrPktInvalid, UwAppNetModule.expectNext, Exit.accepted]
    · split
      · constructor <;> simp [UwAppNetModule.incrPktOoseq, UwAppNetModule.expectNext,
          UwAppNetModule.mark, Exit.accepted]
      · rw [UwAppNetModule.accept_eq]
        constructor <;> simp [UwAppNetModule.expectNext, UwAppNetModule.mark, Exit.accepted]
        split
        · rename_i gap
          exact gap_nonneg gap.2
        · exact le_rfl

/-! ### Over a run -/

/-- The counters of the node are counts of the steps taken. -/
structure Booked (moves : List (Move Station StationAction)) (s : Station) : Prop where
  recv : s.node.mod.pktsRecv = moves.countP accepts
  ooseq : s.node.mod.pktsOoseq = moves.countP (drops .outOfSequence)
  invalid : s.node.mod.pktsInvalid =
    (moves.countP (drops .unknownType) : Int) + moves.countP (drops .duplicatedPacket)
  fttsamples : s.node.mod.fttsamples = moves.countP accepts
  lost : 0 ≤ s.node.mod.pktsLost
  txsn : s.node.mod.txsn = s.node.sentDown.length + 1
  read : s.node.mod.pktsPushQueue = moves.countP reads
  queue : s.node.mod.pktsPushQueue = (s.node.sentDown.length : Int) + s.node.queuePckRead.length

section Run

variable {heap : Nat → Bool} {b : Bound} {listener : Bool} {s s' : Station}
  {moves : List (Move Station StationAction)} {act : StationAction}

theorem booked_start (heap : Nat → Bool) (b : Bound) (listener : Bool) :
    Booked [] (Station.start heap b listener) := by
  constructor <;> rfl

/-- After a step that hands nothing to `recv` it is enough that the counters of the send path
agree with the queue. -/
theorem Booked.sending (inv : Booked moves s) {m : Move Station StationAction} {n : Node}
    (figures : n.mod.figures = s.figures) (ooseq : n.mod.pktsOoseq = s.node.mod.pktsOoseq)
    (invalid : n.mod.pktsInvalid = s.node.mod.pktsInvalid)
    (txsn : n.mod.txsn = n.sentDown.length + 1)
    (read : n.mod.pktsPushQueue = s.node.mod.pktsPushQueue + if reads m then 1 else 0)
    (queue : n.mod.pktsPushQueue = (n.sentDown.length : Int) + n.queuePckRead.length)
    (none : exitOf m = none) {accepted : List Arrival} : Booked (moves ++ [m]) ⟨n, accepted⟩ := by
  have no_accept : accepts m = false := by rw [accepts, none]; rfl
  have no_drop : ∀ reason, drops reason m = false := by
    intro reason
    rw [drops, none]
    rfl
  refine ⟨?_, ?_, ?_, ?_, ?_, txsn, ?_, queue⟩
  · rw [List.countP_append, List.countP_singleton, no_accept]
    exact (congrArg Figures.pktsRecv figures).trans inv.recv
  · rw [List.countP_append, List.countP_singleton, no_drop]
    exact ooseq.trans inv.ooseq
  · rw [List.countP_append, List.countP_singleton, List.countP_append, List.countP_singleton,
      no_drop, no_drop]
    exact invalid.trans inv.invalid
  · rw [List.countP_append, List.countP_singleton, no_accept]
    exact (congrArg Figures.fttsamples figures).trans inv.fttsamples
  · exact inv.lost.trans_eq (congrArg Figures.pktsLost figures).symm
  · rw [List.countP_append, List.countP_singleton]
    push_cast
    rw [← inv.read]
    exact read

/-- After a call of `recv` it is enough how `statistics` counts the packet. -/
theorem Booked.receiving (inv : Booked moves s) {m : Move Station StationAction} {exit : Exit}
    (taken : exitOf m = some exit) (unread : reads m = false) {mod : UwAppNetModule}
    (counted : Disposed s.node.mod mod exit) {accepted : List Arrival} :
    Booked (moves ++ [m]) ⟨{ s.node with mod := mod }, accepted⟩ := by
  have accept : accepts m = exit.accepted := by rw [accepts, taken]; rfl
  have drop : ∀ reason, drops reason m = decide (exit = .drop reason) := by
    intro reason
    simp only [drops, taken, Option.some.injEq]
  constructor
  · rw [List.countP_append, List.countP_singleton, accept]
    push_cast
    rw [← inv.recv]
    exact counted.recv
  · rw [List.countP_append, List.countP_singleton, drop]
    push_cast
    rw [← inv.ooseq]
    simpa using counted.ooseq
  · rw [List.countP_append, List.countP_singleton, List.countP_append, List.countP_singleton,
      drop, drop]
    have invalid := counted.invalid
    rw [inv.invalid] at invalid
    apply invalid.trans
    cases exit with
    | accept data => simp
    | drop reason => cases reason <;> simp <;> omega
  · rw [List.countP_append, List.countP_singleton, accept]
    push_cast
    rw [← inv.fttsamples]
    exact counted.fttsamples
  · exact inv.lost.trans counted.lost
  · exact counted.txsn.trans inv.txsn
  · rw [List.countP_append, List.countP_singleton, unread]
    exact counted.pktsPushQueue.trans inv.read
  · exact counted.pktsPushQueue.trans inv.queue

theorem Booked.step (inv : Booked moves s) (h : s.step act = some s') :
    Booked (moves ++ [⟨s, act, s'⟩]) s' := by
  have txsn := inv.txsn
  have queue := inv.queue
  cases act with
  | send a =>
      obtain ⟨n, stepped, rfl⟩ := Option.map_eq_some_iff.mp h
      have figures := Station.figures_send stepped
      rcases Node.step_cases stepped with
        ⟨alloc, bufferMsg, recvMsgSize, rfl, -, -, rfl⟩ | ⟨rfl, -, rfl⟩ |
          ⟨clock, ptmp, rest, rfl, -, queued, rfl⟩
      · refine inv.sending figures rfl rfl txsn rfl ?_ rfl
        simp [Node.enqueue, UwAppNetModule.incrPktsPushQueue, queue, Int.add_assoc]
      · exact inv.sending figures rfl rfl txsn (Int.add_zero _).symm queue rfl
      · refine inv.sending figures rfl rfl ?_ (Int.add_zero _).symm ?_ rfl
        · rw [fillHeaders_txsn, txsn]
          simp
        · rw [queued] at queue
          simp only [List.length_append, List.length_cons, List.length_nil] at queue ⊢
          push_cast at queue ⊢
          exact queue.trans (by omega)
  | setDropOutOfOrder value =>
      cases h
      exact inv.sending (n := (s.setDropOutOfOrder value).node) rfl rfl rfl txsn
        (Int.add_zero _).symm queue rfl
  | recv a =>
      cases h
      exact inv.receiving rfl rfl (disposed_statistics s.node.mod a.clock a.packet)

theorem booked_run (run : Run Station.step (Station.start heap b listener) moves s) :
    Booked moves s := by
  induction run with
  | nil => exact booked_start heap b listener
  | snoc _ last ih => exact ih.step last

/-- Every packet handed to `recv` leaves by one of four exits. -/
theorem countP_receives (moves : List (Move Station StationAction)) :
    moves.countP receives = moves.countP accepts + moves.countP (drops .outOfSequence) +
      (moves.countP (drops .unknownType) + moves.countP (drops .duplicatedPacket)) := by
  induction moves with
  | nil => rfl
  | cons m moves ih =>
      simp only [List.countP_cons, ih, receives, accepts, drops]
      rcases Option.eq_none_or_eq_some (exitOf m) with taken | ⟨exit, taken⟩
      · simp [taken]
      · cases exit with
        | accept data => simp [taken, Exit.accepted, Nat.add_right_comm]
        | drop reason => cases reason <;> simp [taken, Exit.accepted] <;> omega

/-- The counters of a node that sends and receives, under every schedule of its
`drop_out_of_order_`: of the packets that came in, those accepted, out of order and invalid
are all; of the messages read, those sent and those queued are all; and there is one trip
time for each packet accepted. As for `counters_bounded`, the members hold these numbers as long
as fewer than `2 ^ 31` calls were made. -/
theorem books_balance (run : Run Station.step (Station.start heap b listener) moves s) :
    let m := s.node.mod
    m.getPktRecv + m.getPktsOOSequence + m.getPktsInvalidRx = moves.countP receives ∧
      m.getPktRecv = moves.countP accepts ∧
      m.getPktsOOSequence = moves.countP (drops .outOfSequence) ∧
      m.fttsamples = m.getPktRecv ∧ 0 ≤ m.getPktLost ∧
      m.getPktsPushQueue = moves.countP reads ∧
      m.getPktSent + s.node.queuePckRead.length = m.getPktsPushQueue := by
  have booked := booked_run run
  have total := countP_receives moves
  have recv := booked.recv
  have ooseq := booked.ooseq
  have invalid := booked.invalid
  refine ⟨?_, recv, ooseq, booked.fttsamples.trans recv.symm, booked.lost, booked.read, ?_⟩
  · simp only [UwAppNetModule.getPktRecv, UwAppNetModule.getPktsOOSequence,
      UwAppNetModule.getPktsInvalidRx]
    omega
  · simp only [UwAppNetModule.getPktSent, UwAppNetModule.getPktsPushQueue, booked.txsn,
      booked.queue]
    omega

end Run

/-- Number 3, its repetition and number 2 in drop mode, number 2 again without the check, and
a message read and not yet sent. -/
theorem switched_books_balance :
    ∃ moves s, Run Station.step (Station.start (fun _ => false) ⟨1, 0, 0⟩ false) moves s ∧
      s.node.mod.getPktRecv = 2 ∧ s.node.mod.getPktsOOSequence = 1 ∧
      s.node.mod.getPktsInvalidRx = 1 ∧ moves.countP receives = 4 ∧
      s.node.mod.getPktRecv + s.node.mod.getPktsOOSequence + s.node.mod.getPktsInvalidRx =
        moves.countP receives := by
  have ran : (exec Station.step (Station.start (fun _ => false) ⟨1, 0, 0⟩ false)
      [.recv (emptyArrival 3), .recv (emptyArrival 3), .recv (emptyArrival 2),
        .setDropOutOfOrder 0, .recv (emptyArrival 2),
        .send (.enqueue (oneBytePacket 0) (fun _ => 7) 1)]).map (fun s =>
          [s.node.mod.getPktRecv, s.node.mod.getPktsOOSequence, s.node.mod.getPktsInvalidRx]) =
      some [2, 1, 1] := by decide +kernel
  obtain ⟨s, executed, seen⟩ := Option.map_eq_some_iff.mp ran
  obtain ⟨moves, run, -⟩ := run_of_exec executed
  obtain ⟨recv, ooseq, invalid⟩ : s.node.mod.getPktRecv = 2 ∧
      s.node.mod.getPktsOOSequence = 1 ∧ s.node.mod.getPktsInvalidRx = 1 := by
    simpa using seen
  have balance := (books_balance run).1
  refine ⟨moves, s, run, recv, ooseq, invalid, ?_, balance⟩
  rw [recv, ooseq, invalid] at balance
  exact_mod_cast balance.symm

end UwAppNet
