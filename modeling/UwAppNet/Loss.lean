import UwAppNet.Streams

/-!
The loss counter, from the sender's numbers to the receiver's arithmetic.

A fresh sender's first packet carries the number 2, a fresh receiver expects 1. The
gap of one is booked as a loss with the first packet that arrives and never made
good, so the counter is one too high from then on, whatever the channel loses.
-/

namespace UwAppNet

open RunningMax Transition

/-! ### A channel that loses packets -/

/-- What arrives of a stream: packet `i` is lost (`none`) or arrives at a scheduler
time; order is kept. -/
def deliver : List (Option ℚ) → List Packet → List Arrival
  | some clock :: fate, p :: packets => ⟨clock, p⟩ :: deliver fate packets
  | none :: fate, _ :: packets => deliver fate packets
  | _, _ => []

/-- One more packet of the stream arrives, or not. -/
theorem deliver_concat {fate : List (Option ℚ)} {packets : List Packet}
    (more : fate.length < packets.length) (f : Option ℚ) :
    deliver (fate ++ [f]) packets =
      deliver fate packets ++ (f.map fun clock => ⟨clock, packets[fate.length]⟩).toList := by
  induction fate generalizing packets with
  | nil =>
      cases packets with
      | nil => simp at more
      | cons p packets => cases f <;> cases packets <;> rfl
  | cons g fate ih =>
      cases packets with
      | nil => simp at more
      | cons p packets =>
          have tail := ih (Nat.lt_of_succ_lt_succ more)
          cases g <;> simp [deliver, tail]

/-- Packets arrive or are lost. -/
theorem length_deliver (fate : List (Option ℚ)) (packets : List Packet)
    (within : fate.length ≤ packets.length) :
    (deliver fate packets).length + fate.count none = fate.length := by
  induction fate generalizing packets with
  | nil => cases packets <;> rfl
  | cons f fate ih =>
      cases packets with
      | nil => simp at within
      | cons p packets =>
          have tail := ih packets (Nat.le_of_succ_le_succ within)
          cases f <;> simp [deliver] <;> omega

/-- What arrives is a part of the stream, in its order. -/
theorem deliver_sublist (fate : List (Option ℚ)) (packets : List Packet) :
    ((deliver fate packets).map Arrival.packet).Sublist packets := by
  induction fate generalizing packets with
  | nil => cases packets <;> exact List.nil_sublist _
  | cons f fate ih =>
      cases packets with
      | nil => cases f <;> exact List.nil_sublist _
      | cons p packets =>
          cases f with
          | none => exact (ih packets).cons p
          | some clock => exact (ih packets).cons_cons p

/-- Of a stream nothing arrives when everything is lost. -/
theorem deliver_eq_nil {fate : List (Option ℚ)} (lost : ∀ f ∈ fate, f = none)
    (packets : List Packet) : deliver fate packets = [] := by
  induction fate generalizing packets with
  | nil => cases packets <;> rfl
  | cons f fate ih =>
      obtain ⟨rfl, rest⟩ := List.forall_mem_cons.mp lost
      cases packets with
      | nil => rfl
      | cons p packets => exact ih rest packets

/-! ### What the receiver makes of it -/

section Channel

variable {heap : Nat → Bool} {b : Bound} {listener : Bool} {packets : List Packet}
  {fate : List (Option ℚ)} {clock : ℚ}

variable (fate) in
theorem isData_deliver (s : Stream packets) :
    ∀ a ∈ deliver fate packets, a.isData = true := by
  intro a ha
  have emitted := (deliver_sublist fate packets).subset (List.mem_map_of_mem ha)
  exact beq_iff_eq.mpr (s.ptype _ emitted)

variable (fate) in
theorem increasing_deliver (s : Stream packets) (unwrapped : packets.length < ushrtMax) :
    (deliver fate packets).Pairwise (·.sn < ·.sn) := by
  have increasing := (s.increasing unwrapped).sublist (deliver_sublist fate packets)
  exact (List.pairwise_map (f := Arrival.packet)).mp increasing

variable (fate) in
theorem positive_deliver (s : Stream packets) (unwrapped : packets.length < ushrtMax) :
    ∀ a ∈ deliver fate packets, 0 < a.sn := by
  intro a ha
  have emitted := (deliver_sublist fate packets).subset (List.mem_map_of_mem ha)
  obtain ⟨i, hi, same⟩ := List.getElem_of_mem emitted
  have number := s.number unwrapped i hi
  rw [same] at number
  rw [Arrival.sn, number]
  exact Nat.succ_pos _

/-- The highest number that arrived is the last one. -/
theorem peak_deliver (clock : ℚ) (s : Stream packets) (unwrapped : packets.length < ushrtMax)
    (more : fate.length < packets.length) :
    peak Arrival.sn 0 (deliver (fate ++ [some clock]) packets) = fate.length + 2 := by
  have increasing := increasing_deliver (fate ++ [some clock]) s unwrapped
  have number := s.number unwrapped fate.length more
  rw [deliver_concat more] at increasing ⊢
  have above : peak Arrival.sn 0 (deliver fate packets) < fate.length + 2 := by
    refine peak_lt_iff.mpr ⟨Nat.succ_pos _, fun a ha => ?_⟩
    rw [← number]
    exact (List.pairwise_append.mp increasing).2.2 a ha _ List.mem_cons_self
  rw [Option.map_some, Option.toList_some, peak_concat, Arrival.sn, number]
  exact max_eq_right above.le

/-- Once the packet emitted after `k` others was handled, receptions are the packets
that arrived, and receptions and losses together are `k + 2`. -/
theorem recv_add_lost (drop : b.dropOutOfOrder = 1) (listener : Bool) (s : Stream packets)
    (unwrapped : packets.length < ushrtMax) (more : fate.length < packets.length)
    (clear : Clear heap (deliver (fate ++ [some clock]) packets)) :
    let m := (UwAppNetModule.fresh heap b listener).recvAll
      (deliver (fate ++ [some clock]) packets)
    m.pktsRecv = (deliver (fate ++ [some clock]) packets).length ∧
      m.pktsRecv + m.pktsLost = fate.length + 2 := by
  have counts := counters_recvAll drop listener clear
  have data := isData_deliver (fate ++ [some clock]) s
  have isData : dataArrivals (deliver (fate ++ [some clock]) packets) =
      deliver (fate ++ [some clock]) packets := List.filter_eq_self.mpr data
  have top := peak_deliver clock s unwrapped more
  intro m
  obtain ⟨highest, recv, lost, -⟩ := counts
  rw [isData, top] at highest
  rw [isData, records_eq_self (positive_deliver _ s unwrapped)
    (increasing_deliver _ s unwrapped)] at recv
  refine ⟨recv, ?_⟩
  have total : m.pktsLost = m.hrsn - m.pktsRecv := lost
  have last : m.hrsn = (fate.length + 2 : Nat) := highest
  omega

/-- The losses booked are the packets lost and one more. -/
theorem pktsLost_eq (drop : b.dropOutOfOrder = 1) (listener : Bool) (s : Stream packets)
    (unwrapped : packets.length < ushrtMax) (more : fate.length < packets.length)
    (clear : Clear heap (deliver (fate ++ [some clock]) packets)) :
    ((UwAppNetModule.fresh heap b listener).recvAll
      (deliver (fate ++ [some clock]) packets)).pktsLost =
      (fate ++ [some clock]).count none + 1 := by
  obtain ⟨recv, total⟩ := recv_add_lost drop listener s unwrapped more clear
  have length : (fate ++ [some clock]).length = fate.length + 1 := by simp
  have split := length_deliver (fate ++ [some clock]) packets (by omega)
  omega

end Channel

/-! ### Loss accounting -/

/-- Once a delivered packet was handled, the losses are the packets of the stream up
to it that were not delivered, and receptions and losses together are what the
sender had counted as sent when it emitted it; without losses, the counter and the
packet error rate stay 0. -/
structure LossAccounting (m : UwAppNetModule) (n : Node) (fate : List (Option ℚ)) : Prop where
  delivered : ∀ k clock e, fate[k]? = some (some clock) → n.sentDown[k]? = some e →
    let r := m.recvAll (deliver (fate.take (k + 1)) n.emitted)
    r.pktsLost = (fate.take (k + 1)).count none ∧ r.pktsRecv + r.pktsLost = e.pktSent
  lossless : none ∉ fate →
    (m.recvAll (deliver fate n.emitted)).pktsLost = 0 ∧
      (m.recvAll (deliver fate n.emitted)).getPER = 0

section Accounting

variable {senderHeap heap : Nat → Bool} {senderBound b : Bound} {listener : Bool}
  {moves : List (Move Node NodeAction)} {n : Node} {fate : List (Option ℚ)}

/-- With nothing delivered there is nothing to account for. -/
theorem lossAccounting_of_silence (drop : b.dropOutOfOrder = 1)
    (silent : ∀ f ∈ fate, f = none) :
    LossAccounting (UwAppNetModule.fresh heap b listener) n fate := by
  constructor
  · intro k clock e hk _
    have delivered := silent _ (List.mem_of_getElem? hk)
    cases delivered
  · intro _
    rw [deliver_eq_nil silent]
    refine ⟨rfl, ?_⟩
    simp [UwAppNetModule.fresh, UwAppNetModule.init, UwAppNetModule.getPER, drop]

/-- The first packet delivered is never accounted for: either it is booked with one
loss too many, or the cell behind the table makes it a duplicate and it is not
booked at all. -/
theorem first_delivery_misbooked (drop : b.dropOutOfOrder = 1) {packets : List Packet}
    (s : Stream packets) (unwrapped : packets.length < ushrtMax)
    {lost : List (Option ℚ)} (silent : ∀ f ∈ lost, f = none)
    (more : lost.length < packets.length) (clock : ℚ) :
    let m := (UwAppNetModule.fresh heap b listener).recvAll
      (deliver (lost ++ [some clock]) packets)
    m.pktsRecv + m.pktsLost ≠ lost.length + 1 := by
  intro m booked
  by_cases clear : Clear heap (deliver (lost ++ [some clock]) packets)
  · have total := (recv_add_lost drop listener s unwrapped more clear).2
    have total' : m.pktsRecv + m.pktsLost = lost.length + 2 := total
    omega
  · have arrived : deliver (lost ++ [some clock]) packets = [⟨clock, packets[lost.length]⟩] := by
      rw [deliver_concat more, deliver_eq_nil silent]
      rfl
    rw [arrived] at clear
    have ptype := s.ptype packets[lost.length] (List.getElem_mem more)
    have seen : (UwAppNetModule.fresh heap b listener).snCheck
        packets[lost.length].uwApph.sn.toNat = true := by
      simp only [Clear, List.mem_singleton, forall_eq, not_forall, not_or, not_lt,
        Bool.not_eq_false, Arrival.sn] at clear
      obtain ⟨-, outside, set⟩ := clear
      simp [UwAppNetModule.fresh, UwAppNetModule.init, not_lt.mpr outside, set]
    have zero : m.pktsRecv + m.pktsLost = 0 := by
      show (UwAppNetModule.recvAll _ (deliver (lost ++ [some clock]) packets)).pktsRecv +
        (UwAppNetModule.recvAll _ (deliver (lost ++ [some clock]) packets)).pktsLost = 0
      rw [arrived, ← List.nil_append [_], UwAppNetModule.recvAll_concat,
        UwAppNetModule.recvAll_nil, UwAppNetModule.statistics_duplicate ptype drop seen]
      rfl
    omega

/-- A list that is not all losses splits at its first delivery. -/
theorem exists_first_delivery (some_delivered : ¬ ∀ f ∈ fate, f = none) :
    ∃ lost clock later, fate = lost ++ some clock :: later ∧ ∀ f ∈ lost, f = none := by
  induction fate with
  | nil => simp at some_delivered
  | cons f fate ih =>
      cases f with
      | some clock => exact ⟨[], clock, fate, rfl, by simp⟩
      | none =>
          have later : ¬ ∀ f ∈ fate, f = none := fun all =>
            some_delivered (List.forall_mem_cons.mpr ⟨rfl, all⟩)
          obtain ⟨lost, clock, rest, rfl, silent⟩ := ih later
          exact ⟨none :: lost, clock, rest, rfl, List.forall_mem_cons.mpr ⟨rfl, silent⟩⟩

/-- The loss counter agrees with the channel only while nothing was delivered. -/
theorem loss_accounting_iff (drop : b.dropOutOfOrder = 1)
    (run : Run Node.step (Node.start senderHeap senderBound) moves n)
    (unwrapped : n.emitted.length < ushrtMax) (complete : fate.length = n.emitted.length) :
    LossAccounting (UwAppNetModule.fresh heap b listener) n fate ↔ ∀ f ∈ fate, f = none := by
  refine ⟨fun accounting => ?_, lossAccounting_of_silence drop⟩
  have numbered := numbered_run run
  by_contra some_delivered
  obtain ⟨lost, clock, later, rfl, silent⟩ := exists_first_delivery some_delivered
  have more : lost.length < n.emitted.length := by
    rw [← complete]
    simp
  have sent : lost.length < n.sentDown.length := by
    simpa [Node.emitted] using more
  have booked := (accounting.delivered lost.length clock n.sentDown[lost.length] (by simp)
    (List.getElem?_eq_getElem sent)).2
  rw [numbered.pktSent lost.length sent, List.append_cons,
    List.take_left' (by simp)] at booked
  exact first_delivery_misbooked drop numbered.stream unwrapped silent more clock booked

end Accounting

/-- A sender of one message whose only packet is lost. -/
theorem lost_packet_accounted :
    LossAccounting (UwAppNetModule.fresh (fun _ => false) ⟨1, 0, 0⟩ true)
      (steadyNode (fun _ => false) ⟨1, 0, 0⟩ 1) [none] := by
  obtain ⟨moves, run⟩ := run_steadyNode (fun _ => false) ⟨1, 0, 0⟩ 1
  exact (loss_accounting_iff rfl run (by decide) rfl).mpr (by simp)

/-- A sender of one message whose only packet arrives: one loss and an error rate of
one half are booked, though nothing was lost. -/
theorem lossless_run_books_a_loss :
    (∃ moves, Run Node.step (Node.start (fun _ => false) ⟨1, 0, 0⟩) moves
      (steadyNode (fun _ => false) ⟨1, 0, 0⟩ 1)) ∧
    (let r := (UwAppNetModule.fresh (fun _ => false) ⟨1, 0, 0⟩ true).recvAll
      (deliver [some 0] (steadyNode (fun _ => false) ⟨1, 0, 0⟩ 1).emitted)
     r.pktsLost = 1 ∧ r.getPER = 1 / 2) ∧
    ¬ LossAccounting (UwAppNetModule.fresh (fun _ => false) ⟨1, 0, 0⟩ true)
      (steadyNode (fun _ => false) ⟨1, 0, 0⟩ 1) [some 0] := by
  have lost : ((UwAppNetModule.fresh (fun _ => false) ⟨1, 0, 0⟩ true).recvAll
      (deliver [some 0] (steadyNode (fun _ => false) ⟨1, 0, 0⟩ 1).emitted)).pktsLost = 1 := rfl
  have recv : ((UwAppNetModule.fresh (fun _ => false) ⟨1, 0, 0⟩ true).recvAll
      (deliver [some 0] (steadyNode (fun _ => false) ⟨1, 0, 0⟩ 1).emitted)).pktsRecv = 1 := rfl
  have mode : ((UwAppNetModule.fresh (fun _ => false) ⟨1, 0, 0⟩ true).recvAll
      (deliver [some 0] (steadyNode (fun _ => false) ⟨1, 0, 0⟩ 1).emitted)).dropOutOfOrder = 1 :=
    rfl
  refine ⟨run_steadyNode _ _ 1, ⟨lost, ?_⟩, fun accounting => ?_⟩
  · rw [UwAppNetModule.getPER, lost, recv, mode]
    norm_num
  · have none_lost := (accounting.lossless (by simp)).1
    rw [lost] at none_lost
    cases none_lost

end UwAppNet
