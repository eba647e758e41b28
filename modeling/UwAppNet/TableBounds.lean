import UwAppNet.EndToEnd

/-!
The cells of `sn_check` that `statistics` reads and writes, over whole runs of a sender
and a receiver.

The table is allocated with `USHRT_MAX` entries, one less than a 16-bit number has
values, and the mask `0x00ffffff` takes nothing away from such a number.
-/

namespace UwAppNet

open Transition

/-! ### One call of `statistics` -/

/-- An access to `sn_check`. -/
inductive Access where
  | read (index : Nat)
  | write (index : Nat)
deriving DecidableEq, Repr

def Access.index : Access → Nat
  | .read index => index
  | .write index => index

namespace UwAppNetModule

/-- The accesses of `statistics` on its way through a packet. -/
def snCheckAccesses (m : UwAppNetModule) (p : Packet) : List Access :=
  if p.ch.ptype ≠ .dataApplication then []
  else if m.useDropOutOfOrder then
    .read (snIndex p.uwApph.sn) ::
      if m.snCheck (snIndex p.uwApph.sn) then [] else [.write (snIndex p.uwApph.sn)]
  else [.write (snIndex p.uwApph.sn)]

variable {m : UwAppNetModule} {clock : ℚ} {p : Packet}

/-- The calls see nothing of the table but the cells they read. -/
theorem exit_of_reads {table : Nat → Bool}
    (same : ∀ i, .read i ∈ m.snCheckAccesses p → table i = m.snCheck i) :
    ({ m with snCheck := table }.statistics clock p).2 = (m.statistics clock p).2 := by
  let other : UwAppNetModule := { m with snCheck := table }
  by_cases data : p.ch.ptype = .dataApplication
  · by_cases mode : m.dropOutOfOrder = 1
    · have read := same p.uwApph.sn.toNat (by
        simp [snCheckAccesses, data, useDropOutOfOrder, mode])
      cases seen : m.snCheck p.uwApph.sn.toNat with
      | true =>
          rw [seen] at read
          rw [statistics_duplicate data mode seen, statistics_duplicate (m := other) data mode read]
      | false =>
          rw [seen] at read
          by_cases late : p.uwApph.sn.toUInt32 < UInt32.ofInt (m.hrsn + 1)
          · rw [statistics_late data mode seen late,
              statistics_late (m := other) data mode read late]
          · rw [statistics_accept data mode seen late,
              statistics_accept (m := other) data mode read late, accept_exit, accept_exit]
            rfl
    · simp [statistics, data, useDropOutOfOrder, mode]
  · rw [statistics_wrong_type data, statistics_wrong_type data]

/-- They set the cells they write and leave the others as they are. -/
theorem snCheck_statistics (i : Nat) : (m.statistics clock p).1.snCheck i =
    (m.snCheck i || decide (.write i ∈ m.snCheckAccesses p)) := by
  have marked : (Function.update m.snCheck p.uwApph.sn.toNat true) i =
      (m.snCheck i || decide (i = p.uwApph.sn.toNat)) := by
    by_cases cell : i = p.uwApph.sn.toNat
    · simp [cell]
    · simp [cell]
  by_cases data : p.ch.ptype = .dataApplication
  · by_cases mode : m.dropOutOfOrder = 1
    · cases seen : m.snCheck p.uwApph.sn.toNat with
      | true =>
          rw [statistics_duplicate data mode seen]
          simp [snCheckAccesses, data, useDropOutOfOrder, mode, seen, expectNext, incrPktInvalid]
      | false =>
          have accesses : (.write i ∈ m.snCheckAccesses p) ↔ i = p.uwApph.sn.toNat := by
            simp [snCheckAccesses, data, useDropOutOfOrder, mode, seen]
          rw [decide_eq_decide.mpr accesses, ← marked]
          by_cases late : p.uwApph.sn.toUInt32 < UInt32.ofInt (m.hrsn + 1)
          · rw [statistics_late data mode seen late]
            simp [mark, expectNext, incrPktOoseq]
          · rw [statistics_accept data mode seen late, accept_snCheck]
            simp [mark, expectNext]
    · have accesses : (.write i ∈ m.snCheckAccesses p) ↔ i = p.uwApph.sn.toNat := by
        simp [snCheckAccesses, data, useDropOutOfOrder, mode]
      rw [decide_eq_decide.mpr accesses, ← marked]
      simp [statistics, data, useDropOutOfOrder, mode]
  · rw [statistics_wrong_type data]
    simp [snCheckAccesses, data, incrPktInvalid]

/-- Every data packet has its own cell accessed, and no packet another one. -/
theorem forall_accesses_iff (data : p.ch.ptype = .dataApplication) (P : Nat → Prop) :
    (∀ x ∈ m.snCheckAccesses p, P x.index) ↔ P p.uwApph.sn.toNat := by
  by_cases drop : m.useDropOutOfOrder = true
  · cases seen : m.snCheck p.uwApph.sn.toNat <;>
      simp [snCheckAccesses, data, drop, seen, Access.index]
  · simp [snCheckAccesses, data, drop, Access.index]

end UwAppNetModule

/-! ### Runs of a sender and a receiver -/

/-- Where the move hands over a packet, `statistics` stays inside the table. -/
def StaysInTable (m : Move Link LinkAction) : Prop :=
  ∀ i clock p, m.action = .arrive i clock → m.before.sender.emitted[i]? = some p →
    ∀ x ∈ m.before.receiver.snCheckAccesses p, x.index < ushrtMax

/-- The move does not hand over a packet whose number is the one value of `uint16_t` the
table has no entry for. -/
def AvoidsLastNumber (m : Move Link LinkAction) : Prop :=
  ∀ i clock, m.action = .arrive i clock → i % 65536 ≠ 65533

theorem wireNumber_lt_iff (i : Nat) : wireNumber i < ushrtMax ↔ i % 65536 ≠ 65533 := by
  rw [wireNumber, ushrtMax]
  omega

section Runs

variable {senderHeap heap : Nat → Bool} {senderBound b : Bound} {l l' : Link}
  {moves : List (Move Link LinkAction)}

theorem staysInTable_iff (inv : Conserved heap b l) {a : LinkAction} (h : l.step a = some l') :
    StaysInTable ⟨l, a, l'⟩ ↔ AvoidsLastNumber ⟨l, a, l'⟩ := by
  cases a with
  | sender act =>
      apply iff_of_true
      · rintro _ _ _ ⟨⟩
      · rintro _ _ ⟨⟩
  | arrive i clock =>
      obtain ⟨p, found, -⟩ := Option.map_eq_some_iff.mp h
      obtain ⟨inside, at_i⟩ := List.getElem?_eq_some_iff.mp found
      have data : p.ch.ptype = .dataApplication :=
        inv.numbered.stream.ptype p (List.mem_of_getElem? found)
      have number : p.uwApph.sn.toNat = wireNumber i := by
        rw [← at_i]
        exact inv.numbered.stream.numbers i inside
      have cells := l.receiver.forall_accesses_iff data (· < ushrtMax)
      rw [number, wireNumber_lt_iff] at cells
      constructor
      · rintro stays _ _ ⟨⟩
        exact cells.mp (stays i clock p rfl found)
      · rintro avoids _ _ p' ⟨⟩ found'
        have same : p = p' := Option.some.inj (found.symm.trans found')
        rw [← same]
        exact cells.mpr (avoids i clock rfl)

/-- In a run of a sender and a receiver, in either drop mode, `statistics` stays inside
`sn_check` exactly when the number 65535 never arrives. -/
theorem table_bounds_iff
    (run : Run Link.step (Link.start senderHeap heap senderBound b) moves l) :
    (∀ m ∈ moves, StaysInTable m) ↔ ∀ m ∈ moves, AvoidsLastNumber m := by
  apply forall₂_congr
  intro m hm
  obtain ⟨inv, stepped⟩ :=
    run.invariant_before conserved_start (fun _ _ _ inv h => Conserved.step inv h) hm
  exact staysInTable_iff inv stepped

variable (heap b) in
/-- What the sender does alone is a run of both. -/
theorem run_of_sender {steps : List (Move Node NodeAction)} {n : Node}
    (run : Run Node.step (Node.start senderHeap senderBound) steps n) :
    ∃ moves l, Run Link.step (Link.start senderHeap heap senderBound b) moves l ∧
      l.sender = n ∧ l.receiver = UwAppNetModule.fresh heap b true := by
  induction run with
  | nil => exact ⟨[], _, .nil, rfl, rfl⟩
  | @snoc _ _ n' act _ last ih =>
      obtain ⟨moves, l, sofar, rfl, receiver⟩ := ih
      have next : l.step (.sender act) =
          some { l with sender := n', messages := l.messages ++ act.message } := by
        simp [Link.step, last]
      exact ⟨_, _, sofar.snoc next, rfl, receiver⟩

end Runs

/-- One packet and its repetition. -/
theorem repeated_arrival_in_table :
    ∃ moves l, Run Link.step
        (Link.start (fun _ => false) (fun _ => false) ⟨1, 0, 0⟩ ⟨1, 0, 0⟩) moves l ∧
      l.arrived.map Arrival.sn = [2, 2] ∧ ∀ m ∈ moves, StaysInTable m := by
  have ran : repeatedArrival = some (repeatedArrival.get rfl) := rfl
  obtain ⟨moves, run, actions⟩ := run_of_exec ran
  refine ⟨moves, _, run, rfl, (table_bounds_iff run).mpr ?_⟩
  intro m hm i clock arrives
  have member : m.action ∈ moves.map Move.action := List.mem_map_of_mem hm
  rw [actions, arrives] at member
  have first : i = 0 ∧ clock = 0 := by simpa using member
  rw [first.1]
  decide

/-- The 65534th packet has number 65535: its arrival writes behind the table. -/
theorem packet_65535_outside_table :
    ∃ moves l, Run Link.step
        (Link.start (fun _ => false) (fun _ => false) ⟨0, 0, 0⟩ ⟨0, 0, 0⟩) moves l ∧
      ∃ m ∈ moves, ¬ StaysInTable m ∧ ∃ p, m.action = .arrive 65533 0 ∧
        m.before.sender.emitted[65533]? = some p ∧
        m.before.receiver.snCheckAccesses p = [.write 65535] := by
  have length := length_emitted_steadyNode (fun _ => false) ⟨0, 0, 0⟩ 65534
  obtain ⟨steps, sent⟩ := run_steadyNode (fun _ => false) ⟨0, 0, 0⟩ 65534
  -- only the number of packets it sent matters of this node
  generalize steadyNode (fun _ => false) ⟨0, 0, 0⟩ 65534 = n at length sent
  obtain ⟨moves, l, run, rfl, receiver⟩ := run_of_sender (fun _ => false) ⟨0, 0, 0⟩ sent
  have inside : 65533 < l.sender.emitted.length := by omega
  have found := List.getElem?_eq_getElem inside
  have arrives : l.step (.arrive 65533 0) = some (l.arrive 0 l.sender.emitted[65533]) := by
    rw [Link.step, found]
    rfl
  have stream := (numbered_run sent).stream
  have number : l.sender.emitted[65533].uwApph.sn.toNat = 65535 := stream.numbers 65533 inside
  have data := stream.ptype _ (List.getElem_mem inside)
  have accesses : l.receiver.snCheckAccesses l.sender.emitted[65533] = [.write 65535] := by
    rw [UwAppNetModule.snCheckAccesses, if_neg (not_not.mpr data), snIndex_eq, number, receiver]
    rfl
  refine ⟨_, _, run.snoc arrives, _, List.mem_append_right _ (List.mem_singleton_self _), ?_, _,
    rfl, found, accesses⟩
  intro stays
  have below := stays 65533 0 _ rfl found (.write 65535) (by rw [accesses]; simp)
  exact absurd below (by decide)

end UwAppNet
