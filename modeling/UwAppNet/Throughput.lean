import UwAppNet.TripTime

/-!
The throughput over whole runs of a node.

`statistics` adds to `sumdt` the time since the last accepted packet, and then sets
`lrtime` to the clock, on its accepting exit only. So the differences telescope, and
`sumdt` is the time of the last acceptance whatever happened in between.
-/

namespace UwAppNet

open Transition

/-- The time of the last acceptance, 0 if there was none. -/
def lastAccepted (accepted : List Arrival) : ℚ :=
  (accepted.getLast?.map Arrival.clock).getD 0

/-- The payload bytes of a list of packets. -/
def payloadBytes (accepted : List Arrival) : ℚ :=
  (accepted.map fun a => (a.packet.uwApph.payloadSize.toNat : ℚ)).sum

/-- The members behind `GetTHR` in terms of the packets accepted. -/
structure Telescoped (s : Station) : Prop where
  sumdt : s.figures.sumdt = s.figures.lrtime
  lrtime : s.figures.lrtime = lastAccepted s.accepted
  sumbytes : s.figures.sumbytes = payloadBytes s.accepted

/-- The scheduler times at which a run calls `statistics`. -/
def recvClocks (moves : List (Move Station StationAction)) : List ℚ :=
  moves.filterMap fun m =>
    match m.action with
    | .recv a => some a.clock
    | _ => none

/-- The scheduler starts at 0 and does not go back. -/
def Forward (clocks : List ℚ) : Prop := (0 :: clocks).Pairwise (· ≤ ·)

/-- The throughput is that of the packets accepted. -/
structure ThroughputExact (s : Station) : Prop where
  sumdt : s.node.mod.sumdt = s.node.mod.lrtime
  lrtime : s.node.mod.lrtime = lastAccepted s.accepted
  sumbytes : s.node.mod.sumbytes = payloadBytes s.accepted
  getTHR : s.node.mod.getTHR =
    if lastAccepted s.accepted ≠ 0 then 8 * payloadBytes s.accepted / lastAccepted s.accepted
    else 0

section Runs

variable {heap : Nat → Bool} {b : Bound} {listener : Bool} {s s' : Station}
  {moves : List (Move Station StationAction)} {act : StationAction}

theorem telescoped_start : Telescoped (Station.start heap b listener) := ⟨rfl, rfl, rfl⟩

theorem Telescoped.step (inv : Telescoped s) (h : s.step act = some s') : Telescoped s' := by
  cases Station.step_change h with
  | @accepts a _ _ accepted figures =>
      have sumdt : s'.figures.sumdt = s.figures.sumdt + (a.clock - s.figures.lrtime) :=
        congrArg Figures.sumdt figures
      have lrtime : s'.figures.lrtime = a.clock := congrArg Figures.lrtime figures
      have sumbytes : s'.figures.sumbytes =
          s.figures.sumbytes + a.packet.uwApph.payloadSize.toNat :=
        congrArg Figures.sumbytes figures
      constructor
      · rw [sumdt, lrtime, inv.sumdt]
        exact add_sub_cancel ..
      · rw [lrtime, accepted, lastAccepted, List.getLast?_concat]
        rfl
      · rw [sumbytes, inv.sumbytes, accepted, payloadBytes, payloadBytes, List.map_append,
          List.sum_append, List.map_singleton, List.sum_singleton]
  | keeps _ accepted figures =>
      constructor <;> rw [figures]
      · exact inv.sumdt
      · rw [accepted]
        exact inv.lrtime
      · rw [accepted]
        exact inv.sumbytes

theorem telescoped_run (run : Run Station.step (Station.start heap b listener) moves s) :
    Telescoped s :=
  run.invariant telescoped_start fun _ _ _ inv h => inv.step h

theorem payloadBytes_nonneg (accepted : List Arrival) : 0 ≤ payloadBytes accepted := by
  apply List.sum_nonneg
  intro x hx
  obtain ⟨a, -, rfl⟩ := List.mem_map.mp hx
  exact Nat.cast_nonneg _

/-- Every packet accepted came in at one of the times of the run. -/
theorem clock_mem_recvClocks (run : Run Station.step (Station.start heap b listener) moves s) :
    ∀ a ∈ s.accepted, a.clock ∈ recvClocks moves := by
  rw [forall_accepted_iff run]
  rintro m hm a ⟨recv, -⟩
  exact List.mem_filterMap.mpr ⟨m, hm, by rw [recv]⟩

theorem lastAccepted_nonneg (run : Run Station.step (Station.start heap b listener) moves s)
    (forward : Forward (recvClocks moves)) : 0 ≤ lastAccepted s.accepted := by
  cases last : s.accepted.getLast? with
  | none => simp [lastAccepted, last]
  | some a =>
      have received := clock_mem_recvClocks run a (List.mem_of_getLast? last)
      rw [lastAccepted, last]
      exact (List.pairwise_cons.mp forward).1 a.clock received

theorem Telescoped.throughputExact (inv : Telescoped s) : ThroughputExact s := by
  have sumdt : s.node.mod.sumdt = s.node.mod.lrtime := inv.sumdt
  have lrtime : s.node.mod.lrtime = lastAccepted s.accepted := inv.lrtime
  have sumbytes : s.node.mod.sumbytes = payloadBytes s.accepted := inv.sumbytes
  refine ⟨sumdt, lrtime, sumbytes, ?_⟩
  rw [UwAppNetModule.getTHR, sumdt, lrtime, sumbytes, mul_comm]

/-- In any run of a node the throughput is 8 times the bytes accepted over the time of the
last acceptance, whatever was rejected and whenever the rest was accepted. It is not negative
where the clock starts at 0 and does not go back. -/
theorem throughput_exact (run : Run Station.step (Station.start heap b listener) moves s) :
    ThroughputExact s ∧ (Forward (recvClocks moves) → 0 ≤ s.node.mod.getTHR) := by
  have exact := (telescoped_run run).throughputExact
  refine ⟨exact, fun forward => ?_⟩
  have bytes := payloadBytes_nonneg s.accepted
  have time := lastAccepted_nonneg run forward
  rw [exact.getTHR]
  split
  · positivity
  · exact le_rfl

end Runs

/-- One byte accepted at time 4 is a throughput of 2; the repetition at time 5 is dropped
and does not count. -/
theorem dropped_repetition_throughput :
    ∃ moves s, Run Station.step (Station.start (fun _ => false) ⟨1, 0, 0⟩ false) moves s ∧
      recvClocks moves = [4, 5] ∧ s.accepted.map Arrival.clock = [4] ∧
      s.node.mod.getTHR = 2 ∧ ThroughputExact s ∧ 0 ≤ s.node.mod.getTHR := by
  have empty : Run Station.step (Station.start (fun _ => false) ⟨1, 0, 0⟩ false) [] _ := .nil
  have run := (empty.snoc (a := .recv ⟨4, packetFrom 0⟩) rfl).snoc
    (a := .recv ⟨5, packetFrom 0⟩) rfl
  obtain ⟨exact, nonneg⟩ := throughput_exact run
  refine ⟨_, _, run, rfl, rfl, ?_, exact, nonneg ?_⟩
  · decide +kernel
  · show [(0 : ℚ), 4, 5].Pairwise (· ≤ ·)
    decide +kernel

end UwAppNet
