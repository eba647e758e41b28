import UwAppNet.Station
import UwAppNet.Lib.Truncation

/-!
Forward and round trip times over whole runs of a node.

`statistics` stores the forward trip time of an accepted packet in the `int` member
`rftt`, adds it to the sums behind `GetFTT`, and `init_Packet_TCP` sends it to the
peer, scaled by 10000. The scaled value that comes in from the peer is never used.
-/

namespace UwAppNet

open Transition Truncation

/-- The arithmetic mean, 0 of no values. -/
def mean (xs : List ℚ) : ℚ := xs.sum / xs.length

/-- What `GetRTT` and `GetFTT` compute from their sums. -/
theorem mean_of_sums {xs : List ℚ} {samples : Int} {sum : ℚ} (count : samples = xs.length)
    (total : sum = xs.sum) : (if samples > 0 then sum / samples else 0) = mean xs := by
  rw [count, total, mean]
  split
  · simp
  · rename_i nothing
    have empty : xs.length = 0 := by omega
    simp [List.length_eq_zero_iff.mp empty]

/-- A value of type `int`; outside this range a conversion from `double` is not
defined. -/
def IntRange (z : Int) : Prop := -2 ^ 31 ≤ z ∧ z < 2 ^ 31

instance (z : Int) : Decidable (IntRange z) :=
  inferInstanceAs (Decidable (_ ∧ _))

/-- The forward trip time the sender put into the header, in seconds. -/
def Packet.senderFtt (p : Packet) : ℚ := p.uwApph.rftt / 10000

/-- What `init_Packet_TCP` writes is the sender's own forward trip time, and the flag
whether it is nonnegative. -/
theorem fillHeaders_rftt (m : UwAppNetModule) (clock : ℚ) (ptmp : Packet) :
    (m.fillHeaders clock ptmp).1.uwApph.rfttValid = decide (0 ≤ m.rftt) ∧
      (0 ≤ m.rftt → (m.fillHeaders clock ptmp).1.uwApph.rftt = m.rftt * 10000) := by
  by_cases known : 0 ≤ m.rftt <;>
    simp [UwAppNetModule.fillHeaders, UwAppNetModule.incrUidCnt, UwAppNetModule.incrPktSent,
      UwAppNetModule.getRftt, known]

theorem fillHeaders_senderFtt {m : UwAppNetModule} (known : 0 ≤ m.rftt) (clock : ℚ)
    (ptmp : Packet) : (m.fillHeaders clock ptmp).1.senderFtt = m.rftt := by
  rw [Packet.senderFtt, (fillHeaders_rftt m clock ptmp).2 known]
  push_cast
  exact mul_div_cancel_right₀ _ (by decide)

/-! ### The sums after a run -/

/-- The figures in terms of the packets accepted. -/
structure Sampled (s : Station) : Prop where
  rttsamples : s.figures.rttsamples = 0
  sumrtt : s.figures.sumrtt = 0
  fttsamples : s.figures.fttsamples = s.accepted.length
  sumftt : s.figures.sumftt = (s.accepted.map fun a => (trunc a.tripTime : ℚ)).sum
  sumftt2 : s.figures.sumftt2 = (s.accepted.map fun a => (trunc a.tripTime : ℚ) ^ 2).sum
  rftt : s.figures.rftt = (s.accepted.getLast?.map fun a => trunc a.tripTime).getD 0

section Runs

variable {heap : Nat → Bool} {b : Bound} {listener : Bool} {s s' : Station}
  {moves : List (Move Station StationAction)} {act : StationAction}

theorem sampled_start : Sampled (Station.start heap b listener) :=
  ⟨rfl, rfl, rfl, rfl, rfl, rfl⟩

theorem Sampled.step (inv : Sampled s) (h : s.step act = some s') : Sampled s' := by
  cases Station.step_change h with
  | @accepts a _ admitted accepted figures =>
      constructor
      · rw [figures]
        exact inv.rttsamples
      · rw [figures]
        exact inv.sumrtt
      · rw [figures, accepted, List.length_append, Nat.cast_add, ← inv.fttsamples]
        rfl
      · rw [figures, accepted, List.map_append, List.sum_append, ← inv.sumftt, List.map_singleton,
          List.sum_singleton]
        rfl
      · rw [figures, accepted, List.map_append, List.sum_append, ← inv.sumftt2,
          List.map_singleton, List.sum_singleton, pow_two]
        rfl
      · rw [figures, accepted, List.getLast?_concat]
        rfl
  | keeps other accepted figures =>
      constructor <;> rw [figures]
      · exact inv.rttsamples
      · exact inv.sumrtt
      · rw [accepted]
        exact inv.fttsamples
      · rw [accepted]
        exact inv.sumftt
      · rw [accepted]
        exact inv.sumftt2
      · rw [accepted]
        exact inv.rftt

theorem sampled_run (run : Run Station.step (Station.start heap b listener) moves s) :
    Sampled s :=
  run.invariant sampled_start fun _ _ _ inv h => inv.step h

/-- The packets accepted are those of the moves that passed the checks. -/
theorem forall_accepted_iff (run : Run Station.step (Station.start heap b listener) moves s)
    (P : Arrival → Prop) :
    (∀ a ∈ s.accepted, P a) ↔ ∀ m ∈ moves, ∀ a, Station.Admits m a → P a := by
  induction run with
  | nil => simp [Station.start]
  | @snoc moves t u act _ last ih =>
      rw [List.forall_mem_append, List.forall_mem_singleton, ← ih]
      cases Station.step_change last with
      | @accepts a _ admitted accepted =>
          rw [accepted, List.forall_mem_append, List.forall_mem_singleton]
          refine and_congr Iff.rfl ⟨?_, fun all => all a ⟨rfl, admitted⟩⟩
          rintro good e ⟨⟨⟩, -⟩
          exact good
      | keeps other accepted =>
          rw [accepted]
          refine (and_iff_left ?_).symm
          rintro e ⟨recv, admitted⟩
          have rejected := other e recv
          have admitted : t.node.mod.admits e.packet = true := admitted
          rw [rejected] at admitted
          cases admitted

end Runs

/-! ### A node that hears one packet -/

/-- The first packet of a node whose own forward trip time is `rftt`, sent at time 0. -/
def packetFrom (rftt : Int) : Packet :=
  ({ UwAppNetModule.fresh (fun _ => false) ⟨0, 0, 0⟩ false with rftt := rftt }.fillHeaders 0
    (oneBytePacket 7)).1

/-- A fresh node that was handed one packet. -/
def hears (a : Arrival) : Station :=
  (Station.start (fun _ => false) ⟨0, 0, 0⟩ false).recv a

theorem run_hears (a : Arrival) : Run Station.step (Station.start (fun _ => false) ⟨0, 0, 0⟩ false)
    [⟨Station.start (fun _ => false) ⟨0, 0, 0⟩ false, .recv a, hears a⟩] (hears a) :=
  Run.nil.snoc rfl

/-! ### Round trip times -/

/-- The samples a list of accepted packets should give: the receiver's forward trip
time plus the sender's, where the sender sent one. -/
def rttSamples (accepted : List Arrival) : List ℚ :=
  (accepted.filter fun a => a.packet.uwApph.rfttValid).map fun a =>
    a.tripTime + a.packet.senderFtt

/-- The round trip times are those of the packets accepted. -/
structure RttExact (s : Station) : Prop where
  samples : s.node.mod.rttsamples = (rttSamples s.accepted).length
  sum : s.node.mod.sumrtt = (rttSamples s.accepted).sum
  mean : s.node.mod.getRTT = mean (rttSamples s.accepted)

/-- The round trip times of a run are right exactly when no packet it accepts carries a
sender's forward trip time. -/
theorem rtt_exact_iff {heap : Nat → Bool} {b : Bound} {listener : Bool} {s : Station}
    {moves : List (Move Station StationAction)}
    (run : Run Station.step (Station.start heap b listener) moves s) :
    RttExact s ↔
      ∀ m ∈ moves, ∀ a, Station.Admits m a → a.packet.uwApph.rfttValid = false := by
  have inv := sampled_run run
  have none : s.node.mod.rttsamples = 0 := inv.rttsamples
  have sum : s.node.mod.sumrtt = 0 := inv.sumrtt
  have empty : rttSamples s.accepted = [] ↔
      ∀ a ∈ s.accepted, a.packet.uwApph.rfttValid = false := by
    simp [rttSamples, List.filter_eq_nil_iff]
  rw [← forall_accepted_iff run fun a => a.packet.uwApph.rfttValid = false, ← empty]
  constructor
  · intro exact
    have length := exact.samples
    rw [none] at length
    exact List.length_eq_zero_iff.mp (by omega)
  · intro nothing
    have samples : s.node.mod.rttsamples = (rttSamples s.accepted).length := by
      rw [none, nothing]
      rfl
    have total : s.node.mod.sumrtt = (rttSamples s.accepted).sum := by
      rw [sum, nothing]
      rfl
    exact ⟨samples, total, mean_of_sums samples total⟩

/-- A packet from a node that has no forward trip time adds no sample, as it should. -/
theorem unflagged_packet_exact :
    (hears ⟨3, packetFrom (-1)⟩).accepted.length = 1 ∧ RttExact (hears ⟨3, packetFrom (-1)⟩) := by
  constructor
  · rfl
  · apply (rtt_exact_iff (run_hears _)).mpr
    rw [List.forall_mem_singleton]
    rintro a ⟨⟨⟩, -⟩
    rfl

/-- A packet with a forward trip time of 2 seconds adds no sample either. -/
theorem flagged_packet_without_sample :
    let s := hears ⟨3, packetFrom 2⟩
    (∃ moves, Run Station.step (Station.start (fun _ => false) ⟨0, 0, 0⟩ false) moves s) ∧
      (s.accepted.map fun a => (a.packet.uwApph.rfttValid, a.packet.uwApph.rftt)) =
        [(true, 20000)] ∧
      s.node.mod.rttsamples = 0 ∧ ¬ RttExact s := by
  refine ⟨⟨_, run_hears _⟩, rfl, rfl, fun exact => ?_⟩
  have one : (0 : Int) = 1 := exact.samples
  cases one

/-! ### Forward trip times -/

/-- The forward trip times are those of the packets accepted, and each of them could be
stored in the member `rftt`. -/
structure FttExact (s : Station) : Prop where
  converted : ∀ a ∈ s.accepted, IntRange (truncToInt a.tripTime)
  samples : s.node.mod.fttsamples = s.accepted.length
  mean : s.node.mod.getFTT = mean (s.accepted.map Arrival.tripTime)
  squares : s.node.mod.sumftt2 = (s.accepted.map fun a => a.tripTime ^ 2).sum

/-- The packet was under way for a whole number of seconds that an `int` can hold. -/
def Arrival.WholeTrip (a : Arrival) : Prop := ∃ z : Int, IntRange z ∧ a.tripTime = z

/-- What is cut off shows in the sum of the squares, whatever the other delays are. -/
theorem Sampled.whole_of_fttExact {s : Station} (inv : Sampled s) (exact : FttExact s) :
    ∀ a ∈ s.accepted, a.WholeTrip := by
  intro a ha
  have squares : s.node.mod.sumftt2 = (s.accepted.map fun a => (trunc a.tripTime : ℚ) ^ 2).sum :=
    inv.sumftt2
  have cut := sum_sq_trunc_eq_iff (s.accepted.map Arrival.tripTime)
  rw [List.map_map, List.map_map] at cut
  have whole := cut.mp (squares.symm.trans exact.squares) a.tripTime (List.mem_map_of_mem ha)
  exact ⟨trunc a.tripTime, exact.converted a ha, whole.symm⟩

theorem Arrival.WholeTrip.trunc_eq {a : Arrival} (whole : a.WholeTrip) :
    (trunc a.tripTime : ℚ) = a.tripTime ∧ IntRange (truncToInt a.tripTime) := by
  obtain ⟨z, range, same⟩ := whole
  have kept : truncToInt a.tripTime = z := by
    rw [same]
    exact trunc_intCast z
  rw [kept, same, trunc_intCast]
  exact ⟨rfl, range⟩

theorem Sampled.fttExact_of_whole {s : Station} (inv : Sampled s)
    (whole : ∀ a ∈ s.accepted, a.WholeTrip) : FttExact s := by
  have samples : s.node.mod.fttsamples = s.accepted.length := inv.fttsamples
  have sum : s.node.mod.sumftt = (s.accepted.map fun a => (trunc a.tripTime : ℚ)).sum :=
    inv.sumftt
  have squares : s.node.mod.sumftt2 = (s.accepted.map fun a => (trunc a.tripTime : ℚ) ^ 2).sum :=
    inv.sumftt2
  have cut : ∀ a ∈ s.accepted, (trunc a.tripTime : ℚ) = a.tripTime := fun a ha =>
    (whole a ha).trunc_eq.1
  constructor
  · intro a ha
    exact (whole a ha).trunc_eq.2
  · exact samples
  · rw [List.map_congr_left cut] at sum
    exact mean_of_sums (by rw [samples, List.length_map]) sum
  · rw [squares]
    apply congrArg List.sum
    apply List.map_congr_left
    intro a ha
    rw [cut a ha]

/-- The forward trip times of a run are exact exactly when every packet it accepts was
under way for a whole number of seconds. -/
theorem ftt_exact_iff {heap : Nat → Bool} {b : Bound} {listener : Bool} {s : Station}
    {moves : List (Move Station StationAction)}
    (run : Run Station.step (Station.start heap b listener) moves s) :
    FttExact s ↔ ∀ m ∈ moves, ∀ a, Station.Admits m a → a.WholeTrip := by
  have inv := sampled_run run
  rw [← forall_accepted_iff run Arrival.WholeTrip]
  exact ⟨inv.whole_of_fttExact, inv.fttExact_of_whole⟩

/-- A packet under way for 3 seconds. -/
theorem whole_seconds_exact :
    (hears ⟨3, packetFrom 2⟩).accepted.length = 1 ∧ FttExact (hears ⟨3, packetFrom 2⟩) := by
  constructor
  · rfl
  · apply (ftt_exact_iff (run_hears _)).mpr
    rw [List.forall_mem_singleton]
    rintro a ⟨⟨⟩, -⟩
    exact ⟨3, by decide, by decide +kernel⟩

/-- A packet under way for half a second counts as one without delay. -/
theorem half_second_cut_off :
    let s := hears ⟨1 / 2, packetFrom 2⟩
    (∃ moves, Run Station.step (Station.start (fun _ => false) ⟨0, 0, 0⟩ false) moves s) ∧
      s.accepted.map Arrival.tripTime = [1 / 2] ∧ s.node.mod.getFTT = 0 ∧ ¬ FttExact s := by
  intro s
  have trips : s.accepted.map Arrival.tripTime = [1 / 2] := by decide +kernel
  have zero : s.node.mod.getFTT = 0 := by decide +kernel
  refine ⟨⟨_, run_hears _⟩, trips, zero, fun exact => ?_⟩
  have same := zero.symm.trans exact.mean
  rw [trips] at same
  norm_num [mean] at same

/-! ### What a node tells its peer -/

/-- The move hands `p` to `sendDown`. -/
def Station.Emits (m : Move Station StationAction) (p : Packet) : Prop :=
  m.after.node.emitted = m.before.node.emitted ++ [p]

/-- A packet goes out with `rftt_valid_` only if the node has accepted one before, and
`rftt_` is then the forward trip time of the last one accepted, in units of 1/10000
seconds. The times of accepted packets could be stored in the member `rftt`. -/
structure FlagHonest (m : Move Station StationAction) : Prop where
  converted : ∀ a, Station.Admits m a → IntRange (truncToInt a.tripTime)
  flag : ∀ p, Station.Emits m p → p.uwApph.rfttValid = true →
    ∃ a, m.before.accepted.getLast? = some a ∧
      p.uwApph.rftt = truncToInt (a.tripTime * 10000) ∧ IntRange p.uwApph.rftt

/-- A packet goes out when the last one accepted was under way for a time that is a
whole number of seconds up to less than 1/10000 and fits `int` in these units, or for a
negative time of at least a second. -/
structure FlagKept (m : Move Station StationAction) : Prop where
  converted : ∀ a, Station.Admits m a → IntRange (truncToInt a.tripTime)
  emits : ∀ clock, m.action = .send (.pop clock) →
    ∃ a, m.before.accepted.getLast? = some a ∧
      (truncToInt a.tripTime < 0 ∨
        |a.tripTime - truncToInt a.tripTime| * 10000 < 1 ∧
          IntRange (truncToInt a.tripTime * 10000))

section Flag

variable {heap : Nat → Bool} {b : Bound} {listener : Bool} {s s' : Station}
  {moves : List (Move Station StationAction)}

/-- Only `init_Packet_TCP` hands packets down, one at a time. -/
theorem emits_iff {act : StationAction} (h : s.step act = some s') {p : Packet} :
    Station.Emits ⟨s, act, s'⟩ p ↔ ∃ clock ptmp rest, act = .send (.pop clock) ∧
      s.node.queuePckRead = ptmp :: rest ∧ p = (s.node.mod.fillHeaders clock ptmp).1 := by
  have silent : s'.node.emitted = s.node.emitted → ¬ Station.Emits ⟨s, act, s'⟩ p := by
    intro same emits
    have length := congrArg List.length (same.symm.trans emits)
    simp at length
  cases act with
  | setDropOutOfOrder value =>
      cases h
      exact iff_of_false (silent rfl) (by simp)
  | recv a =>
      cases h
      exact iff_of_false (silent rfl) (by simp)
  | send act =>
      obtain ⟨n', sent, rfl⟩ := Option.map_eq_some_iff.mp h
      rcases Node.step_cases sent with
        ⟨alloc, bufferMsg, recvMsgSize, rfl, -, -, rfl⟩ | ⟨rfl, -, rfl⟩ |
          ⟨clock, ptmp, rest, rfl, -, queue, rfl⟩
      · exact iff_of_false (silent rfl) (by simp)
      · exact iff_of_false (silent rfl) (by simp)
      · simp only [Station.Emits, Node.emitted, List.map_append, List.append_cancel_left_eq]
        constructor
        · intro same
          exact ⟨clock, ptmp, rest, rfl, queue, (List.cons.inj same).1.symm⟩
        · rintro ⟨clock', ptmp', rest', ⟨⟩, queue', rfl⟩
          rw [queue] at queue'
          cases queue'
          rfl

/-- The member `rftt` holds the whole seconds of the last packet accepted. -/
theorem Sampled.rftt_of_last (inv : Sampled s) {a : Arrival}
    (last : s.accepted.getLast? = some a) : s.node.mod.rftt = truncToInt a.tripTime := by
  have rftt : s.node.mod.rftt = _ := inv.rftt
  rw [rftt, last]
  rfl

/-- It is negative only if there was one. -/
theorem Sampled.exists_last (inv : Sampled s) (negative : s.node.mod.rftt < 0) :
    ∃ a, s.accepted.getLast? = some a := by
  have rftt : s.node.mod.rftt = _ := inv.rftt
  cases last : s.accepted.getLast? with
  | none =>
      rw [rftt, last] at negative
      cases negative
  | some a => exact ⟨a, rfl⟩

/-- Scaling the stored time is storing the scaled time where less than 1/10000 of a
second is cut off. -/
theorem scaled_iff (q : ℚ) :
    truncToInt q * 10000 = truncToInt (q * 10000) ↔ |q - truncToInt q| * 10000 < 1 := by
  have scale := trunc_mul_eq_iff q (show 0 < 10000 by decide)
  push_cast at scale
  rw [eq_comm]
  exact scale

/-- A pop takes a packet from the queue and emits it. -/
theorem emits_of_pop {clock : ℚ} (h : s.step (.send (.pop clock)) = some s') :
    ∃ ptmp, Station.Emits ⟨s, .send (.pop clock), s'⟩ (s.node.mod.fillHeaders clock ptmp).1 := by
  obtain ⟨n', sent, -⟩ := Option.map_eq_some_iff.mp h
  rcases Node.step_cases sent with
    ⟨_, _, _, ⟨⟩, -⟩ | ⟨⟨⟩, -⟩ | ⟨_, ptmp, rest, -, -, queue, -⟩
  exact ⟨ptmp, (emits_iff h).mpr ⟨clock, ptmp, rest, rfl, queue, rfl⟩⟩

/-- A packet is sent with an honest flag exactly when the last one accepted allows it. -/
theorem flagHonest_iff (inv : Sampled s) {act : StationAction} (h : s.step act = some s') :
    FlagHonest ⟨s, act, s'⟩ ↔ FlagKept ⟨s, act, s'⟩ := by
  constructor
  · rintro ⟨converted, flag⟩
    constructor
    · exact converted
    · rintro clock rfl
      obtain ⟨ptmp, emits⟩ := emits_of_pop h
      obtain ⟨valid, rftt⟩ := fillHeaders_rftt s.node.mod clock ptmp
      by_cases known : 0 ≤ s.node.mod.rftt
      · obtain ⟨a, last, encoded, range⟩ := flag _ emits (by rw [valid]; simpa using known)
        rw [rftt known, inv.rftt_of_last last] at encoded range
        exact ⟨a, last, .inr ⟨(scaled_iff _).mp encoded, range⟩⟩
      · obtain ⟨a, last⟩ := inv.exists_last (not_le.mp known)
        have stored := inv.rftt_of_last last
        exact ⟨a, last, .inl (by omega)⟩
  · rintro ⟨converted, emits⟩
    constructor
    · exact converted
    · intro p sends valid
      obtain ⟨clock, ptmp, rest, rfl, -, rfl⟩ := (emits_iff h).mp sends
      obtain ⟨flag, rftt⟩ := fillHeaders_rftt s.node.mod clock ptmp
      rw [flag, decide_eq_true_eq] at valid
      obtain ⟨a, last, kept⟩ := emits clock rfl
      have stored := inv.rftt_of_last last
      rcases kept with negative | ⟨close, range⟩
      · omega
      · rw [rftt valid, stored]
        exact ⟨a, last, (scaled_iff _).mpr close, range⟩

/-- In a run, the flag means what it says in every packet sent exactly when every packet
is sent after one that was under way for whole seconds, or for a negative time. -/
theorem flag_honest_iff (run : Run Station.step (Station.start heap b listener) moves s) :
    (∀ m ∈ moves, FlagHonest m) ↔ ∀ m ∈ moves, FlagKept m := by
  apply forall₂_congr
  intro m hm
  obtain ⟨inv, stepped⟩ :=
    run.invariant_before sampled_start (fun _ _ _ inv h => Sampled.step inv h) hm
  exact flagHonest_iff inv stepped

end Flag

/-! ### A node that sends one message -/

/-- A message comes in at an idle node and the timer sends it on. -/
def Station.relay (s : Station) (clock : ℚ) : Station :=
  { s with node := s.node.relay (oneBytePacket 7) clock }

/-- The three moves of it take place whatever happened before. -/
theorem run_relay {start s : Station} {moves : List (Move Station StationAction)}
    (run : Run Station.step start moves s) (empty : s.node.queuePckRead = [])
    (idle : s.node.popping = false) (clock : ℚ) :
    ∃ later, Run Station.step start (moves ++ later) (s.relay clock) ∧
      (∀ m ∈ later, (∀ a, m.action ≠ .recv a) ∧ m.before.accepted = s.accepted) ∧
      ∃ m ∈ later, Station.Emits m (s.node.mod.fillHeaders clock (oneBytePacket 7)).1 := by
  let queued : Station := { s with node := s.node.enqueue (oneBytePacket 7) }
  let popping : Station := { s with node := { queued.node with popping := true } }
  have first : s.step (.send (.enqueue _ (fun _ => 7) 1)) = some queued := rfl
  have second : queued.step (.send .test) = some popping := by
    simp [Station.step, Node.step, queued, popping, Node.enqueue, Node.test, idle]
  have third : popping.step (.send (.pop clock)) = some (s.relay clock) := by
    simp [Station.step, Node.step, Station.relay, queued, popping, Node.enqueue, Node.pop,
      Node.relay, empty]
  have whole := ((run.snoc first).snoc second).snoc third
  rw [List.append_assoc, List.append_assoc] at whole
  refine ⟨_, whole, ?_, ⟨popping, .send (.pop clock), s.relay clock⟩, by simp, ?_⟩
  · simp [queued, popping]
  · simp only [Station.Emits, Node.emitted, Station.relay, Node.relay, List.map_append]
    rfl

/-- A node that hears a packet under way for 3 seconds tells its peer so. -/
theorem heard_node_honest :
    ∃ moves s, Run Station.step (Station.start (fun _ => false) ⟨0, 0, 0⟩ false) moves s ∧
      (∃ m ∈ moves, ∃ p, Station.Emits m p ∧
        (p.uwApph.rfttValid, p.uwApph.rftt) = (true, 30000)) ∧
      ∀ m ∈ moves, FlagHonest m := by
  have trip : (⟨3, packetFrom 0⟩ : Arrival).tripTime = 3 := by decide +kernel
  have stored : (hears ⟨3, packetFrom 0⟩).node.mod.rftt = 3 := by decide +kernel
  obtain ⟨later, run, silent, m, hm, emits⟩ := run_relay (run_hears ⟨3, packetFrom 0⟩) rfl rfl 4
  refine ⟨_, _, run, ⟨m, List.mem_append_right _ hm, _, emits, ?_⟩, (flag_honest_iff run).mpr ?_⟩
  · obtain ⟨valid, rftt⟩ := fillHeaders_rftt (hears ⟨3, packetFrom 0⟩).node.mod 4 (oneBytePacket 7)
    rw [valid, rftt (by rw [stored]; decide), stored]
    rfl
  · rw [List.forall_mem_append, List.forall_mem_singleton]
    constructor
    · constructor
      · rintro a ⟨⟨⟩, -⟩
        rw [trip]
        decide
      · rintro clock ⟨⟩
    · intro m hm
      constructor
      · rintro a ⟨recv, -⟩
        exact absurd recv ((silent m hm).1 a)
      · rintro clock -
        have last : m.before.accepted.getLast? = some ⟨3, packetFrom 0⟩ := by
          rw [(silent m hm).2]
          rfl
        refine ⟨⟨3, packetFrom 0⟩, last, .inr ?_⟩
        rw [trip]
        decide +kernel

/-- A node that has not accepted a packet sends its first one as if it had. -/
theorem unheard_node_claims_trip_time :
    ∃ moves s, Run Station.step (Station.start (fun _ => false) ⟨0, 0, 0⟩ false) moves s ∧
      s.accepted.length = 0 ∧ (∃ m ∈ moves, Station.Emits m (packetFrom 0)) ∧
      (packetFrom 0).uwApph.rfttValid = true ∧ ¬ ∀ m ∈ moves, FlagHonest m := by
  obtain ⟨moves, run, silent, m, hm, emits⟩ := run_relay
    (.nil : Run Station.step (Station.start (fun _ => false) ⟨0, 0, 0⟩ false) [] _) rfl rfl 0
  refine ⟨moves, _, run, rfl, ⟨m, hm, emits⟩, rfl, fun honest => ?_⟩
  obtain ⟨a, last, -⟩ := (honest m hm).flag _ emits rfl
  rw [(silent m hm).2] at last
  cases last

end UwAppNet
