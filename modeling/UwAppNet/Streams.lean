import UwAppNet.DropMode
import UwAppNet.Sender

/-!
Fresh senders and one fresh receiver in drop mode.

A sender numbers its packets 2, 3, … modulo `2 ^ 16`; the receiver accepts exactly
the numbers that increase. What follows from the two together: how many packets of
one sender get through, and when several senders can share a receiver.
-/

namespace UwAppNet

open RunningMax Transition

/-! ### One complete stream -/

/-- The packets of these arrivals are a stream, in order. -/
def InOrder (arrivals : List Arrival) : Prop := Stream (arrivals.map Arrival.packet)

section OneStream

variable {arrivals earlier later : List Arrival} {a : Arrival}

theorem InOrder.isData (s : InOrder arrivals) : ∀ a ∈ arrivals, a.isData = true := by
  intro a ha
  exact beq_iff_eq.mpr (s.ptype a.packet (List.mem_map_of_mem ha))

theorem InOrder.take (s : InOrder arrivals) (n : Nat) : InOrder (arrivals.take n) := by
  unfold InOrder
  rw [List.map_take]
  exact Stream.take s n

theorem InOrder.left (s : InOrder (earlier ++ later)) : InOrder earlier := by
  have taken := s.take earlier.length
  rwa [List.take_left] at taken

/-- The number of an arrival follows from how many came before it. -/
theorem InOrder.sn (s : InOrder (earlier ++ a :: later)) :
    a.sn = wireNumber earlier.length := by
  have number := s.numbers earlier.length (by simp)
  simp only [List.getElem_map, List.getElem_append_right, le_refl, Nat.sub_self,
    List.getElem_cons_zero] at number
  exact number

theorem InOrder.increasing (s : InOrder arrivals) (unwrapped : arrivals.length < ushrtMax) :
    arrivals.Pairwise (·.sn < ·.sn) := by
  have increasing := Stream.increasing s (by simpa using unwrapped)
  exact (List.pairwise_map (f := Arrival.packet)).mp increasing

theorem InOrder.sn_bounds (s : InOrder arrivals) (unwrapped : arrivals.length < ushrtMax) :
    ∀ a ∈ arrivals, 2 ≤ a.sn ∧ a.sn ≤ arrivals.length + 1 := by
  intro a ha
  obtain ⟨earlier, later, rfl⟩ := List.append_of_mem ha
  have bound : (earlier ++ a :: later).length < 65535 := unwrapped
  rw [s.sn, wireNumber]
  simp only [List.length_append, List.length_cons] at bound ⊢
  omega

/-- A stream that ends before the last cell behind the table, or finds it clear,
reads no set cell. -/
theorem InOrder.clear {heap : Nat → Bool} (s : InOrder arrivals)
    (unwrapped : arrivals.length < ushrtMax)
    (last : arrivals.length = 65534 → heap 65535 = false) : Clear heap arrivals := by
  have bound : arrivals.length < 65535 := unwrapped
  intro a ha _
  have bounds := s.sn_bounds unwrapped a ha
  by_cases inside : a.sn < ushrtMax
  · exact .inl inside
  · have outside : ¬ a.sn < 65535 := inside
    have top : a.sn = 65535 := by omega
    rw [top]
    exact .inr (last (by omega))

/-- Up to its 65534th packet, and there with luck, a complete stream is accepted. -/
theorem InOrder.accepted (s : InOrder (earlier ++ [a])) (heap : Nat → Bool) {b : Bound}
    (drop : b.dropOutOfOrder = 1) (listener : Bool) (short : earlier.length < 65534)
    (last : earlier.length = 65533 → heap 65535 = false) :
    ((UwAppNetModule.fresh heap b listener).exitAfter earlier a).accepted = true := by
  have unwrapped : (earlier ++ [a]).length < ushrtMax := by
    show _ < 65535
    simp only [List.length_append, List.length_singleton]
    omega
  have clear : Clear heap (earlier ++ [a]) := s.clear unwrapped fun length => last (by
    simp only [List.length_append, List.length_singleton] at length
    omega)
  have positive : ∀ e ∈ earlier ++ [a], 0 < e.sn := fun e he => by
    have bounds := s.sn_bounds unwrapped e he
    omega
  exact (accepts_all_iff drop s.isData).mpr ⟨clear, positive, s.increasing unwrapped⟩
    earlier a [] rfl

/-- After 65533 packets of a complete stream the highest number fills the table. -/
theorem InOrder.hrsn_ge (s : InOrder arrivals) (heap : Nat → Bool) {b : Bound}
    (drop : b.dropOutOfOrder = 1) (listener : Bool) (long : 65533 ≤ arrivals.length) :
    65534 ≤ ((UwAppNetModule.fresh heap b listener).recvAll arrivals).hrsn := by
  have d := dropping_fresh heap drop listener
  have cut : arrivals = arrivals.take 65532 ++ [arrivals[65532]] ++ arrivals.drop 65533 := by
    rw [List.take_append_getElem, List.take_append_drop]
  have first : (arrivals.take 65532).length = 65532 := by
    rw [List.length_take]
    omega
  have prefixed : InOrder (arrivals.take 65532 ++ [arrivals[65532]]) := by
    rw [List.take_append_getElem]
    exact s.take _
  have acc := prefixed.accepted heap drop listener (by omega) (by omega)
  have reached := ((d.recvAll (arrivals.take 65532)).of_accepted acc).2.2.1
  have number : arrivals[65532].packet.uwApph.sn.toNat = 65534 := by
    have sn := prefixed.sn
    rw [first] at sn
    exact sn
  rw [number, ← UwAppNetModule.recvAll_concat] at reached
  rw [cut, UwAppNetModule.recvAll_append]
  have mono := (d.recvAll (arrivals.take 65532 ++ [arrivals[65532]])).recvAll_hrsn_le
    (arrivals.drop 65533)
  rw [reached] at mono
  exact mono

/-- The packet after the 65533rd is accepted only as number 65535 and only while
the cell behind the table is clear; no later packet is. -/
theorem InOrder.rejected (s : InOrder (earlier ++ [a])) {heap : Nat → Bool} {b : Bound}
    (drop : b.dropOutOfOrder = 1) {listener : Bool} (long : 65533 ≤ earlier.length)
    (acc : ((UwAppNetModule.fresh heap b listener).exitAfter earlier a).accepted = true) :
    earlier.length = 65533 ∧ heap 65535 = false := by
  have d := dropping_fresh heap drop listener
  obtain ⟨unseen, above, -, -⟩ := (d.recvAll earlier).of_accepted acc
  have full := s.left.hrsn_ge heap drop listener long
  have number : a.sn = wireNumber earlier.length := s.sn
  rw [wireNumber, Arrival.sn] at number
  have top : a.packet.uwApph.sn.toNat = 65535 := by omega
  rw [top] at unseen number
  refine ⟨?_, ?_⟩
  · by_contra more
    -- number 65535 came by once before, and its cell stayed set
    have again : 65533 < earlier.length := by omega
    have seen := d.recvAll_snCheck_mem (List.getElem_mem again)
      (s.left.isData _ (List.getElem_mem again))
    have first : earlier[65533].sn = 65535 := by
      have sn := s.left.numbers 65533 (by simpa using again)
      simp only [List.getElem_map] at sn
      exact sn
    rw [first, unseen] at seen
    cases seen
  · by_contra set
    have start : (UwAppNetModule.fresh heap b listener).snCheck 65535 = true := by
      simpa [UwAppNetModule.fresh, UwAppNetModule.init, ushrtMax] using set
    have still := d.recvAll_snCheck_mono earlier start
    rw [unseen] at still
    cases still

end OneStream

/-! ### The length of a lossless run -/

/-- Packet number `k + 1` of one sender, received once and in order, is accepted
while its 16-bit number lies inside the table. One more gets through if the cell
behind the table is clear; after it the receiver accepts nothing, ever. -/
theorem nth_packet_accepted_iff {senderHeap heap : Nat → Bool} {senderBound b : Bound}
    (drop : b.dropOutOfOrder = 1) (listener : Bool) {moves : List (Move Node NodeAction)}
    {n : Node} (run : Run Node.step (Node.start senderHeap senderBound) moves n)
    {arrivals : List Arrival} (delivered : arrivals.map Arrival.packet = n.emitted)
    (k : Nat) (hk : k < arrivals.length) :
    ((UwAppNetModule.fresh heap b listener).exitAfter (arrivals.take k)
        arrivals[k]).accepted = true ↔
      k + 1 ≤ 65533 ∨ (k + 1 = 65534 ∧ heap 65535 = false) := by
  have inOrder : InOrder arrivals := by
    unfold InOrder
    rw [delivered]
    exact (numbered_run run).stream
  have s : InOrder (arrivals.take k ++ [arrivals[k]]) := by
    rw [List.take_append_getElem]
    exact inOrder.take _
  have length : (arrivals.take k).length = k := List.length_take_of_le hk.le
  constructor
  · intro acc
    by_cases long : 65533 ≤ k
    · obtain ⟨exact, clear⟩ := s.rejected drop (by omega) acc
      exact .inr ⟨by omega, clear⟩
    · exact .inl (by omega)
  · intro reached
    refine s.accepted heap drop listener (by omega) fun last => ?_
    rcases reached with inside | ⟨-, clear⟩
    · omega
    · exact clear

/-- The packets of the steady sender, as they arrive. -/
def steadyArrivals (k : Nat) : List Arrival :=
  (steadyNode (fun _ => false) ⟨1, 0, 0⟩ k).emitted.map fun p => ⟨0, p⟩

@[simp] theorem map_packet_steadyArrivals (k : Nat) :
    (steadyArrivals k).map Arrival.packet =
      (steadyNode (fun _ => false) ⟨1, 0, 0⟩ k).emitted := by
  simp [steadyArrivals, Function.comp_def]

@[simp] theorem length_steadyArrivals (k : Nat) : (steadyArrivals k).length = k := by
  simp [steadyArrivals]

/-- The second packet of a sender of two is accepted. -/
theorem second_packet_accepted : ∃ h : 1 < (steadyArrivals 2).length,
    ((UwAppNetModule.fresh (fun _ => false) ⟨1, 0, 0⟩ true).exitAfter
      ((steadyArrivals 2).take 1) (steadyArrivals 2)[1]).accepted = true := by
  obtain ⟨moves, run⟩ := run_steadyNode (fun _ => false) ⟨1, 0, 0⟩ 2
  refine ⟨by simp, ?_⟩
  exact (nth_packet_accepted_iff rfl true run (map_packet_steadyArrivals 2) 1
    (by simp)).mpr (.inl (by decide))

/-- A sender of 65535 messages: its last packet carries number 0 and is dropped,
though every packet arrived once and in order. -/
theorem packet_65535_dropped :
    (∃ moves, Run Node.step (Node.start (fun _ => false) ⟨1, 0, 0⟩) moves
      (steadyNode (fun _ => false) ⟨1, 0, 0⟩ 65535)) ∧
    ∃ h : 65534 < (steadyArrivals 65535).length,
      ((UwAppNetModule.fresh (fun _ => false) ⟨1, 0, 0⟩ true).exitAfter
        ((steadyArrivals 65535).take 65534) (steadyArrivals 65535)[65534]).accepted = false := by
  obtain ⟨moves, run⟩ := run_steadyNode (fun _ => false) ⟨1, 0, 0⟩ 65535
  have bound : 65534 < (steadyArrivals 65535).length := by simp
  have inOrder : InOrder (steadyArrivals 65535) := by
    unfold InOrder
    rw [map_packet_steadyArrivals]
    exact (numbered_run run).stream
  have s : InOrder ((steadyArrivals 65535).take 65534 ++ [(steadyArrivals 65535)[65534]]) := by
    rw [List.take_append_getElem]
    exact inOrder.take _
  have length : ((steadyArrivals 65535).take 65534).length = 65534 := by
    rw [List.length_take]
    omega
  refine ⟨⟨moves, run⟩, bound, ?_⟩
  by_contra acc
  obtain ⟨exact, -⟩ := s.rejected (b := ⟨1, 0, 0⟩) rfl (by omega) (Bool.not_eq_false _ ▸ acc)
  omega

/-! ### Several senders at one receiver -/

section Senders

variable {ι : Type*} [DecidableEq ι]

/-- What arrives from sender `i`, of arrivals tagged by their sender. -/
def arrivalsFrom (tagged : List (ι × Arrival)) (i : ι) : List Arrival :=
  (tagged.filter fun t => t.1 = i).map Prod.snd

theorem mem_arrivalsFrom {tagged : List (ι × Arrival)} {i : ι} {a : Arrival} :
    a ∈ arrivalsFrom tagged i ↔ (i, a) ∈ tagged := by
  simp [arrivalsFrom]

/-- Where one sender alone sends, its arrivals are all arrivals. -/
theorem arrivalsFrom_eq {tagged : List (ι × Arrival)} {i : ι}
    (only : ∀ t ∈ tagged, t.1 = i) : arrivalsFrom tagged i = tagged.map Prod.snd := by
  rw [arrivalsFrom, List.filter_eq_self.mpr]
  exact fun t ht => decide_eq_true (only t ht)

variable {nodes : ι → Node} {tagged : List (ι × Arrival)}

theorem inOrder_arrivalsFrom (streams : ∀ i, Stream (nodes i).emitted)
    (complete : ∀ i, (arrivalsFrom tagged i).map Arrival.packet = (nodes i).emitted) (i : ι) :
    InOrder (arrivalsFrom tagged i) := by
  unfold InOrder
  rw [complete i]
  exact streams i

/-- What arrives was emitted. -/
theorem mem_emitted
    (complete : ∀ i, (arrivalsFrom tagged i).map Arrival.packet = (nodes i).emitted) {i : ι}
    {a : Arrival} (ha : (i, a) ∈ tagged) : a.packet ∈ (nodes i).emitted := by
  rw [← complete i]
  exact List.mem_map_of_mem (mem_arrivalsFrom.mpr ha)

theorem sender_active
    (complete : ∀ i, (arrivalsFrom tagged i).map Arrival.packet = (nodes i).emitted)
    {t : ι × Arrival} (ht : t ∈ tagged) : (nodes t.1).emitted ≠ [] :=
  List.ne_nil_of_mem (mem_emitted complete ht)

/-- Every sender that sent anything sent a packet number 2. -/
theorem first_arrival (streams : ∀ i, Stream (nodes i).emitted)
    (complete : ∀ i, (arrivalsFrom tagged i).map Arrival.packet = (nodes i).emitted) {i : ι}
    (active : (nodes i).emitted ≠ []) : ∃ a, (i, a) ∈ tagged ∧ a.sn = 2 := by
  have inOrder := inOrder_arrivalsFrom streams complete i
  cases arrivals : arrivalsFrom tagged i with
  | nil =>
      rw [← complete i, arrivals] at active
      exact absurd rfl active
  | cons a later =>
      rw [arrivals] at inOrder
      have number : a.sn = wireNumber ([] : List Arrival).length := InOrder.sn inOrder
      refine ⟨a, mem_arrivalsFrom.mp ?_, number⟩
      rw [arrivals]
      exact List.mem_cons_self

/-- Numbers that increase along the arrivals leave room for one sender only. -/
theorem single_sender (streams : ∀ i, Stream (nodes i).emitted)
    (complete : ∀ i, (arrivalsFrom tagged i).map Arrival.packet = (nodes i).emitted)
    (increasing : (tagged.map Prod.snd).Pairwise (·.sn < ·.sn)) {i j : ι}
    (activeI : (nodes i).emitted ≠ []) (activeJ : (nodes j).emitted ≠ []) : i = j := by
  obtain ⟨a, ha, snA⟩ := first_arrival streams complete activeI
  obtain ⟨c, hc, snC⟩ := first_arrival streams complete activeJ
  by_contra distinct
  have apart : tagged.Pairwise fun s t => s.2.sn ≠ t.2.sn :=
    (List.pairwise_map.mp increasing).imp fun lt => lt.ne
  have symm : Std.Symm fun s t : ι × Arrival => s.2.sn ≠ t.2.sn := ⟨fun _ _ ne => ne.symm⟩
  have tags : (i, a) ≠ (j, c) := fun same => distinct (congrArg Prod.fst same)
  exact apart.forall ha hc tags (snA.trans snC.symm)

/-- A stream of 65534 packets reaches the cell behind the table. -/
theorem last_cell_clear {heap : Nat → Bool} (streams : ∀ i, Stream (nodes i).emitted)
    (complete : ∀ i, (arrivalsFrom tagged i).map Arrival.packet = (nodes i).emitted)
    (clear : Clear heap (tagged.map Prod.snd)) {i : ι}
    (full : (nodes i).emitted.length = 65534) : heap 65535 = false := by
  have inOrder := inOrder_arrivalsFrom streams complete i
  have length : (arrivalsFrom tagged i).length = 65534 := by
    rw [← full, ← complete i, List.length_map]
  have bound : 65533 < (arrivalsFrom tagged i).length := by omega
  let a := (arrivalsFrom tagged i)[65533]
  have ha : a ∈ arrivalsFrom tagged i := List.getElem_mem bound
  have number : a.sn = 65535 := by
    have sn := inOrder.numbers 65533 (by simpa using bound)
    simp only [List.getElem_map] at sn
    exact sn
  have read := clear a (List.mem_map_of_mem (mem_arrivalsFrom.mp ha)) (inOrder.isData a ha)
  rw [number] at read
  exact read.resolve_left (by decide)

omit [DecidableEq ι] in
/-- That every tagged arrival is accepted and sent says that all arrivals are
accepted. -/
theorem accepted_tagged_iff {heap : Nat → Bool} {b : Bound} (drop : b.dropOutOfOrder = 1) :
    (∀ earlier i a later, tagged = earlier ++ (i, a) :: later →
      (UwAppNetModule.fresh heap b true).exitAfter (earlier.map Prod.snd) a =
        .accept (some a.packet.payload)) ↔
      ∀ earlier a later, tagged.map Prod.snd = earlier ++ a :: later →
        ((UwAppNetModule.fresh heap b true).exitAfter earlier a).accepted = true := by
  constructor
  · intro all earlier a later split
    obtain ⟨xs, ys, rfl, rfl, tail⟩ := List.map_eq_append_iff.mp split
    obtain ⟨⟨i, c⟩, zs, rfl, rfl, -⟩ := List.map_eq_cons_iff.mp tail
    rw [all xs i c zs rfl]
    rfl
  · rintro all earlier i a later rfl
    exact exitAfter_of_accepted drop (all (earlier.map Prod.snd) a (later.map Prod.snd) (by simp))

/-- Any number of complete, ordered streams may interleave at the receiver: it
accepts all their packets exactly when at most one sender sends at all (and a
stream that reaches the cell behind the table finds it clear). -/
theorem senders_undisturbed_iff (heap : Nat → Bool) {b : Bound} (drop : b.dropOutOfOrder = 1)
    (started : ∀ i, ∃ senderHeap senderBound moves,
      Run Node.step (Node.start senderHeap senderBound) moves (nodes i))
    (unwrapped : ∀ i, (nodes i).emitted.length < ushrtMax)
    (complete : ∀ i, (arrivalsFrom tagged i).map Arrival.packet = (nodes i).emitted) :
    (∀ earlier i a later, tagged = earlier ++ (i, a) :: later →
      (UwAppNetModule.fresh heap b true).exitAfter (earlier.map Prod.snd) a =
        .accept (some a.packet.payload)) ↔
      (∀ i j, (nodes i).emitted ≠ [] → (nodes j).emitted ≠ [] → i = j) ∧
        ∀ i, (nodes i).emitted.length = 65534 → heap 65535 = false := by
  have streams : ∀ i, Stream (nodes i).emitted := fun i => by
    obtain ⟨senderHeap, senderBound, moves, run⟩ := started i
    exact (numbered_run run).stream
  have data : ∀ a ∈ tagged.map Prod.snd, a.isData = true := by
    intro a ha
    obtain ⟨⟨i, a⟩, ht, rfl⟩ := List.mem_map.mp ha
    exact beq_iff_eq.mpr ((streams i).ptype _ (mem_emitted complete ht))
  rw [accepted_tagged_iff drop, accepts_all_iff drop data]
  constructor
  · rintro ⟨clear, -, increasing⟩
    refine ⟨fun i j activeI activeJ => ?_, fun i full => ?_⟩
    · exact single_sender streams complete increasing activeI activeJ
    · exact last_cell_clear streams complete clear full
  · rintro ⟨alone, last⟩
    cases arrivals : tagged with
    | nil => exact ⟨by simp [Clear], by simp, List.Pairwise.nil⟩
    | cons first later =>
        have only : ∀ t ∈ tagged, t.1 = first.1 := fun t ht =>
          alone _ _ (sender_active complete ht)
            (sender_active complete (arrivals ▸ List.mem_cons_self))
        have inOrder := inOrder_arrivalsFrom streams complete first.1
        have short := unwrapped first.1
        rw [← complete first.1, List.length_map] at short
        have full := last first.1
        rw [← complete first.1, List.length_map] at full
        rw [← arrivals, ← arrivalsFrom_eq only]
        refine ⟨inOrder.clear short full, fun a ha => ?_, inOrder.increasing short⟩
        exact Nat.lt_of_lt_of_le (by decide) (inOrder.sn_bounds short a ha).1

end Senders

/-- One active and one idle sender: the packet is accepted and passed on. -/
theorem idle_sender_undisturbed :
    (UwAppNetModule.fresh (fun _ => false) ⟨1, 0, 0⟩ true).exitAfter [] (steadyArrivals 1)[0] =
      .accept (some (steadyArrivals 1)[0].packet.payload) := by
  let nodes : Bool → Node := fun i =>
    steadyNode (fun _ => false) ⟨1, 0, 0⟩ (if i then 0 else 1)
  let tagged := (steadyArrivals 1).map fun a => (false, a)
  have started : ∀ i, ∃ senderHeap senderBound moves,
      Run Node.step (Node.start senderHeap senderBound) moves (nodes i) := fun i => by
    obtain ⟨moves, run⟩ := run_steadyNode (fun _ => false) ⟨1, 0, 0⟩ (if i then 0 else 1)
    exact ⟨_, _, moves, run⟩
  have unwrapped : ∀ i, (nodes i).emitted.length < ushrtMax := by
    intro i
    cases i <;> decide
  have complete : ∀ i, (arrivalsFrom tagged i).map Arrival.packet = (nodes i).emitted := by
    intro i
    cases i <;> rfl
  have alone : ∀ i j, (nodes i).emitted ≠ [] → (nodes j).emitted ≠ [] → i = j := by
    intro i j activeI activeJ
    cases i <;> cases j <;> first | rfl | exact absurd rfl activeI | exact absurd rfl activeJ
  have accepted := (senders_undisturbed_iff (fun _ => false) (b := ⟨1, 0, 0⟩) rfl started
    unwrapped complete).mpr ⟨alone, fun _ _ => rfl⟩
  exact accepted [] false _ [] rfl

/-- Two senders of one packet each: both packets carry the number 2, so the second
is taken for a duplicate and dropped. -/
theorem two_senders_disturbed :
    (∃ moves, Run Node.step (Node.start (fun _ => false) ⟨1, 0, 0⟩) moves
      (steadyNode (fun _ => false) ⟨1, 0, 0⟩ 1)) ∧
    ∃ first second,
      (∀ i : Bool, (arrivalsFrom [(false, first), (true, second)] i).map Arrival.packet =
        (steadyNode (fun _ => false) ⟨1, 0, 0⟩ 1).emitted) ∧
      (UwAppNetModule.fresh (fun _ => false) ⟨1, 0, 0⟩ true).exitAfter [first] second =
        .drop .duplicatedPacket := by
  refine ⟨run_steadyNode _ _ 1, (steadyArrivals 1)[0], (steadyArrivals 1)[0], ?_, rfl⟩
  intro i
  cases i <;> rfl

end UwAppNet
