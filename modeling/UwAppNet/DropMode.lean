import UwAppNet.Reception
import UwAppNet.Lib.RunningMax
import Mathlib.Tactic.Ring

/-!
The receiver in drop mode, over whole arrival sequences.

`statistics` decides with a table of seen numbers, the highest accepted number
and the expected number derived from it. Against the running maximum of all
arrivals the three exits for data packets are the three verdicts of
`RunningMax`; `Tracks` is the invariant that links the two.
-/

namespace UwAppNet

open RunningMax

/-! ### One call in drop mode, from any state -/

/-- A receiver in drop mode whose highest number came from a 16-bit field. -/
structure Dropping (m : UwAppNetModule) : Prop where
  mode : m.dropOutOfOrder = 1
  range : ∃ h : Nat, h < 2 ^ 16 ∧ m.hrsn = h

section Call

variable {m : UwAppNetModule} {clock : ℚ} {p : Packet}

open UwAppNetModule

/-- The four exits of `statistics` in drop mode, with what each does. -/
theorem Dropping.cases (d : Dropping m) (clock : ℚ) (p : Packet) :
    (p.ch.ptype ≠ .dataApplication ∧
        m.statistics clock p = (m.incrPktInvalid, .drop .unknownType)) ∨
      (p.ch.ptype = .dataApplication ∧ m.snCheck p.uwApph.sn.toNat = true ∧
        m.statistics clock p = (m.expectNext.incrPktInvalid, .drop .duplicatedPacket)) ∨
      (p.ch.ptype = .dataApplication ∧ m.snCheck p.uwApph.sn.toNat = false ∧
        (p.uwApph.sn.toNat : Int) ≤ m.hrsn ∧
        m.statistics clock p =
          ((m.expectNext.mark p.uwApph.sn).incrPktOoseq, .drop .outOfSequence)) ∨
      (p.ch.ptype = .dataApplication ∧ m.snCheck p.uwApph.sn.toNat = false ∧
        m.hrsn < p.uwApph.sn.toNat ∧
        m.statistics clock p = (m.expectNext.mark p.uwApph.sn).accept clock p) := by
  obtain ⟨h, small, hrsn⟩ := d.range
  have due := lt_expected_iff p.uwApph.sn small
  rw [← hrsn] at due
  by_cases data : p.ch.ptype = .dataApplication
  · cases seen : m.snCheck p.uwApph.sn.toNat with
    | true => exact .inr (.inl ⟨data, rfl, statistics_duplicate data d.mode seen⟩)
    | false =>
        by_cases late : p.uwApph.sn.toUInt32 < UInt32.ofInt (m.hrsn + 1)
        · have below := due.mp late
          exact .inr (.inr (.inl ⟨data, rfl, by omega, statistics_late data d.mode seen late⟩))
        · have above := mt due.mpr late
          exact .inr (.inr (.inr ⟨data, rfl, by omega, statistics_accept data d.mode seen late⟩))
  · exact .inl ⟨data, statistics_wrong_type data⟩

theorem Dropping.statistics (d : Dropping m) : Dropping (m.statistics clock p).1 := by
  rcases d.cases clock p with
    ⟨-, eq⟩ | ⟨-, -, eq⟩ | ⟨-, -, -, eq⟩ | ⟨-, -, -, eq⟩ <;> rw [eq]
  · exact ⟨d.mode, d.range⟩
  · exact ⟨d.mode, d.range⟩
  · exact ⟨d.mode, d.range⟩
  · refine ⟨by simpa [expectNext, mark] using d.mode, ?_⟩
    exact ⟨p.uwApph.sn.toNat, p.uwApph.sn.toNat_lt, accept_hrsn⟩

/-- The highest number never decreases. -/
theorem Dropping.hrsn_le (d : Dropping m) : m.hrsn ≤ (m.statistics clock p).1.hrsn := by
  rcases d.cases clock p with
    ⟨-, eq⟩ | ⟨-, -, eq⟩ | ⟨-, -, -, eq⟩ | ⟨-, -, above, eq⟩ <;> rw [eq]
  · exact le_refl m.hrsn
  · exact le_refl m.hrsn
  · exact le_refl m.hrsn
  · rw [accept_hrsn]
    exact above.le

/-- A cell of the table is never cleared. -/
theorem Dropping.snCheck_mono (d : Dropping m) {i : Nat} (set : m.snCheck i = true) :
    (m.statistics clock p).1.snCheck i = true := by
  have kept : (m.expectNext.mark p.uwApph.sn).snCheck i = true := by
    by_cases same : i = p.uwApph.sn.toNat
    · simp [mark, same]
    · simpa [mark, expectNext, Function.update_of_ne same] using set
  rcases d.cases clock p with
    ⟨-, eq⟩ | ⟨-, -, eq⟩ | ⟨-, -, -, eq⟩ | ⟨-, -, -, eq⟩ <;> rw [eq]
  · exact set
  · exact set
  · exact kept
  · rw [accept_snCheck]
    exact kept

/-- A data packet leaves its cell set, accepted or not. -/
theorem Dropping.snCheck_self (d : Dropping m) (data : p.ch.ptype = .dataApplication) :
    (m.statistics clock p).1.snCheck p.uwApph.sn.toNat = true := by
  rcases d.cases clock p with
    ⟨wrong, -⟩ | ⟨-, seen, eq⟩ | ⟨-, -, -, eq⟩ | ⟨-, -, -, eq⟩
  · exact absurd data wrong
  · rw [eq]
    exact seen
  · rw [eq]
    simp [incrPktOoseq, mark]
  · rw [eq, accept_snCheck]
    simp [mark]

/-- An accepted packet was unseen and lies above every accepted one. -/
theorem Dropping.of_accepted (d : Dropping m) (acc : (m.statistics clock p).2.accepted = true) :
    m.snCheck p.uwApph.sn.toNat = false ∧ m.hrsn < p.uwApph.sn.toNat ∧
      (m.statistics clock p).1.hrsn = p.uwApph.sn.toNat ∧
      (m.statistics clock p).2 = .accept (if m.pTcpListener then some p.payload else none) := by
  rcases d.cases clock p with
    ⟨-, eq⟩ | ⟨-, -, eq⟩ | ⟨-, -, -, eq⟩ | ⟨-, unseen, above, eq⟩
  · rw [eq] at acc
    cases acc
  · rw [eq] at acc
    cases acc
  · rw [eq] at acc
    cases acc
  · refine ⟨unseen, above, ?_, ?_⟩
    · rw [eq, accept_hrsn]
    · rw [eq, accept_exit]
      rfl

end Call

section Run

theorem dropping_fresh (heap : Nat → Bool) {b : Bound} (drop : b.dropOutOfOrder = 1)
    (listener : Bool) : Dropping (UwAppNetModule.fresh heap b listener) :=
  ⟨drop, 0, by decide, rfl⟩

theorem Dropping.recvAll {m : UwAppNetModule} (d : Dropping m) (arrivals : List Arrival) :
    Dropping (m.recvAll arrivals) := by
  induction arrivals using List.reverseRecOn with
  | nil => exact d
  | append_singleton arrivals a ih =>
      rw [UwAppNetModule.recvAll_concat]
      exact ih.statistics

theorem Dropping.recvAll_hrsn_le {m : UwAppNetModule} (d : Dropping m)
    (arrivals : List Arrival) : m.hrsn ≤ (m.recvAll arrivals).hrsn := by
  induction arrivals using List.reverseRecOn with
  | nil => exact le_refl m.hrsn
  | append_singleton arrivals a ih =>
      rw [UwAppNetModule.recvAll_concat]
      exact ih.trans (d.recvAll arrivals).hrsn_le

theorem Dropping.recvAll_snCheck_mono {m : UwAppNetModule} (d : Dropping m)
    (arrivals : List Arrival) {i : Nat} (set : m.snCheck i = true) :
    (m.recvAll arrivals).snCheck i = true := by
  induction arrivals using List.reverseRecOn with
  | nil => exact set
  | append_singleton arrivals a ih =>
      rw [UwAppNetModule.recvAll_concat]
      exact (d.recvAll arrivals).snCheck_mono ih

/-- The number of every data packet handled stays set. -/
theorem Dropping.recvAll_snCheck_mem {m : UwAppNetModule} (d : Dropping m)
    {arrivals : List Arrival} {a : Arrival} (ha : a ∈ arrivals) (data : a.isData = true) :
    (m.recvAll arrivals).snCheck a.sn = true := by
  obtain ⟨earlier, later, rfl⟩ := List.append_of_mem ha
  have split : earlier ++ a :: later = earlier ++ [a] ++ later := by simp
  have ptype : a.packet.ch.ptype = .dataApplication := by simpa [Arrival.isData] using data
  rw [split, UwAppNetModule.recvAll_append, UwAppNetModule.recvAll_concat]
  have before := d.recvAll earlier
  exact before.statistics.recvAll_snCheck_mono later (before.snCheck_self ptype)

end Run

/-! ### The invariant of drop mode -/

/-- The receiver's state after `arrivals`, in terms of the arrivals alone. -/
structure Tracks (heap : Nat → Bool) (m : UwAppNetModule) (arrivals : List Arrival) : Prop where
  mode : m.dropOutOfOrder = 1
  table : ∀ i, i < ushrtMax ∨ heap i = false →
    (m.snCheck i = true ↔ ∃ a ∈ dataArrivals arrivals, a.sn = i)
  highest : m.hrsn = peak Arrival.sn 0 (dataArrivals arrivals)
  recv : m.pktsRecv = tally Arrival.sn 0 (dataArrivals arrivals) .record
  lost : m.pktsLost + m.pktsRecv = m.hrsn
  ooseq : m.pktsOoseq = tally Arrival.sn 0 (dataArrivals arrivals) .late
  invalid : m.pktsInvalid = tally Arrival.sn 0 (dataArrivals arrivals) .repeated +
    (arrivals.length - (dataArrivals arrivals).length : Int)

theorem tracks_fresh (heap : Nat → Bool) (b : Bound) (drop : b.dropOutOfOrder = 1)
    (listener : Bool) : Tracks heap (UwAppNetModule.fresh heap b listener) [] where
  mode := drop
  table := by
    intro i hi
    rcases hi with inside | clear
    · simp [UwAppNetModule.fresh, UwAppNetModule.init, inside, dataArrivals]
    · simp [UwAppNetModule.fresh, UwAppNetModule.init, clear, dataArrivals]
  highest := rfl
  recv := rfl
  lost := rfl
  ooseq := rfl
  invalid := rfl

/-- What `statistics` does with a data packet of a given verdict. -/
def disposal (m : UwAppNetModule) (a : Arrival) : Verdict → UwAppNetModule × Exit
  | .record => (m.expectNext.mark a.packet.uwApph.sn).accept a.clock a.packet
  | .repeated => (m.expectNext.incrPktInvalid, .drop .duplicatedPacket)
  | .late => ((m.expectNext.mark a.packet.uwApph.sn).incrPktOoseq, .drop .outOfSequence)

section Disposal

variable (m : UwAppNetModule) (a : Arrival) (v : Verdict)

open UwAppNetModule

theorem disposal_dropOutOfOrder :
    (disposal m a v).1.dropOutOfOrder = m.dropOutOfOrder := by
  cases v <;> simp [disposal, mark, expectNext, incrPktInvalid, incrPktOoseq]

theorem disposal_snCheck : (disposal m a v).1.snCheck =
    if v = .repeated then m.snCheck else Function.update m.snCheck a.sn true := by
  cases v <;> simp [disposal, mark, expectNext, incrPktInvalid, incrPktOoseq, Arrival.sn]

theorem disposal_hrsn :
    (disposal m a v).1.hrsn = if v = .record then (a.sn : Int) else m.hrsn := by
  cases v <;> simp [disposal, mark, expectNext, incrPktInvalid, incrPktOoseq, Arrival.sn]

theorem disposal_pktsRecv : (disposal m a v).1.pktsRecv =
    m.pktsRecv + if v = .record then 1 else 0 := by
  cases v <;> simp [disposal, mark, expectNext, incrPktInvalid, incrPktOoseq]

theorem disposal_pktsOoseq : (disposal m a v).1.pktsOoseq =
    m.pktsOoseq + if v = .late then 1 else 0 := by
  cases v <;> simp [disposal, mark, expectNext, incrPktInvalid, incrPktOoseq]

theorem disposal_pktsInvalid : (disposal m a v).1.pktsInvalid =
    m.pktsInvalid + if v = .repeated then 1 else 0 := by
  cases v <;> simp [disposal, mark, expectNext, incrPktInvalid, incrPktOoseq]

theorem disposal_accepted : (disposal m a v).2.accepted = decide (v = .record) := by
  cases v <;> simp [disposal, Exit.accepted]

end Disposal

section Step

variable {heap : Nat → Bool} {m : UwAppNetModule} {arrivals : List Arrival} {a : Arrival}

theorem isData_iff : a.isData = true ↔ a.packet.ch.ptype = .dataApplication := by
  simp [Arrival.isData]

theorem peak_small (data : List Arrival) : peak Arrival.sn 0 data < 2 ^ 16 := by
  rw [peak_lt_iff]
  exact ⟨by decide, fun e _ => e.packet.uwApph.sn.toNat_lt⟩

/-- The exits of `statistics` are the verdicts of the arrival history. -/
theorem Tracks.statistics_eq (t : Tracks heap m arrivals) (data : a.isData = true)
    (clear : a.sn < ushrtMax ∨ heap a.sn = false) :
    m.statistics a.clock a.packet =
      disposal m a (verdict Arrival.sn 0 (dataArrivals arrivals) a) := by
  have ptype := isData_iff.mp data
  have small := peak_small (dataArrivals arrivals)
  have table := t.table a.sn clear
  cases v : verdict Arrival.sn 0 (dataArrivals arrivals) a with
  | record =>
      have highest := verdict_eq_record_iff.mp v
      have unseen : m.snCheck a.sn = false := by
        rw [Bool.eq_false_iff, ne_eq, table]
        rintro ⟨e, he, same⟩
        exact (highest.2 e he).ne same
      apply UwAppNetModule.statistics_accept ptype t.mode unseen
      rw [t.highest, lt_expected_iff _ small, not_le]
      exact peak_lt_iff.mpr highest
  | repeated =>
      have seen := table.mpr (verdict_eq_repeated_iff.mp v)
      exact UwAppNetModule.statistics_duplicate ptype t.mode seen
  | late =>
      have unseen : m.snCheck a.sn = false := by
        rw [Bool.eq_false_iff, ne_eq, table]
        intro repeats
        rw [verdict_eq_repeated_iff.mpr repeats] at v
        cases v
      apply UwAppNetModule.statistics_late ptype t.mode unseen
      rw [t.highest, lt_expected_iff _ small, ← not_lt]
      intro above
      have record := verdict_eq_record_iff.mpr (peak_lt_iff.mp above)
      rw [v] at record
      cases record

/-- A packet of another type only counts as invalid. -/
theorem Tracks.foreign (t : Tracks heap m arrivals) (other : a.isData = false) :
    Tracks heap (m.statistics a.clock a.packet).1 (arrivals ++ [a]) := by
  have wrong : a.packet.ch.ptype ≠ .dataApplication := by
    intro ptype
    rw [isData_iff.mpr ptype] at other
    cases other
  rw [UwAppNetModule.statistics_wrong_type wrong]
  constructor
  · exact t.mode
  · simpa [other, UwAppNetModule.incrPktInvalid] using t.table
  · simpa [other, UwAppNetModule.incrPktInvalid] using t.highest
  · simpa [other, UwAppNetModule.incrPktInvalid] using t.recv
  · exact t.lost
  · simpa [other, UwAppNetModule.incrPktInvalid] using t.ooseq
  · have invalid := t.invalid
    simp only [other, dataArrivals_concat_other, UwAppNetModule.incrPktInvalid,
      List.length_append, List.length_singleton]
    omega

/-- The table holds the numbers of one more data packet. -/
theorem Tracks.table_concat (t : Tracks heap m arrivals) (data : a.isData = true) (v : Verdict)
    (hv : verdict Arrival.sn 0 (dataArrivals arrivals) a = v) :
    ∀ i, i < ushrtMax ∨ heap i = false → ((disposal m a v).1.snCheck i = true ↔
      ∃ e ∈ dataArrivals (arrivals ++ [a]), e.sn = i) := by
  intro i hi
  have table := t.table i hi
  rw [disposal_snCheck, dataArrivals_concat_data data]
  by_cases same : i = a.sn
  · subst same
    by_cases rep : v = .repeated
    · have seen := table.mpr (verdict_eq_repeated_iff.mp (hv.trans rep))
      simp [rep, seen]
    · simp [rep]
  · split
    · simp [table, Ne.symm same]
    · rw [Function.update_of_ne same, table]
      simp [Ne.symm same]

/-- The highest number accepted is still the running maximum. -/
theorem Tracks.highest_concat (t : Tracks heap m arrivals) (data : a.isData = true)
    (v : Verdict) (hv : verdict Arrival.sn 0 (dataArrivals arrivals) a = v) :
    (disposal m a v).1.hrsn = peak Arrival.sn 0 (dataArrivals (arrivals ++ [a])) := by
  rw [disposal_hrsn, dataArrivals_concat_data data, peak_concat]
  by_cases record : v = .record
  · have above := peak_lt_iff.mpr (verdict_eq_record_iff.mp (hv.trans record))
    simp [record, max_eq_right above.le]
  · have below : a.sn ≤ peak Arrival.sn 0 (dataArrivals arrivals) := by
      by_contra above
      have top := verdict_eq_record_iff.mpr (peak_lt_iff.mp (not_le.mp above))
      exact record (hv.symm.trans top)
    simp [record, max_eq_left below, t.highest]

/-- An accepted packet closes its gap: losses plus receptions reach its number. -/
theorem Tracks.lost_concat (t : Tracks heap m arrivals) (v : Verdict)
    (hv : verdict Arrival.sn 0 (dataArrivals arrivals) a = v) :
    (disposal m a v).1.pktsLost + (disposal m a v).1.pktsRecv = (disposal m a v).1.hrsn := by
  have lost := t.lost
  rw [disposal_pktsRecv, disposal_hrsn]
  cases v with
  | repeated =>
      simpa [disposal, UwAppNetModule.incrPktInvalid, UwAppNetModule.expectNext] using lost
  | late =>
      simpa [disposal, UwAppNetModule.incrPktOoseq, UwAppNetModule.mark,
        UwAppNetModule.expectNext] using lost
  | record =>
      have above := peak_lt_iff.mpr (verdict_eq_record_iff.mp hv)
      have gap := gap_eq a.packet.uwApph.sn above
      rw [← t.highest] at gap
      have step : (disposal m a .record).1.pktsLost =
          m.pktsLost + ((a.packet.uwApph.sn.toNat : Int) - (m.hrsn + 1)) := by
        rw [← gap]
        exact UwAppNetModule.accept_pktsLost t.mode
      rw [step]
      simp only [if_true, Arrival.sn]
      omega

/-- A data packet keeps the invariant, whatever its verdict. -/
theorem Tracks.data (t : Tracks heap m arrivals) (data : a.isData = true)
    (clear : a.sn < ushrtMax ∨ heap a.sn = false) :
    Tracks heap (m.statistics a.clock a.packet).1 (arrivals ++ [a]) := by
  have recv := t.recv
  have ooseq := t.ooseq
  have invalid := t.invalid
  rw [t.statistics_eq data clear]
  generalize hv : verdict Arrival.sn 0 (dataArrivals arrivals) a = v
  constructor
  · exact (disposal_dropOutOfOrder m a v).trans t.mode
  · exact t.table_concat data v hv
  · exact t.highest_concat data v hv
  · rw [disposal_pktsRecv, recv, dataArrivals_concat_data data, tally_concat, hv]
    push_cast
    rfl
  · exact t.lost_concat v hv
  · rw [disposal_pktsOoseq, ooseq, dataArrivals_concat_data data, tally_concat, hv]
    push_cast
    rfl
  · rw [disposal_pktsInvalid, invalid, dataArrivals_concat_data data, tally_concat, hv]
    push_cast [List.length_append, List.length_singleton]
    ring

end Step

/-- The invariant holds after every arrival sequence that stays clear of set cells
behind the table. -/
theorem tracks_recvAll {heap : Nat → Bool} {b : Bound} (drop : b.dropOutOfOrder = 1)
    (listener : Bool) {arrivals : List Arrival} (clear : Clear heap arrivals) :
    Tracks heap ((UwAppNetModule.fresh heap b listener).recvAll arrivals) arrivals := by
  induction arrivals using List.reverseRecOn with
  | nil => exact tracks_fresh heap b drop listener
  | append_singleton arrivals a ih =>
      have t := ih clear.earlier
      rw [UwAppNetModule.recvAll_concat]
      cases data : a.isData with
      | false => exact t.foreign data
      | true => exact t.data data (clear.last data)

/-! ### Exact classification -/

theorem mem_dataArrivals {arrivals : List Arrival} {e : Arrival} :
    e ∈ dataArrivals arrivals ↔ e ∈ arrivals ∧ e.isData = true := by
  simp [dataArrivals]

/-- The exit of a data packet is the disposal of its verdict. -/
theorem exitAfter_eq {heap : Nat → Bool} {b : Bound} (drop : b.dropOutOfOrder = 1)
    {listener : Bool} {earlier : List Arrival} {a : Arrival} (clear : Clear heap (earlier ++ [a]))
    (data : a.isData = true) :
    (UwAppNetModule.fresh heap b listener).exitAfter earlier a =
      (disposal ((UwAppNetModule.fresh heap b listener).recvAll earlier) a
        (verdict Arrival.sn 0 (dataArrivals earlier) a)).2 := by
  have t := tracks_recvAll drop listener clear.earlier
  rw [UwAppNetModule.exitAfter, t.statistics_eq data (clear.last data)]

/-- The three exits of a data packet, in terms of the data packets before it. -/
theorem exitAfter_classified {heap : Nat → Bool} {b : Bound} (drop : b.dropOutOfOrder = 1)
    (listener : Bool) {earlier : List Arrival} {a : Arrival} (clear : Clear heap (earlier ++ [a]))
    (data : a.isData = true) :
    let exit := (UwAppNetModule.fresh heap b listener).exitAfter earlier a
    let highest := 0 < a.sn ∧ ∀ e ∈ dataArrivals earlier, e.sn < a.sn
    let repeats := ∃ e ∈ dataArrivals earlier, e.sn = a.sn
    (exit.accepted = true ↔ highest) ∧
      (exit = .drop .duplicatedPacket ↔ repeats) ∧
      (exit = .drop .outOfSequence ↔ ¬ highest ∧ ¬ repeats) := by
  intro exit highest repeats
  have record : verdict Arrival.sn 0 (dataArrivals earlier) a = .record ↔ highest :=
    verdict_eq_record_iff
  have repeated : verdict Arrival.sn 0 (dataArrivals earlier) a = .repeated ↔ repeats :=
    verdict_eq_repeated_iff
  have eq : exit = _ := exitAfter_eq drop clear data
  rw [eq, disposal_accepted, decide_eq_true_iff, record]
  refine ⟨Iff.rfl, ?_, ?_⟩
  · rw [← repeated]
    cases verdict Arrival.sn 0 (dataArrivals earlier) a <;> simp [disposal]
  · rw [← record, ← repeated]
    cases verdict Arrival.sn 0 (dataArrivals earlier) a <;> simp [disposal]

/-- An accepted packet goes to the listener whole, if there is one. -/
theorem exitAfter_of_accepted {heap : Nat → Bool} {b : Bound} (drop : b.dropOutOfOrder = 1)
    {listener : Bool} {earlier : List Arrival} {a : Arrival}
    (acc : ((UwAppNetModule.fresh heap b listener).exitAfter earlier a).accepted = true) :
    (UwAppNetModule.fresh heap b listener).exitAfter earlier a =
      .accept (if listener then some a.packet.payload else none) := by
  have d := (dropping_fresh heap drop listener).recvAll earlier
  obtain ⟨-, -, -, eq⟩ := d.of_accepted acc
  rw [UwAppNetModule.recvAll_pTcpListener] at eq
  exact eq

/-- What reaches `send_data` are the payloads of the strict running maxima. -/
theorem sentData_eq {heap : Nat → Bool} {b : Bound} (drop : b.dropOutOfOrder = 1)
    {arrivals : List Arrival} (clear : Clear heap arrivals) :
    (UwAppNetModule.fresh heap b true).sentData arrivals =
      (records Arrival.sn 0 (dataArrivals arrivals)).map fun a => a.packet.payload := by
  induction arrivals using List.reverseRecOn with
  | nil => rfl
  | append_singleton arrivals a ih =>
      rw [UwAppNetModule.sentData_concat, ih clear.earlier]
      cases data : a.isData with
      | false =>
          have wrong : a.packet.ch.ptype ≠ .dataApplication := by
            simpa [Arrival.isData] using data
          rw [dataArrivals_concat_other data, UwAppNetModule.exitAfter,
            UwAppNetModule.statistics_wrong_type wrong]
          simp [Exit.sent]
      | true =>
          have exit := (exitAfter_classified drop true clear data).1
          rw [dataArrivals_concat_data data, records_concat, ← peak_lt_iff] at *
          by_cases above : peak Arrival.sn 0 (dataArrivals arrivals) < a.sn
          · rw [exitAfter_of_accepted drop (exit.mpr above), if_pos above]
            simp [Exit.sent]
          · have rejected := mt exit.mp above
            rw [if_neg above]
            cases h : (UwAppNetModule.fresh heap b true).exitAfter arrivals a with
            | accept d => simp [h, Exit.accepted] at rejected
            | drop reason => simp [Exit.sent]

section DataOnly

variable {heap : Nat → Bool} {b : Bound} {listener : Bool} {arrivals : List Arrival}

/-- Among data packets alone a packet is accepted when its number is above all before. -/
theorem accepted_iff_of_data (drop : b.dropOutOfOrder = 1)
    (data : ∀ a ∈ arrivals, a.isData = true) (clear : Clear heap arrivals)
    {earlier later : List Arrival} {a : Arrival} (split : arrivals = earlier ++ a :: later) :
    ((UwAppNetModule.fresh heap b listener).exitAfter earlier a).accepted = true ↔
      0 < a.sn ∧ ∀ e ∈ earlier, e.sn < a.sn := by
  subst split
  have upTo : earlier ++ a :: later = earlier ++ [a] ++ later := by simp
  have dataEarlier : dataArrivals earlier = earlier :=
    List.filter_eq_self.mpr fun e he => data e (by simp [he])
  have exit := (exitAfter_classified drop listener
    (upTo ▸ clear).earlier (data a (by simp))).1
  rwa [dataEarlier] at exit

/-- A packet that reads a set cell behind the table is not accepted. -/
theorem clear_of_accepted (drop : b.dropOutOfOrder = 1)
    (all : ∀ earlier a later, arrivals = earlier ++ a :: later →
      ((UwAppNetModule.fresh heap b listener).exitAfter earlier a).accepted = true) :
    Clear heap arrivals := by
  intro a ha _
  obtain ⟨earlier, later, eq⟩ := List.append_of_mem ha
  have fresh := dropping_fresh heap drop listener
  have unseen := ((fresh.recvAll earlier).of_accepted (all earlier a later eq)).1
  by_contra set
  simp only [not_or, not_lt, Bool.not_eq_false] at set
  have start : (UwAppNetModule.fresh heap b listener).snCheck a.sn = true := by
    simp [UwAppNetModule.fresh, UwAppNetModule.init, not_lt.mpr set.1, set.2]
  have still := fresh.recvAll_snCheck_mono earlier start
  rw [Arrival.sn, unseen] at still
  cases still

/-- Every packet of a sequence of data packets is accepted exactly when the numbers
increase strictly from above zero and no set cell behind the table is read. -/
theorem accepts_all_iff (drop : b.dropOutOfOrder = 1)
    (data : ∀ a ∈ arrivals, a.isData = true) :
    (∀ earlier a later, arrivals = earlier ++ a :: later →
        ((UwAppNetModule.fresh heap b listener).exitAfter earlier a).accepted = true) ↔
      Clear heap arrivals ∧ (∀ a ∈ arrivals, 0 < a.sn) ∧ arrivals.Pairwise (·.sn < ·.sn) := by
  constructor
  · intro all
    have clear := clear_of_accepted drop all
    refine ⟨clear, ?_, ?_⟩
    · intro a ha
      obtain ⟨earlier, later, eq⟩ := List.append_of_mem ha
      exact ((accepted_iff_of_data drop data clear eq).mp (all earlier a later eq)).1
    · rw [List.pairwise_iff_getElem]
      intro i j hi hj lt
      have eq : arrivals = arrivals.take j ++ arrivals[j] :: arrivals.drop (j + 1) := by simp
      have above := ((accepted_iff_of_data drop data clear eq).mp (all _ _ _ eq)).2
      apply above
      rw [List.mem_take_iff_getElem]
      exact ⟨i, by omega, rfl⟩
  · rintro ⟨clear, positive, increasing⟩ earlier a later eq
    rw [accepted_iff_of_data drop data clear eq]
    subst eq
    refine ⟨positive a (by simp), fun e he => ?_⟩
    exact (List.pairwise_append.mp increasing).2.2 e he a List.mem_cons_self

end DataOnly

/-- The statistics of a run in drop mode: the highest number is the running
maximum, receptions are the strict running maxima, losses the numbers below the
maximum that were not received, and the rest is split between late first arrivals,
repetitions and foreign packets. -/
theorem counters_recvAll {heap : Nat → Bool} {b : Bound} (drop : b.dropOutOfOrder = 1)
    (listener : Bool) {arrivals : List Arrival} (clear : Clear heap arrivals) :
    let m := (UwAppNetModule.fresh heap b listener).recvAll arrivals
    let data := dataArrivals arrivals
    m.hrsn = peak Arrival.sn 0 data ∧
      m.pktsRecv = (records Arrival.sn 0 data).length ∧
      m.pktsLost = m.hrsn - m.pktsRecv ∧
      m.pktsOoseq = tally Arrival.sn 0 data .late ∧
      m.pktsInvalid = tally Arrival.sn 0 data .repeated +
        arrivals.countP (fun a => !a.isData) ∧
      m.pktsRecv + m.pktsOoseq + m.pktsInvalid = arrivals.length := by
  intro m data
  have t : Tracks heap m arrivals := tracks_recvAll drop listener clear
  have lost := t.lost
  have recv : m.pktsRecv = tally Arrival.sn 0 data .record := t.recv
  have ooseq : m.pktsOoseq = tally Arrival.sn 0 data .late := t.ooseq
  have invalid : m.pktsInvalid = tally Arrival.sn 0 data .repeated +
    (arrivals.length - data.length : Int) := t.invalid
  have total := tally_total Arrival.sn 0 data
  have split : arrivals.length = data.length + arrivals.countP (fun a => !a.isData) := by
    have h := List.length_eq_countP_add_countP (p := Arrival.isData) (l := arrivals)
    rw [h, List.countP_eq_length_filter]
    simp [data, dataArrivals]
  refine ⟨t.highest, ?_, ?_, ooseq, ?_, ?_⟩
  · rw [← tally_record]
    exact recv
  · omega
  · omega
  · omega

/-- No counter of the receive path leaves the range of `int` before the number of
calls does. -/
theorem counters_bounded {heap : Nat → Bool} {b : Bound} (drop : b.dropOutOfOrder = 1)
    (listener : Bool) {arrivals : List Arrival} (clear : Clear heap arrivals) :
    let m := (UwAppNetModule.fresh heap b listener).recvAll arrivals
    (0 ≤ m.pktsRecv ∧ m.pktsRecv ≤ arrivals.length) ∧
      (0 ≤ m.pktsOoseq ∧ m.pktsOoseq ≤ arrivals.length) ∧
      (0 ≤ m.pktsInvalid ∧ m.pktsInvalid ≤ arrivals.length) ∧
      m.pktsLost < 2 ^ 16 := by
  have counts := counters_recvAll drop listener clear
  generalize (UwAppNetModule.fresh heap b listener).recvAll arrivals = m at counts ⊢
  obtain ⟨highest, recv, lost, ooseq, invalid, total⟩ := counts
  dsimp only
  have small := peak_small (dataArrivals arrivals)
  refine ⟨⟨?_, ?_⟩, ⟨?_, ?_⟩, ⟨?_, ?_⟩, ?_⟩ <;> omega

/-- Drop mode classifies every arrival by the running maximum of the data packets
before it, and the counters are the counts of that classification. They fit their
`int` members as long as the number of calls does: `counters_bounded`. -/
theorem drop_mode_classification (heap : Nat → Bool) (b : Bound) (drop : b.dropOutOfOrder = 1)
    (listener : Bool) (arrivals : List Arrival)
    (inTable : ∀ a ∈ arrivals, a.isData = true → a.sn < ushrtMax) :
    (∀ earlier a later, arrivals = earlier ++ a :: later →
      let exit := (UwAppNetModule.fresh heap b listener).exitAfter earlier a
      let highest := 0 < a.sn ∧ ∀ e ∈ earlier, e.isData = true → e.sn < a.sn
      let repeats := ∃ e ∈ earlier, e.isData = true ∧ e.sn = a.sn
      (a.isData = false → exit = .drop .unknownType) ∧
        (a.isData = true →
          (exit.accepted = true ↔ highest) ∧
          (exit = .drop .duplicatedPacket ↔ repeats) ∧
          (exit = .drop .outOfSequence ↔ ¬ highest ∧ ¬ repeats))) ∧
      (let m := (UwAppNetModule.fresh heap b listener).recvAll arrivals
       let data := dataArrivals arrivals
       m.hrsn = peak Arrival.sn 0 data ∧
         m.pktsRecv = (records Arrival.sn 0 data).length ∧
         m.pktsLost = m.hrsn - m.pktsRecv ∧
         m.pktsOoseq = tally Arrival.sn 0 data .late ∧
         m.pktsInvalid = tally Arrival.sn 0 data .repeated +
           arrivals.countP (fun a => !a.isData) ∧
         m.pktsRecv + m.pktsOoseq + m.pktsInvalid = arrivals.length) := by
  refine ⟨?_, counters_recvAll drop listener fun a ha data => .inl (inTable a ha data)⟩
  rintro earlier a later rfl
  intro exit highest repeats
  constructor
  · intro other
    have wrong : a.packet.ch.ptype ≠ .dataApplication := by
      intro ptype
      rw [isData_iff.mpr ptype] at other
      cases other
    exact congrArg Prod.snd (UwAppNetModule.statistics_wrong_type wrong)
  · intro data
    have clear : Clear heap (earlier ++ [a]) := fun e he isData =>
      .inl (inTable e (by simp only [List.mem_append, List.mem_cons] at he ⊢; tauto) isData)
    have classified := exitAfter_classified drop listener clear data
    simpa only [mem_dataArrivals, and_imp, and_assoc] using classified

/-- A data packet without a message, arriving at time 0. -/
def emptyArrival (sn : UInt16) : Arrival :=
  ⟨0, { ch := ⟨0, .dataApplication, .up, 0, 0⟩, dport := 0, daddr := 0
        uwApph := ⟨sn, 0, false, 0, 0, fun _ => 0⟩ }⟩

/-- Of the numbers 3, 1, 3 the first is accepted, the second late, the third a
repetition. -/
theorem three_arrivals_classified :
    let m := (UwAppNetModule.fresh (fun _ => false) ⟨1, 0, 0⟩ true).recvAll
      ([3, 1, 3].map emptyArrival)
    m.hrsn = 3 ∧ m.pktsRecv = 1 ∧ m.pktsLost = 2 ∧ m.pktsOoseq = 1 ∧ m.pktsInvalid = 1 := by
  intro m
  have inTable : ∀ a ∈ [3, 1, 3].map emptyArrival, a.isData = true → a.sn < ushrtMax := by
    decide
  obtain ⟨-, highest, recv, lost, ooseq, invalid, -⟩ :=
    drop_mode_classification (fun _ => false) ⟨1, 0, 0⟩ rfl true _ inTable
  have one : m.pktsRecv = 1 := recv
  have three : m.hrsn = 3 := highest
  refine ⟨three, one, ?_, ooseq, invalid⟩
  exact lost.trans (congrArg₂ (· - ·) three one)

end UwAppNet
