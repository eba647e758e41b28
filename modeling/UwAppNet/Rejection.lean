import UwAppNet.DropMode
import UwAppNet.Figures

/-!
Rejected packets leave no trace in drop mode.

A run is compared with the run of its accepted packets alone. `esn` and the table of
seen numbers differ between the two, because `statistics` writes both before it
decides; `Agree` says what does not.
-/

namespace UwAppNet

open UwAppNetModule

/-- The arrivals of a sequence that `statistics` accepts. -/
def UwAppNetModule.survivors (m : UwAppNetModule) : List Arrival → List Arrival
  | [] => []
  | a :: arrivals =>
      let r := m.statistics a.clock a.packet
      if r.2.accepted then a :: r.1.survivors arrivals else r.1.survivors arrivals

section Checks

variable {m : UwAppNetModule} {a : Arrival}

/-- In drop mode a packet passes the checks exactly when it is a data packet, its cell
is clear and its number lies above the highest one. -/
theorem Dropping.admits_iff (d : Dropping m) : m.admits a.packet = true ↔
    a.isData = true ∧ m.snCheck a.sn = false ∧ m.hrsn < a.sn := by
  obtain ⟨h, small, hrsn⟩ := d.range
  have due := lt_expected_iff a.packet.uwApph.sn small
  rw [← hrsn] at due
  have mode : m.useDropOutOfOrder = true := by simp [useDropOutOfOrder, d.mode]
  have above : ¬ a.sn ≤ h ↔ m.hrsn < a.sn := by
    rw [hrsn]
    omega
  simp only [admits, mode, due, snIndex_eq, Bool.true_and, Bool.and_eq_true,
    Bool.not_eq_true', Bool.or_eq_false_iff, decide_eq_false_iff_not]
  exact and_congr Iff.rfl (and_congr Iff.rfl above)

end Checks

/-- Two receivers in drop mode with the same figures. The second has only seen accepted
packets, so no cell above its highest number is set. -/
structure Agree (m n : UwAppNetModule) : Prop where
  left : Dropping m
  right : Dropping n
  figures : m.figures = n.figures
  listener : m.pTcpListener = n.pTcpListener
  table : ∀ i, i < ushrtMax → n.snCheck i = true → (i : Int) ≤ n.hrsn

section Agree

variable {m n : UwAppNetModule} {a : Arrival}

theorem agree_fresh (heap : Nat → Bool) {b : Bound} (drop : b.dropOutOfOrder = 1)
    (listener : Bool) : Agree (fresh heap b listener) (fresh heap b listener) where
  left := dropping_fresh heap drop listener
  right := dropping_fresh heap drop listener
  figures := rfl
  listener := rfl
  table := by
    intro i inside set
    simp [fresh, init, inside] at set

/-- What the first receiver accepts the second accepts too. -/
theorem Agree.admits (inv : Agree m n) (inTable : a.sn < ushrtMax)
    (admitted : m.admits a.packet = true) : n.admits a.packet = true := by
  obtain ⟨data, -, above⟩ := inv.left.admits_iff.mp admitted
  have hrsn : m.hrsn = n.hrsn := congrArg Figures.hrsn inv.figures
  rw [hrsn] at above
  refine inv.right.admits_iff.mpr ⟨data, ?_, above⟩
  by_contra set
  have below := inv.table a.sn inTable (Bool.not_eq_false _ ▸ set)
  exact absurd above (not_lt.mpr below)

/-- A packet both accept leaves them in agreement. -/
theorem Agree.accepted (inv : Agree m n) (inTable : a.sn < ushrtMax)
    (admitted : m.admits a.packet = true) :
    Agree (m.statistics a.clock a.packet).1 (n.statistics a.clock a.packet).1 where
  left := inv.left.statistics
  right := inv.right.statistics
  figures := by
    have mode : m.useDropOutOfOrder = n.useDropOutOfOrder := by
      simp only [useDropOutOfOrder, inv.left.mode, inv.right.mode]
    rw [figures_statistics, figures_statistics, if_pos admitted,
      if_pos (inv.admits inTable admitted), inv.figures, mode]
  listener := by
    rw [statistics_pTcpListener, statistics_pTcpListener]
    exact inv.listener
  table := by
    have admitted' := inv.admits inTable admitted
    obtain ⟨-, -, above⟩ := inv.right.admits_iff.mp admitted'
    intro i inside set
    rcases statistics_cases n a with ⟨-, eq⟩ | ⟨rejected, -⟩
    · rw [eq, accept_snCheck] at set
      rw [eq, accept_hrsn]
      by_cases same : i = a.packet.uwApph.sn.toNat
      · rw [same]
      · have old : n.snCheck i = true := by
          simpa [mark, expectNext, Function.update_of_ne same] using set
        exact (inv.table i inside old).trans above.le
    · rw [admitted'] at rejected
      cases rejected

/-- A packet the first receiver rejects need not reach the second. -/
theorem Agree.rejected (inv : Agree m n) (rejected : m.admits a.packet = false) :
    Agree (m.statistics a.clock a.packet).1 n where
  left := inv.left.statistics
  right := inv.right
  figures := by
    rw [figures_statistics, if_neg (by simp [rejected])]
    exact inv.figures
  listener := by
    rw [statistics_pTcpListener]
    exact inv.listener
  table := inv.table

/-- Receivers in agreement stay so when one handles a sequence and the other only the
packets the first accepts, and both send on the same payloads. -/
theorem Agree.run (inv : Agree m n) {arrivals : List Arrival}
    (inTable : ∀ a ∈ arrivals, a.isData = true → a.sn < ushrtMax) :
    Agree (m.recvAll arrivals) (n.recvAll (m.survivors arrivals)) ∧
      m.sentData arrivals = n.sentData (m.survivors arrivals) := by
  induction arrivals generalizing m n with
  | nil => exact ⟨inv, rfl⟩
  | cons a arrivals ih =>
      obtain ⟨first, others⟩ := List.forall_mem_cons.mp inTable
      have sent := sent_statistics m a
      cases admitted : m.admits a.packet with
      | true =>
          have inside := first (inv.left.admits_iff.mp admitted).1
          have sent' := sent_statistics n a
          rw [← inv.listener, inv.admits inside admitted] at sent'
          rw [admitted] at sent
          obtain ⟨agree, same⟩ := ih (inv.accepted inside admitted) others
          have kept : m.survivors (a :: arrivals) =
              a :: (m.statistics a.clock a.packet).1.survivors arrivals := by
            simp [survivors, accepted_statistics, admitted]
          rw [kept]
          refine ⟨agree, ?_⟩
          simp only [sentData, sent, sent', same]
      | false =>
          rw [admitted] at sent
          obtain ⟨agree, same⟩ := ih (inv.rejected admitted) others
          have kept : m.survivors (a :: arrivals) =
              (m.statistics a.clock a.packet).1.survivors arrivals := by
            simp [survivors, accepted_statistics, admitted]
          rw [kept]
          refine ⟨agree, ?_⟩
          simp only [sentData, sent, same]
          rfl

end Agree

/-- In drop mode the accepted packets of a run alone, at the same times, give the same
figures and the same payloads for `send_data`. -/
theorem rejected_packets_invisible (heap : Nat → Bool) (b : Bound) (drop : b.dropOutOfOrder = 1)
    (listener : Bool) (arrivals : List Arrival)
    (inTable : ∀ a ∈ arrivals, a.isData = true → a.sn < ushrtMax) :
    let m := fresh heap b listener
    (m.recvAll arrivals).figures = (m.recvAll (m.survivors arrivals)).figures ∧
      m.sentData arrivals = m.sentData (m.survivors arrivals) := by
  intro m
  obtain ⟨agree, sent⟩ := (agree_fresh heap drop listener).run inTable
  exact ⟨agree.figures, sent⟩

/-- Of the numbers 3, 1, 3, 5 the second and the third leave no trace. -/
theorem two_rejected_packets_invisible :
    let m := fresh (fun _ => false) ⟨1, 0, 0⟩ true
    m.survivors ([3, 1, 3, 5].map emptyArrival) = [3, 5].map emptyArrival ∧
      (m.recvAll ([3, 1, 3, 5].map emptyArrival)).figures =
        (m.recvAll ([3, 5].map emptyArrival)).figures := by
  intro m
  have kept : m.survivors ([3, 1, 3, 5].map emptyArrival) = [3, 5].map emptyArrival := rfl
  obtain ⟨same, -⟩ := rejected_packets_invisible (fun _ => false) ⟨1, 0, 0⟩ rfl true
    ([3, 1, 3, 5].map emptyArrival) (by decide)
  rw [kept] at same
  exact ⟨kept, same⟩

end UwAppNet
