import UwAppNet.Reception

/-!
The figures a module reports: what `statistics` adds to them when it accepts a packet,
and that it adds nothing otherwise.
-/

namespace UwAppNet

/-- The members behind the reported statistics that only accepted packets change. -/
structure Figures where
  hrsn : Int
  pktsRecv : Int
  pktsLost : Int
  rftt : Int
  lrtime : ℚ
  sumrtt : ℚ
  sumrtt2 : ℚ
  rttsamples : Int
  sumftt : ℚ
  sumftt2 : ℚ
  fttsamples : Int
  sumbytes : ℚ
  sumdt : ℚ

/-- `clock - timestamp`, the time the packet was under way. -/
def Arrival.tripTime (a : Arrival) : ℚ := a.clock - a.packet.ch.timestamp

/-- The figures after one more accepted packet. A `bool` divided by 10000 is 0, so no
packet adds a sample to the round trip times. -/
def Figures.accept (f : Figures) (dropping : Bool) (a : Arrival) : Figures where
  hrsn := a.sn
  pktsRecv := f.pktsRecv + 1
  pktsLost := f.pktsLost +
    let esn := UInt32.ofInt (f.hrsn + 1)
    if dropping && decide (a.packet.uwApph.sn.toUInt32 > esn) then
      uint32ToInt (a.packet.uwApph.sn.toUInt32 - esn)
    else 0
  rftt := truncToInt a.tripTime
  lrtime := a.clock
  sumrtt := f.sumrtt
  sumrtt2 := f.sumrtt2
  rttsamples := f.rttsamples
  sumftt := f.sumftt + truncToInt a.tripTime
  sumftt2 := f.sumftt2 + truncToInt a.tripTime * truncToInt a.tripTime
  fttsamples := f.fttsamples + 1
  sumbytes := f.sumbytes + a.packet.uwApph.payloadSize.toNat
  sumdt := f.sumdt + (a.clock - f.lrtime)

namespace UwAppNetModule

/-- The packet passes every check of `statistics`. -/
def admits (m : UwAppNetModule) (p : Packet) : Bool :=
  p.ch.ptype == .dataApplication &&
    !(m.useDropOutOfOrder && (m.snCheck (snIndex p.uwApph.sn) ||
      decide (p.uwApph.sn.toUInt32 < UInt32.ofInt (m.hrsn + 1))))

def figures (m : UwAppNetModule) : Figures where
  hrsn := m.hrsn
  pktsRecv := m.pktsRecv
  pktsLost := m.pktsLost
  rftt := m.rftt
  lrtime := m.lrtime
  sumrtt := m.sumrtt
  sumrtt2 := m.sumrtt2
  rttsamples := m.rttsamples
  sumftt := m.sumftt
  sumftt2 := m.sumftt2
  fttsamples := m.fttsamples
  sumbytes := m.sumbytes
  sumdt := m.sumdt

variable {m : UwAppNetModule} {a : Arrival}

/-- With the order check off every data packet passes. -/
theorem admits_off (off : m.dropOutOfOrder ≠ 1) : m.admits a.packet = a.isData := by
  simp [admits, useDropOutOfOrder, off, Arrival.isData]

/-- What the accepting part of `statistics` does to the figures. -/
theorem figures_accept (expected : m.esn = UInt32.ofInt (m.hrsn + 1)) :
    (m.accept a.clock a.packet).1.figures = m.figures.accept m.useDropOutOfOrder a := by
  rw [accept_eq, expected]
  rfl

/-- `statistics` accepts exactly the packets that pass its checks. -/
theorem statistics_cases (m : UwAppNetModule) (a : Arrival) :
    (m.admits a.packet = true ∧ m.statistics a.clock a.packet =
        (m.expectNext.mark a.packet.uwApph.sn).accept a.clock a.packet) ∨
      (m.admits a.packet = false ∧ ∃ m' reason, m.statistics a.clock a.packet =
        (m', .drop reason) ∧ m'.figures = m.figures) := by
  by_cases data : a.packet.ch.ptype = .dataApplication
  · by_cases mode : m.dropOutOfOrder = 1
    · cases seen : m.snCheck a.packet.uwApph.sn.toNat with
      | true =>
          refine .inr ⟨by simp [admits, data, useDropOutOfOrder, mode, seen], _, _,
            statistics_duplicate data mode seen, rfl⟩
      | false =>
          by_cases late : a.packet.uwApph.sn.toUInt32 < UInt32.ofInt (m.hrsn + 1)
          · refine .inr ⟨?_, _, _, statistics_late data mode seen late, rfl⟩
            simp [admits, data, useDropOutOfOrder, mode, late, -UInt32.ofInt_add]
          · refine .inl ⟨?_, statistics_accept data mode seen late⟩
            simp [admits, data, seen, late, -UInt32.ofInt_add]
    · refine .inl ⟨by simp [admits, data, useDropOutOfOrder, mode], ?_⟩
      simp [statistics, data, useDropOutOfOrder, mode, expectNext, mark]
  · exact .inr ⟨by simp [admits, data], m.incrPktInvalid, .unknownType,
      statistics_wrong_type data, rfl⟩

theorem accepted_statistics (m : UwAppNetModule) (a : Arrival) :
    (m.statistics a.clock a.packet).2.accepted = m.admits a.packet := by
  rcases statistics_cases m a with ⟨admitted, eq⟩ | ⟨rejected, m', reason, eq, -⟩
  · rw [eq, accept_exit, admitted]
    rfl
  · rw [eq, rejected]
    rfl

/-- Only an accepted packet changes the figures. -/
theorem figures_statistics (m : UwAppNetModule) (a : Arrival) :
    (m.statistics a.clock a.packet).1.figures =
      if m.admits a.packet then m.figures.accept m.useDropOutOfOrder a else m.figures := by
  rcases statistics_cases m a with ⟨admitted, eq⟩ | ⟨rejected, m', reason, eq, same⟩
  · rw [eq, if_pos admitted]
    exact figures_accept rfl
  · rw [eq, if_neg (by simp [rejected])]
    exact same

/-- The payload of an accepted packet goes to the listener, if there is one. -/
theorem sent_statistics (m : UwAppNetModule) (a : Arrival) :
    (m.statistics a.clock a.packet).2.sent =
      if m.admits a.packet && m.pTcpListener then [a.packet.payload] else [] := by
  rcases statistics_cases m a with ⟨admitted, eq⟩ | ⟨rejected, m', reason, eq, -⟩
  · rw [eq, accept_exit, admitted]
    cases listener : m.pTcpListener <;> simp [Exit.sent, expectNext, mark, listener]
  · rw [eq, rejected]
    rfl

end UwAppNetModule

end UwAppNet
