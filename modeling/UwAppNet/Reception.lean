import UwAppNet.Module
import Mathlib.Data.List.Induction

/-!
The receive path of `uwAppNetModule`: what one call of `statistics` does on each
of its exits, and the runs of calls the results are about.
-/

namespace UwAppNet

/-! ### One call of `statistics` -/

@[simp] theorem snIndex_eq (sn : UInt16) : snIndex sn = sn.toNat := by
  have h : sn.toNat < 2 ^ 16 := sn.toNat_lt
  rw [snIndex, show (0x00ffffff : Nat) = 2 ^ 24 - 1 from rfl, Nat.and_two_pow_sub_one_eq_mod]
  exact Nat.mod_eq_of_lt (by omega)

namespace UwAppNetModule

variable {m : UwAppNetModule} {clock : ℚ} {p : Packet}

/-- The state after `esn = hrsn + 1`. -/
def expectNext (m : UwAppNetModule) : UwAppNetModule :=
  { m with esn := UInt32.ofInt (m.hrsn + 1) }

/-- The state after `sn_check[sn & 0x00ffffff] = true`. -/
def mark (m : UwAppNetModule) (sn : UInt16) : UwAppNetModule :=
  { m with snCheck := Function.update m.snCheck (snIndex sn) true }

/-- The checks of `statistics` in turn, and what each exit does. -/
theorem statistics_eq : m.statistics clock p =
    if p.ch.ptype ≠ .dataApplication then (m.incrPktInvalid, .drop .unknownType)
    else if m.useDropOutOfOrder && m.snCheck (snIndex p.uwApph.sn) then
      (m.expectNext.incrPktInvalid, .drop .duplicatedPacket)
    else if m.useDropOutOfOrder &&
        decide (p.uwApph.sn.toUInt32 < UInt32.ofInt (m.hrsn + 1)) then
      ((m.expectNext.mark p.uwApph.sn).incrPktOoseq, .drop .outOfSequence)
    else (m.expectNext.mark p.uwApph.sn).accept clock p := rfl

theorem statistics_wrong_type (wrong : p.ch.ptype ≠ .dataApplication) :
    m.statistics clock p = (m.incrPktInvalid, .drop .unknownType) := by
  simp [statistics, wrong]

theorem statistics_duplicate (data : p.ch.ptype = .dataApplication)
    (mode : m.dropOutOfOrder = 1) (seen : m.snCheck p.uwApph.sn.toNat = true) :
    m.statistics clock p = (m.expectNext.incrPktInvalid, .drop .duplicatedPacket) := by
  simp [statistics, data, useDropOutOfOrder, mode, seen, expectNext]

theorem statistics_late (data : p.ch.ptype = .dataApplication)
    (mode : m.dropOutOfOrder = 1) (unseen : m.snCheck p.uwApph.sn.toNat = false)
    (late : p.uwApph.sn.toUInt32 < UInt32.ofInt (m.hrsn + 1)) :
    m.statistics clock p =
      ((m.expectNext.mark p.uwApph.sn).incrPktOoseq, .drop .outOfSequence) := by
  simp [statistics, data, useDropOutOfOrder, mode, unseen, late, expectNext, mark,
    -UInt32.ofInt_add]

theorem statistics_accept (data : p.ch.ptype = .dataApplication)
    (mode : m.dropOutOfOrder = 1) (unseen : m.snCheck p.uwApph.sn.toNat = false)
    (due : ¬ p.uwApph.sn.toUInt32 < UInt32.ofInt (m.hrsn + 1)) :
    m.statistics clock p = (m.expectNext.mark p.uwApph.sn).accept clock p := by
  simp [statistics, data, useDropOutOfOrder, mode, unseen, due, expectNext, mark,
    -UInt32.ofInt_add]

/-- A `bool` divided by 10000 is 0: `statistics` never takes the sender's trip time for
sent. -/
theorem rtt_never_updated (valid : Bool) (rtt : ℚ) :
    (if (boolToInt valid).tdiv 10000 ≠ 0 then m.updateRTT rtt else m) = m := by
  cases valid <;> rfl

theorem incrPktLost_if (gap : Bool) (npkts : Int) :
    (if gap then m.incrPktLost npkts else m) =
      { m with pktsLost := m.pktsLost + if gap then npkts else 0 } := by
  cases gap with
  | true => rfl
  | false => simp

/-- All that the accepting part of `statistics` does: there is never a round trip time,
and in drop mode the gap before the packet is added to the losses. -/
theorem accept_eq : m.accept clock p =
    ({ m with
        rftt := truncToInt (clock - p.ch.timestamp)
        sumftt := m.sumftt + truncToInt (clock - p.ch.timestamp)
        sumftt2 := m.sumftt2 +
          truncToInt (clock - p.ch.timestamp) * truncToInt (clock - p.ch.timestamp)
        fttsamples := m.fttsamples + 1
        hrsn := p.uwApph.sn.toNat
        pktsLost := m.pktsLost +
          if m.useDropOutOfOrder && decide (p.uwApph.sn.toUInt32 > m.esn) then
            uint32ToInt (p.uwApph.sn.toUInt32 - m.esn)
          else 0
        sumbytes := m.sumbytes + (p.uwApph.payloadSize.toNat : Int)
        sumdt := m.sumdt + (clock - m.lrtime)
        pktsRecv := m.pktsRecv + 1
        lrtime := clock },
      .accept (if m.pTcpListener then some p.payload else none)) := by
  simp only [accept, rtt_never_updated, incrPktLost_if]
  rfl

@[simp] theorem accept_exit : (m.accept clock p).2 =
    .accept (if m.pTcpListener then some p.payload else none) := by
  rw [accept_eq]

@[simp] theorem accept_dropOutOfOrder :
    (m.accept clock p).1.dropOutOfOrder = m.dropOutOfOrder := by
  rw [accept_eq]

@[simp] theorem accept_pTcpListener :
    (m.accept clock p).1.pTcpListener = m.pTcpListener := by
  rw [accept_eq]

@[simp] theorem accept_snCheck : (m.accept clock p).1.snCheck = m.snCheck := by
  rw [accept_eq]

@[simp] theorem accept_hrsn : (m.accept clock p).1.hrsn = p.uwApph.sn.toNat := by
  rw [accept_eq]

@[simp] theorem accept_esn : (m.accept clock p).1.esn = m.esn := by
  rw [accept_eq]

@[simp] theorem accept_pktsRecv : (m.accept clock p).1.pktsRecv = m.pktsRecv + 1 := by
  rw [accept_eq]

@[simp] theorem accept_pktsOoseq : (m.accept clock p).1.pktsOoseq = m.pktsOoseq := by
  rw [accept_eq]

@[simp] theorem accept_pktsInvalid : (m.accept clock p).1.pktsInvalid = m.pktsInvalid := by
  rw [accept_eq]

/-- In drop mode an accepted packet adds the gap before it to the losses. -/
theorem accept_pktsLost (mode : m.dropOutOfOrder = 1) :
    (m.accept clock p).1.pktsLost = m.pktsLost +
      if p.uwApph.sn.toUInt32 > m.esn then uint32ToInt (p.uwApph.sn.toUInt32 - m.esn) else 0 := by
  simp [accept_eq, useDropOutOfOrder, mode]

end UwAppNetModule

/-! ### The mixed-width comparisons -/

theorem toNat_expected {h : Nat} (small : h < 2 ^ 16) :
    (UInt32.ofInt ((h : Int) + 1)).toNat = h + 1 := by
  have : (((h : Int) + 1) % 2 ^ 32).toNat = h + 1 := by omega
  rw [UInt32.ofInt, this, UInt32.toNat_ofNat']
  omega

/-- `sn_ < esn` compares as unsigned 32-bit numbers, which changes nothing here. -/
theorem lt_expected_iff (sn : UInt16) {h : Nat} (small : h < 2 ^ 16) :
    sn.toUInt32 < UInt32.ofInt ((h : Int) + 1) ↔ sn.toNat ≤ h := by
  rw [UInt32.lt_iff_toNat_lt, toNat_expected small, UInt16.toNat_toUInt32]
  omega

/-- A difference of small numbers survives the conversion to `int`. -/
theorem uint32ToInt_sub {a b : UInt32} (le : b ≤ a) (small : a.toNat < 2 ^ 16) :
    uint32ToInt (a - b) = (a.toNat : Int) - b.toNat := by
  have leNat := UInt32.le_iff_toNat_le.mp le
  have diff : ((a - b).toNat : Int) = a.toNat - b.toNat := by
    rw [UInt32.toNat_sub_of_le _ _ le, Int.ofNat_sub leNat]
  unfold uint32ToInt
  generalize ((a - b).toNat : Int) = d at diff
  exact (Int.bmod_eq_of_le (by omega) (by omega)).trans diff

/-- The loss increment of an accepted packet is the gap to the expected number. -/
theorem gap_eq (sn : UInt16) {h : Nat} (due : h < sn.toNat) :
    (if sn.toUInt32 > UInt32.ofInt ((h : Int) + 1)
      then uint32ToInt (sn.toUInt32 - UInt32.ofInt ((h : Int) + 1)) else 0) =
      (sn.toNat : Int) - (h + 1) := by
  have bound : sn.toNat < 2 ^ 16 := sn.toNat_lt
  have expected := toNat_expected (h := h) (by omega)
  have width := UInt16.toNat_toUInt32 sn
  by_cases gap : UInt32.ofInt ((h : Int) + 1) < sn.toUInt32
  · rw [if_pos gap, uint32ToInt_sub (UInt32.le_of_lt gap) (by omega), width, expected]
    rfl
  · have le := mt UInt32.lt_iff_toNat_lt.mpr gap
    rw [if_neg gap]
    omega

/-! ### Arrival sequences -/

/-- A packet handed to `statistics` at a scheduler time. -/
structure Arrival where
  clock : ℚ
  packet : Packet

def Arrival.sn (a : Arrival) : Nat := a.packet.uwApph.sn.toNat

def Arrival.isData (a : Arrival) : Bool := a.packet.ch.ptype == .dataApplication

/-- The data packets of an arrival sequence. -/
def dataArrivals (arrivals : List Arrival) : List Arrival := arrivals.filter Arrival.isData

/-- The packet was accepted, whether or not there was a listener to send it to. -/
def Exit.accepted : Exit → Bool
  | .accept _ => true
  | .drop _ => false

/-- The payload passed to `send_data`, if any. -/
def Exit.sent : Exit → List (List UInt8)
  | .accept (some data) => [data]
  | _ => []

namespace UwAppNetModule

/-- A freshly constructed module, with or without a listener started since. -/
def fresh (heap : Nat → Bool) (b : Bound) (listener : Bool) : UwAppNetModule :=
  { init heap b with pTcpListener := listener }

/-- `recv` for every packet of a sequence. -/
def recvAll (m : UwAppNetModule) (arrivals : List Arrival) : UwAppNetModule :=
  arrivals.foldl (fun m a => (m.statistics a.clock a.packet).1) m

/-- The exit `statistics` takes on `a` once the earlier packets were handled. -/
def exitAfter (m : UwAppNetModule) (earlier : List Arrival) (a : Arrival) : Exit :=
  ((m.recvAll earlier).statistics a.clock a.packet).2

@[simp] theorem recvAll_nil (m : UwAppNetModule) : m.recvAll [] = m := rfl

@[simp] theorem recvAll_concat (m : UwAppNetModule) (arrivals : List Arrival) (a : Arrival) :
    m.recvAll (arrivals ++ [a]) = ((m.recvAll arrivals).statistics a.clock a.packet).1 := by
  simp [recvAll]

theorem recvAll_append (m : UwAppNetModule) (xs ys : List Arrival) :
    m.recvAll (xs ++ ys) = (m.recvAll xs).recvAll ys := by
  simp [recvAll]

/-- The payloads the calls hand to `send_data`, in order. -/
def sentData (m : UwAppNetModule) : List Arrival → List (List UInt8)
  | [] => []
  | a :: arrivals =>
      let r := m.statistics a.clock a.packet
      r.2.sent ++ r.1.sentData arrivals

theorem sentData_append (m : UwAppNetModule) (xs ys : List Arrival) :
    m.sentData (xs ++ ys) = m.sentData xs ++ (m.recvAll xs).sentData ys := by
  induction xs generalizing m with
  | nil => rfl
  | cons a xs ih =>
      simp only [List.cons_append, sentData, ih, List.append_assoc]
      rfl

@[simp] theorem sentData_concat (m : UwAppNetModule) (arrivals : List Arrival) (a : Arrival) :
    m.sentData (arrivals ++ [a]) = m.sentData arrivals ++ (m.exitAfter arrivals a).sent := by
  simp [sentData_append, sentData, exitAfter]

theorem statistics_pTcpListener (m : UwAppNetModule) (clock : ℚ) (p : Packet) :
    (m.statistics clock p).1.pTcpListener = m.pTcpListener := by
  unfold statistics
  split
  · rfl
  · dsimp only
    split
    · rfl
    · split <;> simp [incrPktOoseq]

@[simp] theorem recvAll_pTcpListener (m : UwAppNetModule) (arrivals : List Arrival) :
    (m.recvAll arrivals).pTcpListener = m.pTcpListener := by
  induction arrivals using List.reverseRecOn with
  | nil => rfl
  | append_singleton arrivals a ih => rw [recvAll_concat, statistics_pTcpListener, ih]

end UwAppNetModule

@[simp] theorem dataArrivals_concat_data {arrivals : List Arrival} {a : Arrival}
    (data : a.isData = true) : dataArrivals (arrivals ++ [a]) = dataArrivals arrivals ++ [a] := by
  simp [dataArrivals, data]

@[simp] theorem dataArrivals_concat_other {arrivals : List Arrival} {a : Arrival}
    (other : a.isData = false) : dataArrivals (arrivals ++ [a]) = dataArrivals arrivals := by
  simp [dataArrivals, other]

/-- No data packet of the sequence reads a set cell before it was marked: its
number lies inside the table, or the cell behind the table happens to be clear. -/
def Clear (heap : Nat → Bool) (arrivals : List Arrival) : Prop :=
  ∀ a ∈ arrivals, a.isData = true → a.sn < ushrtMax ∨ heap a.sn = false

theorem Clear.earlier {heap : Nat → Bool} {earlier later : List Arrival}
    (h : Clear heap (earlier ++ later)) : Clear heap earlier :=
  fun a ha => h a (List.mem_append_left _ ha)

theorem Clear.last {heap : Nat → Bool} {earlier : List Arrival} {a : Arrival}
    (h : Clear heap (earlier ++ [a])) (data : a.isData = true) :
    a.sn < ushrtMax ∨ heap a.sn = false :=
  h a (by simp) data

end UwAppNet
