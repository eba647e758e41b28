import UwAppNet.DropMode
import UwAppNet.Figures
import Mathlib.Algebra.Order.Field.Basic
import Mathlib.Algebra.Order.Ring.Cast

/-!
The packet error rate after every packet of a sequence.

In drop mode `GetPER` is the ratio of two counters that only grow. With the check off
it compares the number of receptions, the newest included, with the sequence number of
the packet before it, and what comes out is a rate only if the numbers keep up.
-/

namespace UwAppNet

open UwAppNetModule

/-- The value is one a rate can have. -/
def IsRate (r : ℚ) : Prop := 0 ≤ r ∧ r ≤ 1

instance (r : ℚ) : Decidable (IsRate r) :=
  inferInstanceAs (Decidable (_ ∧ _))

/-! ### In drop mode -/

section Drop

variable {m : UwAppNetModule}

/-- Receptions and losses only grow. -/
theorem Dropping.counts_mono (d : Dropping m) (clock : ℚ) (p : Packet) :
    m.pktsRecv ≤ (m.statistics clock p).1.pktsRecv ∧
      m.pktsLost ≤ (m.statistics clock p).1.pktsLost := by
  rcases d.cases clock p with
    ⟨-, eq⟩ | ⟨-, -, eq⟩ | ⟨-, -, -, eq⟩ | ⟨-, -, above, eq⟩ <;> rw [eq]
  · exact ⟨le_refl m.pktsRecv, le_refl m.pktsLost⟩
  · exact ⟨le_refl m.pktsRecv, le_refl m.pktsLost⟩
  · exact ⟨le_refl m.pktsRecv, le_refl m.pktsLost⟩
  · obtain ⟨h, small, hrsn⟩ := d.range
    rw [hrsn] at above
    have mode : (m.expectNext.mark p.uwApph.sn).dropOutOfOrder = 1 := d.mode
    have esn : (m.expectNext.mark p.uwApph.sn).esn = UInt32.ofInt (h + 1) :=
      congrArg (fun n => UInt32.ofInt (n + 1)) hrsn
    rw [accept_pktsRecv, accept_pktsLost mode, esn, gap_eq _ (by omega)]
    simp only [expectNext, mark]
    constructor <;> omega

theorem counts_nonneg (heap : Nat → Bool) {b : Bound} (drop : b.dropOutOfOrder = 1)
    (listener : Bool) (arrivals : List Arrival) :
    0 ≤ ((fresh heap b listener).recvAll arrivals).pktsRecv ∧
      0 ≤ ((fresh heap b listener).recvAll arrivals).pktsLost := by
  induction arrivals using List.reverseRecOn with
  | nil => exact ⟨le_refl 0, le_refl 0⟩
  | append_singleton arrivals a ih =>
      have d := (dropping_fresh heap drop listener).recvAll arrivals
      obtain ⟨recv, lost⟩ := d.counts_mono a.clock a.packet
      rw [recvAll_concat]
      exact ⟨ih.1.trans recv, ih.2.trans lost⟩

/-- Lost over lost plus received is a rate. -/
theorem isRate_of_counts (mode : m.dropOutOfOrder = 1) (recv : 0 ≤ m.pktsRecv)
    (lost : 0 ≤ m.pktsLost) : IsRate m.getPER := by
  rw [getPER, if_pos (by omega)]
  split
  · rename_i some
    have total : (0 : ℚ) < (m.pktsRecv + m.pktsLost : Int) := Int.cast_pos.mpr some
    constructor
    · exact div_nonneg (Int.cast_nonneg lost) total.le
    · apply (div_le_one total).mpr
      exact Int.cast_le.mpr (by omega)
  · exact ⟨le_refl 0, zero_le_one⟩

/-- In drop mode the error rate is always a rate. -/
theorem error_rate_of_drop (heap : Nat → Bool) {b : Bound} (drop : b.dropOutOfOrder = 1)
    (listener : Bool) (arrivals : List Arrival) :
    IsRate ((fresh heap b listener).recvAll arrivals).getPER := by
  obtain ⟨recv, lost⟩ := counts_nonneg heap drop listener arrivals
  exact isRate_of_counts ((dropping_fresh heap drop listener).recvAll arrivals).mode recv lost

end Drop

/-! ### With the check off -/

/-- The number of the last packet, 0 if there is none. -/
def lastNumber (data : List Arrival) : Nat := (data.getLast?.map Arrival.sn).getD 0

@[simp] theorem lastNumber_concat (data : List Arrival) (a : Arrival) :
    lastNumber (data ++ [a]) = a.sn := by
  simp [lastNumber]

theorem lastNumber_lt (data : List Arrival) : lastNumber data < 2 ^ 16 := by
  cases last : data.getLast? with
  | none => simp [lastNumber, last]
  | some a =>
      rw [lastNumber, last]
      exact a.packet.uwApph.sn.toNat_lt

/-- A receiver that checks no order, after the data packets `data`. -/
structure Unchecked (m : UwAppNetModule) (data : List Arrival) : Prop where
  mode : m.dropOutOfOrder = 0
  recv : m.pktsRecv = data.length
  highest : m.hrsn = lastNumber data
  expected : m.esn.toNat = if data = [] then 0 else lastNumber data.dropLast + 1

section Off

variable {m : UwAppNetModule} {data : List Arrival} {a b : Arrival}

theorem Unchecked.concat (u : Unchecked m data) (isData : a.isData = true) :
    Unchecked (m.statistics a.clock a.packet).1 (data ++ [a]) := by
  have admitted : m.admits a.packet = true := by
    rw [admits_off (by simp [u.mode])]
    exact isData
  rcases statistics_cases m a with ⟨-, eq⟩ | ⟨rejected, -⟩
  · rw [eq]
    constructor
    · rw [accept_dropOutOfOrder]
      exact u.mode
    · rw [accept_pktsRecv, List.length_append, Nat.cast_add, ← u.recv]
      rfl
    · rw [accept_hrsn, lastNumber_concat]
      rfl
    · have esn : (m.expectNext.mark a.packet.uwApph.sn).esn = UInt32.ofInt (lastNumber data + 1) :=
        congrArg (fun n => UInt32.ofInt (n + 1)) u.highest
      rw [accept_esn, esn, toNat_expected (lastNumber_lt data), List.dropLast_concat,
        if_neg (by simp)]
  · rw [admitted] at rejected
    cases rejected

theorem unchecked_recvAll (heap : Nat → Bool) {b : Bound} (off : b.dropOutOfOrder = 0)
    (listener : Bool) (arrivals : List Arrival) :
    Unchecked ((fresh heap b listener).recvAll arrivals) (dataArrivals arrivals) := by
  induction arrivals using List.reverseRecOn with
  | nil => exact ⟨off, rfl, rfl, rfl⟩
  | append_singleton arrivals a ih =>
      rw [recvAll_concat]
      cases isData : a.isData with
      | true =>
          rw [dataArrivals_concat_data isData]
          exact ih.concat isData
      | false =>
          have wrong : a.packet.ch.ptype ≠ .dataApplication :=
            mt isData_iff.mpr (by simp [isData])
          rw [dataArrivals_concat_other isData, statistics_wrong_type wrong]
          exact ⟨ih.mode, ih.recv, ih.highest, ih.expected⟩

/-- Before the second packet the rate is 0. -/
theorem Unchecked.getPER_short (u : Unchecked m data) (short : data.length ≤ 1) :
    m.getPER = 0 := by
  have none : data.dropLast = [] := List.eq_nil_of_length_eq_zero (by simp; omega)
  have small : m.esn.toNat ≤ 1 := by
    rw [u.expected, none]
    split <;> simp [lastNumber]
  have few : ¬ m.esn > 1 := by
    rw [gt_iff_lt, UInt32.lt_iff_toNat_lt]
    exact not_lt.mpr small
  rw [getPER, if_neg (by simp [u.mode]), if_neg few]

/-- From then on all receptions are set against the number of the last packet but one. -/
theorem Unchecked.getPER_pair {earlier : List Arrival} (u : Unchecked m (earlier ++ [a, b]))
    (positive : 0 < a.sn) : m.getPER = 1 - (earlier.length + 2 : Nat) / (a.sn : ℚ) := by
  have expected := u.expected
  rw [List.append_cons, List.dropLast_concat, lastNumber_concat, if_neg (by simp)] at expected
  have many : m.esn > 1 := by
    rw [gt_iff_lt, UInt32.lt_iff_toNat_lt, expected]
    exact Nat.succ_lt_succ positive
  have less : (m.esn - 1).toNat = a.sn := by
    rw [UInt32.toNat_sub_of_le _ _ (UInt32.le_of_lt many), expected]
    rfl
  rw [getPER, if_neg (by simp [u.mode]), if_pos many, less, u.recv, List.length_append]
  rfl

/-- That is a rate exactly when the number is as large as the count. -/
theorem Unchecked.isRate_pair {earlier : List Arrival} (u : Unchecked m (earlier ++ [a, b]))
    (positive : 0 < a.sn) : IsRate m.getPER ↔ earlier.length + 2 ≤ a.sn := by
  have number : (0 : ℚ) < a.sn := Nat.cast_pos.mpr positive
  rw [u.getPER_pair positive, IsRate, sub_nonneg, div_le_one number, Nat.cast_le]
  exact and_iff_left (sub_le_self 1 (div_nonneg (Nat.cast_nonneg _) number.le))

/-- A sequence of two packets and more ends in two packets. -/
theorem exists_last_pair (long : ¬ data.length ≤ 1) : ∃ earlier a b, data = earlier ++ [a, b] := by
  rcases List.eq_nil_or_concat data with rfl | ⟨init, b, rfl⟩
  · simp at long
  · rcases List.eq_nil_or_concat init with rfl | ⟨earlier, a, rfl⟩
    · simp at long
    · exact ⟨earlier, a, b, by simp⟩

end Off

/-- When a packet is followed by another, its number is at least the count of packets
up to that other one. -/
def KeepsUp (data : List Arrival) : Prop :=
  ∀ earlier a b later, data = earlier ++ a :: b :: later → earlier.length + 2 ≤ a.sn

theorem sn_pos_of_prefix {earlier arrivals : List Arrival} (sub : earlier <+: arrivals)
    (positive : ∀ a ∈ arrivals, a.isData = true → 0 < a.sn) :
    ∀ a ∈ dataArrivals earlier, 0 < a.sn := by
  intro a ha
  obtain ⟨arrived, isData⟩ := mem_dataArrivals.mp ha
  exact positive a (sub.subset arrived) isData

/-- After every packet of a sequence the error rate is a rate exactly when the check is
on or the numbers of the data packets keep up with their count. -/
theorem error_rate_iff (heap : Nat → Bool) (b : Bound)
    (mode : b.dropOutOfOrder = 0 ∨ b.dropOutOfOrder = 1) (listener : Bool)
    (arrivals : List Arrival) (positive : ∀ a ∈ arrivals, a.isData = true → 0 < a.sn) :
    (∀ earlier, earlier <+: arrivals →
        IsRate ((fresh heap b listener).recvAll earlier).getPER) ↔
      b.dropOutOfOrder = 1 ∨ KeepsUp (dataArrivals arrivals) := by
  constructor
  · intro rates
    rcases mode with off | drop
    · right
      intro before p q after split
      obtain ⟨earlier, later, rfl, data, -⟩ :
          ∃ earlier later, arrivals = earlier ++ later ∧
            dataArrivals earlier = before ++ [p, q] ∧ dataArrivals later = after :=
        List.filter_eq_append_iff.mp (split.trans (by simp))
      have sub : earlier <+: earlier ++ later := List.prefix_append _ _
      have number := sn_pos_of_prefix sub positive p (by simp [data])
      have u := unchecked_recvAll heap off listener earlier
      rw [data] at u
      exact (u.isRate_pair number).mp (rates earlier sub)
    · exact .inl drop
  · rintro (drop | keeps) earlier sub
    · exact error_rate_of_drop heap drop listener earlier
    rcases mode with off | drop
    · have u := unchecked_recvAll heap off listener earlier
      by_cases short : (dataArrivals earlier).length ≤ 1
      · rw [u.getPER_short short]
        decide
      · obtain ⟨before, p, q, data⟩ := exists_last_pair short
        have number := sn_pos_of_prefix sub positive p (by simp [data])
        obtain ⟨later, rfl⟩ := sub
        rw [data] at u
        apply (u.isRate_pair number).mpr
        apply keeps before p q (dataArrivals later)
        rw [dataArrivals, List.filter_append]
        exact (congrArg (· ++ dataArrivals later) data).trans (by simp)
    · exact error_rate_of_drop heap drop listener earlier

/-- The numbers 2 and 3 keep up; the rate is 0 after each. -/
theorem two_packets_keep_up :
    let m := fresh (fun _ => false) ⟨0, 0, 0⟩ true
    (m.recvAll ([2, 3].map emptyArrival)).getPER = 0 ∧
      ∀ earlier, earlier <+: [2, 3].map emptyArrival → IsRate (m.recvAll earlier).getPER := by
  intro m
  have zero : (m.recvAll ([2, 3].map emptyArrival)).getPER = 0 := by decide +kernel
  refine ⟨zero, ?_⟩
  apply (error_rate_iff (fun _ => false) ⟨0, 0, 0⟩ (.inl rfl) true _ (by decide)).mpr
  right
  have data : dataArrivals ([2, 3].map emptyArrival) = [2, 3].map emptyArrival := rfl
  rw [data]
  intro earlier a b later split
  have length := congrArg List.length split
  simp only [List.length_map, List.length_append, List.length_cons, List.length_nil] at length
  have none : earlier = [] := List.eq_nil_of_length_eq_zero (by omega)
  subst none
  have first : emptyArrival 2 = a := (List.cons.inj split).1
  rw [← first]
  decide

/-- One packet that arrives three times gives a negative rate. -/
theorem repeated_packet_rate_negative :
    let m := (fresh (fun _ => false) ⟨0, 0, 0⟩ true).recvAll ([2, 2, 2].map emptyArrival)
    m.getPER = -1 / 2 ∧ ¬ IsRate m.getPER := by
  intro m
  have rate : m.getPER = -1 / 2 := by decide +kernel
  refine ⟨rate, ?_⟩
  rw [rate]
  decide +kernel

end UwAppNet
