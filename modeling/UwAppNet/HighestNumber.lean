import UwAppNet.Rejection
import UwAppNet.Station

/-!
`hrsn`, the highest received sequence number, over whole runs of a node.

`statistics` stores the number of every packet it accepts. Only the order check, which
the bound variable switches on and off, keeps an accepted number from being a lower one.
-/

namespace UwAppNet

open Transition RunningMax

/-- The highest number is the maximum over the accepted packets, 0 if there is none. -/
def Highest (s : Station) : Prop := s.node.mod.hrsn = peak Arrival.sn 0 s.accepted

/-- The step leaves the highest number right and does not decrease it. -/
structure HighestKept (m : Move Station StationAction) : Prop where
  highest : Highest m.after
  increases : m.before.node.mod.hrsn ≤ m.after.node.mod.hrsn

/-- A data packet that comes in while the order check is off has no lower number than the
packets accepted before it. -/
def Rising (m : Move Station StationAction) : Prop :=
  ∀ a, m.action = .recv a → a.isData = true → m.before.node.mod.dropOutOfOrder ≠ 1 →
    ∀ e ∈ m.before.accepted, e.sn ≤ a.sn

section Run

variable {heap : Nat → Bool} {b : Bound} {listener : Bool} {s s' : Station}
  {moves : List (Move Station StationAction)} {act : StationAction}

/-- The highest number comes from a 16-bit field. -/
def Ranged (s : Station) : Prop := ∃ h : Nat, h < 2 ^ 16 ∧ s.node.mod.hrsn = h

theorem Ranged.step (inv : Ranged s) (h : s.step act = some s') : Ranged s' := by
  cases Station.step_change h with
  | @accepts a _ _ _ figures =>
      exact ⟨a.sn, a.packet.uwApph.sn.toNat_lt, congrArg Figures.hrsn figures⟩
  | keeps _ _ figures =>
      obtain ⟨h, small, hrsn⟩ := inv
      exact ⟨h, small, (congrArg Figures.hrsn figures).trans hrsn⟩

/-- An accepted packet keeps the highest number right exactly when its own is at least
as high as every one before. -/
theorem highestKept_accepted_iff {a : Arrival} (right : Highest s)
    (accepted : s'.accepted = s.accepted ++ [a]) (hrsn : s'.node.mod.hrsn = a.sn) :
    HighestKept ⟨s, act, s'⟩ ↔ ∀ e ∈ s.accepted, e.sn ≤ a.sn := by
  have bound : peak Arrival.sn 0 s.accepted ≤ a.sn ↔ ∀ e ∈ s.accepted, e.sn ≤ a.sn := by
    simp [peak_le_iff]
  have step : s.node.mod.hrsn ≤ s'.node.mod.hrsn ↔ peak Arrival.sn 0 s.accepted ≤ a.sn := by
    rw [right, hrsn]
    exact Int.ofNat_le
  rw [← bound, ← step]
  constructor
  · intro kept
    exact kept.increases
  · intro increases
    constructor
    · rw [Highest, hrsn, accepted, peak_concat, max_eq_right (step.mp increases)]
    · exact increases

/-- From a state with the right highest number a step keeps it right exactly when no
lower number slips in. -/
theorem highestKept_iff (inv : Ranged s) (right : Highest s) (h : s.step act = some s') :
    Rising ⟨s, act, s'⟩ ↔ HighestKept ⟨s, act, s'⟩ := by
  cases Station.step_change h with
  | @accepts a _ admitted accepted figures =>
      have kept : HighestKept ⟨s, .recv a, s'⟩ ↔ ∀ e ∈ s.accepted, e.sn ≤ a.sn :=
        highestKept_accepted_iff right accepted (congrArg Figures.hrsn figures)
      by_cases mode : s.node.mod.dropOutOfOrder = 1
      · -- the check itself compares with the highest number
        have above := ((Dropping.admits_iff ⟨mode, inv⟩).mp admitted).2.2
        rw [right] at above
        have below := peak_lt_iff.mp (Int.ofNat_lt.mp above)
        apply iff_of_true
        · rintro _ _ _ off
          exact absurd mode off
        · exact kept.mpr fun e he => (below.2 e he).le
      · rw [UwAppNetModule.admits_off mode] at admitted
        rw [kept]
        constructor
        · intro rising
          exact rising a rfl admitted mode
        · rintro below _ ⟨⟩ _ _
          exact below
  | keeps other accepted figures =>
      have hrsn : s'.node.mod.hrsn = s.node.mod.hrsn := congrArg Figures.hrsn figures
      apply iff_of_true
      · rintro a recv data off
        have rejected := other a recv
        rw [UwAppNetModule.admits_off off, data] at rejected
        cases rejected
      · constructor
        · rw [Highest, hrsn, accepted]
          exact right
        · exact hrsn.ge

/-- In a run, `hrsn` is the highest number accepted after every step exactly when no
packet slips in under the highest one while the order check is off. -/
theorem highest_number_iff (run : Run Station.step (Station.start heap b listener) moves s) :
    (∀ m ∈ moves, HighestKept m) ↔ ∀ m ∈ moves, Rising m :=
  run.exact_guard (⟨0, by decide, rfl⟩ : Ranged (Station.start heap b listener))
    (rfl : Highest (Station.start heap b listener))
    (fun _ _ _ inv h => inv.step h) (fun _ _ _ inv right h => highestKept_iff inv right h)
    fun _ _ _ _ _ _ kept => kept.highest

end Run

/-- The check is on for number 3, off for its repetition and on again for number 2, which
is dropped. -/
theorem switched_run_rising :
    ∃ moves s, Run Station.step (Station.start (fun _ => false) ⟨1, 0, 0⟩ false) moves s ∧
      moves.map Move.action = [.recv (emptyArrival 3), .setDropOutOfOrder 0,
        .recv (emptyArrival 3), .setDropOutOfOrder 1, .recv (emptyArrival 2)] ∧
      s.accepted.map Arrival.sn = [3, 3] ∧ ∀ m ∈ moves, HighestKept m := by
  have empty : Run Station.step (Station.start (fun _ => false) ⟨1, 0, 0⟩ false) [] _ := .nil
  have run := ((((empty.snoc (a := .recv (emptyArrival 3)) rfl).snoc
    (a := .setDropOutOfOrder 0) rfl).snoc (a := .recv (emptyArrival 3)) rfl).snoc
    (a := .setDropOutOfOrder 1) rfl).snoc (a := .recv (emptyArrival 2)) rfl
  refine ⟨_, _, run, rfl, rfl, (highest_number_iff run).mpr ?_⟩
  simp only [List.nil_append, List.cons_append, List.forall_mem_cons]
  refine ⟨?_, ?_, ?_, ?_, ?_, by simp⟩
  · rintro _ _ _ off
    exact absurd rfl off
  · rintro _ ⟨⟩
  · rintro _ ⟨⟩ _ _
    decide
  · rintro _ ⟨⟩
  · rintro _ _ _ off
    exact absurd rfl off

/-- With the check off number 1 after number 2 makes 1 the highest. -/
theorem late_packet_lowers_highest :
    ∃ moves s, Run Station.step (Station.start (fun _ => false) ⟨0, 0, 0⟩ false) moves s ∧
      s.accepted.map Arrival.sn = [2, 1] ∧ s.node.mod.hrsn = 1 ∧ ¬ Highest s := by
  have empty : Run Station.step (Station.start (fun _ => false) ⟨0, 0, 0⟩ false) [] _ := .nil
  have run := (empty.snoc (a := .recv (emptyArrival 2)) rfl).snoc
    (a := .recv (emptyArrival 1)) rfl
  refine ⟨_, _, run, rfl, rfl, fun highest => ?_⟩
  have same : (1 : Int) = 2 := highest
  cases same

end UwAppNet
