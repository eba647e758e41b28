import UwAppNet.TripTime
import UwAppNet.Lib.Variance
import Mathlib.Analysis.Real.Sqrt

/-!
The standard deviations `GetRTTstd` and `GetFTTstd`.

Both work on the count, the sum and the sum of the squares that `updateRTT` and
`updateFTT` keep. The second tests the sign of what it takes the square root of and the
first does not; as it is a sample variance, the test never matters.
-/

namespace UwAppNet

open Variance

/-- `sqrt`, in exact arithmetic; a NaN is no number. -/
noncomputable def sqrt (x : ℚ) : Option ℝ := if 0 ≤ x then some (Real.sqrt x) else none

theorem sqrt_of_nonneg {x : ℚ} (nonneg : 0 ≤ x) : sqrt x = some (Real.sqrt x) :=
  if_pos nonneg

namespace UwAppNetModule

/-- `updateRTT` for every sample. -/
def feedRTT (m : UwAppNetModule) (samples : List ℚ) : UwAppNetModule := samples.foldl updateRTT m

/-- `updateFTT` for every sample. -/
def feedFTT (m : UwAppNetModule) (samples : List ℚ) : UwAppNetModule := samples.foldl updateFTT m

/-- No sample has been fed yet. -/
structure Zeroed (m : UwAppNetModule) : Prop where
  rttsamples : m.rttsamples = 0
  sumrtt : m.sumrtt = 0
  sumrtt2 : m.sumrtt2 = 0
  fttsamples : m.fttsamples = 0
  sumftt : m.sumftt = 0
  sumftt2 : m.sumftt2 = 0

theorem zeroed_init (heap : Nat → Bool) (b : Bound) : Zeroed (init heap b) :=
  ⟨rfl, rfl, rfl, rfl, rfl, rfl⟩

section Feed

variable (m : UwAppNetModule) (xs : List ℚ)

theorem feedRTT_sums : (m.feedRTT xs).rttsamples = m.rttsamples + xs.length ∧
    (m.feedRTT xs).sumrtt = m.sumrtt + xs.sum ∧
    (m.feedRTT xs).sumrtt2 = m.sumrtt2 + (xs.map fun x => x * x).sum :=
  sums_foldl (fun _ _ => rfl) (fun _ _ => rfl) (fun _ _ => rfl) m xs

theorem feedFTT_sums : (m.feedFTT xs).fttsamples = m.fttsamples + xs.length ∧
    (m.feedFTT xs).sumftt = m.sumftt + xs.sum ∧
    (m.feedFTT xs).sumftt2 = m.sumftt2 + (xs.map fun x => x * x).sum :=
  sums_foldl (fun _ _ => rfl) (fun _ _ => rfl) (fun _ _ => rfl) m xs

variable {m}

theorem Zeroed.feedRTT (zeroed : Zeroed m) : (m.feedRTT xs).rttsamples = xs.length ∧
    (m.feedRTT xs).sumrtt = xs.sum ∧
    (m.feedRTT xs).sumrtt2 = (xs.map fun x => x * x).sum := by
  have sums := feedRTT_sums m xs
  rwa [zeroed.rttsamples, zeroed.sumrtt, zeroed.sumrtt2, zero_add, zero_add, zero_add] at sums

theorem Zeroed.feedFTT (zeroed : Zeroed m) : (m.feedFTT xs).fttsamples = xs.length ∧
    (m.feedFTT xs).sumftt = xs.sum ∧
    (m.feedFTT xs).sumftt2 = (xs.map fun x => x * x).sum := by
  have sums := feedFTT_sums m xs
  rwa [zeroed.fttsamples, zeroed.sumftt, zeroed.sumftt2, zero_add, zero_add, zero_add] at sums

variable {xs}

/-- What `GetRTTstd` takes the square root of is the variance of the samples. -/
theorem Zeroed.rttVar_feedRTT (zeroed : Zeroed m) (many : 2 ≤ xs.length) :
    (m.feedRTT xs).rttVar = sampleVariance xs := by
  obtain ⟨count, total, squares⟩ := zeroed.feedRTT xs
  exact onePass_eq many count total squares

theorem Zeroed.fttVar_feedFTT (zeroed : Zeroed m) (many : 2 ≤ xs.length) :
    (m.feedFTT xs).fttVar = sampleVariance xs := by
  obtain ⟨count, total, squares⟩ := zeroed.feedFTT xs
  exact onePass_eq many count total squares

end Feed

end UwAppNetModule

/-- `var`, computed from at least two samples, is their variance. -/
structure VarianceExact (var : List ℚ → ℚ) (samples : List ℚ) : Prop where
  exact : var samples =
    (samples.map fun x => (x - mean samples) ^ 2).sum / (samples.length - 1)
  nonneg : 0 ≤ var samples
  zero_iff : var samples = 0 ↔ ∀ x ∈ samples, ∀ y ∈ samples, x = y
  perm : ∀ reordered, samples.Perm reordered → var reordered = var samples

theorem varianceExact_of_eq {var : List ℚ → ℚ}
    (eq : ∀ xs, 2 ≤ xs.length → var xs = sampleVariance xs) {samples : List ℚ}
    (many : 2 ≤ samples.length) : VarianceExact var samples := by
  constructor
  · exact eq samples many
  · rw [eq samples many]
    exact sampleVariance_nonneg many
  · rw [eq samples many]
    exact sampleVariance_eq_zero_iff many
  · intro reordered perm
    rw [eq samples many, eq reordered (perm.length_eq ▸ many), sampleVariance_perm perm]

/-- Both getters compute the standard deviation of the samples: the root of the mean
squared deviation from two samples on, otherwise 0. -/
structure DeviationExact (m : UwAppNetModule) (samples : List ℚ) : Prop where
  rtt : 2 ≤ samples.length → VarianceExact (fun xs => (m.feedRTT xs).rttVar) samples ∧
    (m.feedRTT samples).getRTTstd sqrt = some (Real.sqrt (m.feedRTT samples).rttVar)
  ftt : 2 ≤ samples.length → VarianceExact (fun xs => (m.feedFTT xs).fttVar) samples ∧
    (m.feedFTT samples).getFTTstd sqrt = some (Real.sqrt (m.feedFTT samples).fttVar)
  agree : (m.feedRTT samples).getRTTstd sqrt = (m.feedFTT samples).getFTTstd sqrt

/-- The sign test of `GetFTTstd` changes nothing where `var` is not negative. -/
theorem guarded_sqrt {var : ℚ} (nonneg : 0 ≤ var) :
    (if var > 0 then sqrt var else some 0) = some (Real.sqrt var) := by
  split
  · exact sqrt_of_nonneg nonneg
  · rename_i zero
    rw [le_antisymm (not_lt.mp zero) nonneg]
    simp

/-- Whatever samples are fed into zeroed accumulators, `GetRTTstd` and `GetFTTstd` are
their standard deviation. -/
theorem deviation_exact {m : UwAppNetModule} (zeroed : m.Zeroed) (samples : List ℚ) :
    DeviationExact m samples := by
  have rttCount := (zeroed.feedRTT samples).1
  have fttCount := (zeroed.feedFTT samples).1
  by_cases many : 2 ≤ samples.length
  · have more : (samples.length : Int) > 1 := by omega
    have rttVar := zeroed.rttVar_feedRTT many
    have fttVar := zeroed.fttVar_feedFTT many
    have nonneg := sampleVariance_nonneg many
    have rttStd : (m.feedRTT samples).getRTTstd sqrt =
        some (Real.sqrt (m.feedRTT samples).rttVar) := by
      rw [UwAppNetModule.getRTTstd, rttCount, if_pos more, rttVar]
      exact sqrt_of_nonneg nonneg
    have fttStd : (m.feedFTT samples).getFTTstd sqrt =
        some (Real.sqrt (m.feedFTT samples).fttVar) := by
      rw [UwAppNetModule.getFTTstd, fttCount, if_pos more, fttVar]
      exact guarded_sqrt nonneg
    constructor
    · exact fun _ => ⟨varianceExact_of_eq (fun _ => zeroed.rttVar_feedRTT) many, rttStd⟩
    · exact fun _ => ⟨varianceExact_of_eq (fun _ => zeroed.fttVar_feedFTT) many, fttStd⟩
    · rw [rttStd, fttStd, rttVar, fttVar]
  · have few : ¬ (samples.length : Int) > 1 := by omega
    constructor
    · exact fun enough => absurd enough many
    · exact fun enough => absurd enough many
    · rw [UwAppNetModule.getRTTstd, UwAppNetModule.getFTTstd, rttCount, fttCount, if_neg few,
        if_neg few]

/-- The samples 1, 2 and 6 have mean 3, and 4 + 1 + 9 over 2 is 7. -/
theorem three_samples_deviation :
    let m := UwAppNetModule.init (fun _ => false) ⟨1, 0, 0⟩
    (m.feedRTT [1, 2, 6]).rttVar = 7 ∧ (m.feedFTT [6, 1, 2]).fttVar = 7 ∧
      DeviationExact m [1, 2, 6] := by
  refine ⟨?_, ?_, deviation_exact (UwAppNetModule.zeroed_init _ _) _⟩
  · decide +kernel
  · decide +kernel

end UwAppNet
