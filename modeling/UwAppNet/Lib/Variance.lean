import Mathlib.Algebra.Order.BigOperators.Group.List
import Mathlib.Algebra.Order.Field.Basic
import Mathlib.Algebra.BigOperators.Ring.List
import Mathlib.Tactic.Ring
import Mathlib.Tactic.FieldSimp
import Mathlib.Tactic.Positivity

/-!
Squared deviations of a list of samples.

A program that keeps only the number, the sum and the sum of the squares of its samples
can still compute the sum of their squared deviations from the mean
(`sqDev_mean`), which is what makes the one-pass formula for the variance right
(`onePass_eq`).
-/

namespace Variance

variable {K : Type*} [Field K]

/-- The sum of the squared deviations of the samples from `c`. -/
def sqDev (c : K) (xs : List K) : K := (xs.map fun x => (x - c) ^ 2).sum

@[simp] theorem sqDev_nil (c : K) : sqDev c [] = 0 := rfl

@[simp] theorem sqDev_cons (c x : K) (xs : List K) :
    sqDev c (x :: xs) = (x - c) ^ 2 + sqDev c xs := by
  simp [sqDev]

/-- The variance of a sample, with the unbiased denominator. -/
def sampleVariance (xs : List K) : K := sqDev (xs.sum / xs.length) xs / (xs.length - 1)

theorem sqDev_perm (c : K) {xs ys : List K} (perm : xs.Perm ys) : sqDev c xs = sqDev c ys :=
  (perm.map _).sum_eq

theorem sampleVariance_perm {xs ys : List K} (perm : xs.Perm ys) :
    sampleVariance xs = sampleVariance ys := by
  rw [sampleVariance, sampleVariance, perm.sum_eq, perm.length_eq, sqDev_perm _ perm]

/-- The deviations from any `c`, from the count and the sums alone. -/
theorem sqDev_eq (c : K) (xs : List K) :
    sqDev c xs = (xs.map fun x => x * x).sum - 2 * c * xs.sum + xs.length * c ^ 2 := by
  induction xs with
  | nil => simp
  | cons x xs ih =>
      rw [sqDev_cons, ih]
      simp only [List.map_cons, List.sum_cons, List.length_cons]
      push_cast
      ring

/-- An update that adds one sample to a count and two sums, repeated. -/
theorem sums_foldl {σ : Type*} {update : σ → K → σ} {samples : σ → Int} {sum sum2 : σ → K}
    (count : ∀ s x, samples (update s x) = samples s + 1)
    (total : ∀ s x, sum (update s x) = sum s + x)
    (squares : ∀ s x, sum2 (update s x) = sum2 s + x * x) (s : σ) (xs : List K) :
    samples (xs.foldl update s) = samples s + xs.length ∧
      sum (xs.foldl update s) = sum s + xs.sum ∧
      sum2 (xs.foldl update s) = sum2 s + (xs.map fun x => x * x).sum := by
  induction xs generalizing s with
  | nil => simp
  | cons x xs ih =>
      obtain ⟨ihCount, ihTotal, ihSquares⟩ := ih (update s x)
      rw [List.foldl_cons, ihCount, ihTotal, ihSquares, count, total, squares, List.length_cons,
        List.sum_cons, List.map_cons, List.sum_cons]
      push_cast
      refine ⟨?_, add_assoc .., add_assoc ..⟩
      omega

variable [LinearOrder K] [IsStrictOrderedRing K]

/-- From the mean, the count and the two sums give them. -/
theorem sqDev_mean {xs : List K} (nonempty : xs ≠ []) :
    sqDev (xs.sum / xs.length) xs =
      (xs.map fun x => x * x).sum - xs.sum * xs.sum / xs.length := by
  have pos : (xs.length : K) ≠ 0 := by
    rw [Nat.cast_ne_zero]
    exact mt List.length_eq_zero_iff.mp nonempty
  rw [sqDev_eq]
  field_simp
  ring

theorem sqDev_nonneg (c : K) (xs : List K) : 0 ≤ sqDev c xs := by
  apply List.sum_nonneg
  intro y hy
  obtain ⟨x, -, rfl⟩ := List.mem_map.mp hy
  positivity

/-- Only samples that all equal `c` have no deviation from it. -/
theorem sqDev_eq_zero_iff (c : K) (xs : List K) : sqDev c xs = 0 ↔ ∀ x ∈ xs, x = c := by
  induction xs with
  | nil => simp
  | cons x xs ih =>
      have first : 0 ≤ (x - c) ^ 2 := by positivity
      rw [sqDev_cons, add_eq_zero_iff_of_nonneg first (sqDev_nonneg c xs), ih,
        List.forall_mem_cons, sq_eq_zero_iff, sub_eq_zero]

/-- The mean of equal samples is their value. -/
theorem mean_of_equal {xs : List K} (nonempty : xs ≠ []) {c : K} (equal : ∀ x ∈ xs, x = c) :
    xs.sum / xs.length = c := by
  have pos : (xs.length : K) ≠ 0 := by
    rw [Nat.cast_ne_zero]
    exact mt List.length_eq_zero_iff.mp nonempty
  rw [List.eq_replicate_of_mem equal] at pos ⊢
  rw [List.length_replicate] at pos
  rw [List.sum_replicate, List.length_replicate, nsmul_eq_mul]
  exact mul_div_cancel_left₀ c pos

/-- Samples do not deviate from their mean exactly when they are all equal. -/
theorem sqDev_mean_eq_zero_iff {xs : List K} (nonempty : xs ≠ []) :
    sqDev (xs.sum / xs.length) xs = 0 ↔ ∀ x ∈ xs, ∀ y ∈ xs, x = y := by
  rw [sqDev_eq_zero_iff]
  constructor
  · intro equal x hx y hy
    rw [equal x hx, equal y hy]
  · intro equal x hx
    exact (mean_of_equal nonempty fun y hy => equal y hy x hx).symm

omit [Field K] [LinearOrder K] [IsStrictOrderedRing K] in
theorem ne_nil_of_many {xs : List K} (many : 2 ≤ xs.length) : xs ≠ [] := by
  rintro rfl
  cases many

section AtLeastTwo

variable {xs : List K} (many : 2 ≤ xs.length)
include many

theorem denominator_pos : (0 : K) < xs.length - 1 := by
  have one : (1 : K) < xs.length := by
    rw [Nat.one_lt_cast]
    exact many
  exact sub_pos.mpr one

/-- The one-pass formula. -/
theorem onePass_eq {samples : Int} {sum sum2 : K} (count : samples = xs.length)
    (total : sum = xs.sum) (squares : sum2 = (xs.map fun x => x * x).sum) :
    (sum2 - sum * sum / samples) / (samples - 1 : Int) = sampleVariance xs := by
  rw [sampleVariance, sqDev_mean (ne_nil_of_many many), count, total, squares]
  push_cast
  rfl

theorem sampleVariance_nonneg : 0 ≤ sampleVariance xs :=
  div_nonneg (sqDev_nonneg _ xs) (denominator_pos many).le

theorem sampleVariance_eq_zero_iff : sampleVariance xs = 0 ↔ ∀ x ∈ xs, ∀ y ∈ xs, x = y := by
  rw [sampleVariance, div_eq_zero_iff, or_iff_left (denominator_pos many).ne',
    sqDev_mean_eq_zero_iff (ne_nil_of_many many)]

end AtLeastTwo

end Variance
