import Mathlib.Data.Rat.Floor
import Mathlib.Algebra.Order.BigOperators.Group.List
import Mathlib.Algebra.Order.Field.Rat
import Mathlib.Tactic.Linarith

/-!
Rational numbers cut to integers toward zero, and what is lost by it.
-/

namespace Truncation

/-- The integer part of a rational number. -/
def trunc (q : ℚ) : Int := q.num.tdiv q.den

theorem trunc_neg (q : ℚ) : trunc (-q) = -trunc q := by
  rw [trunc, trunc, Rat.neg_num, Rat.neg_den, Int.neg_tdiv]

theorem trunc_of_nonneg {q : ℚ} (nonneg : 0 ≤ q) : trunc q = ⌊q⌋ := by
  rw [trunc, Rat.floor_def', Int.tdiv_eq_ediv_of_nonneg (Rat.num_nonneg.mpr nonneg)]

@[simp] theorem trunc_intCast (z : Int) : trunc z = z := by
  simp [trunc]

/-- Cutting off moves a nonnegative number down by less than one. -/
theorem trunc_bounds {q : ℚ} (nonneg : 0 ≤ q) :
    0 ≤ trunc q ∧ (trunc q : ℚ) ≤ q ∧ q < trunc q + 1 := by
  rw [trunc_of_nonneg nonneg]
  exact ⟨Int.floor_nonneg.mpr nonneg, Int.floor_le q, Int.lt_floor_add_one q⟩

/-- What holds of nonnegative numbers and does not depend on the sign holds of all. -/
theorem of_nonneg {P : ℚ → Prop} (even : ∀ q, P (-q) → P q) (nonneg : ∀ q, 0 ≤ q → P q)
    (q : ℚ) : P q := by
  rcases le_total 0 q with pos | neg
  · exact nonneg q pos
  · exact even q (nonneg (-q) (neg_nonneg.mpr neg))

/-- Cutting off never increases a square. -/
theorem sq_trunc_le (q : ℚ) : (trunc q : ℚ) ^ 2 ≤ q ^ 2 := by
  refine of_nonneg (P := fun q => (trunc q : ℚ) ^ 2 ≤ q ^ 2) ?_ ?_ q
  · intro q neg
    simpa [trunc_neg] using neg
  · intro q nonneg
    obtain ⟨zero, below, -⟩ := trunc_bounds nonneg
    exact pow_le_pow_left₀ (Int.cast_nonneg zero) below 2

/-- It keeps a square only where there is nothing to cut off. -/
theorem sq_trunc_eq_iff (q : ℚ) : (trunc q : ℚ) ^ 2 = q ^ 2 ↔ (trunc q : ℚ) = q := by
  refine of_nonneg (P := fun q => (trunc q : ℚ) ^ 2 = q ^ 2 ↔ (trunc q : ℚ) = q) ?_ ?_ q
  · intro q neg
    simpa [trunc_neg] using neg
  · intro q nonneg
    obtain ⟨zero, -, -⟩ := trunc_bounds nonneg
    exact pow_left_inj₀ (Int.cast_nonneg zero) nonneg (by decide)

/-- Scaling before or after cutting off agrees as long as less than one part of the
scale is lost. -/
theorem trunc_mul_eq_iff (q : ℚ) {k : Nat} (pos : 0 < k) :
    trunc (q * k) = trunc q * k ↔ |q - trunc q| * k < 1 := by
  refine of_nonneg (P := fun q => trunc (q * k) = trunc q * k ↔ |q - trunc q| * k < 1) ?_ ?_ q
  · intro q neg
    have sign : |-q - (trunc (-q) : ℚ)| = |q - trunc q| := by
      rw [trunc_neg, Int.cast_neg, ← neg_sub', abs_neg]
    rw [sign, neg_mul, trunc_neg, trunc_neg, Int.neg_mul, neg_inj] at neg
    exact neg
  · intro q nonneg
    have scale : (0 : ℚ) < k := Nat.cast_pos.mpr pos
    obtain ⟨zero, below, above⟩ := trunc_bounds nonneg
    rw [trunc_of_nonneg (mul_nonneg nonneg scale.le), Int.floor_eq_iff,
      abs_of_nonneg (sub_nonneg.mpr below), sub_mul]
    push_cast
    constructor
    · rintro ⟨-, top⟩
      linarith
    · intro top
      exact ⟨mul_le_mul_of_nonneg_right below scale.le, by linarith⟩

/-- A list of numbers keeps its sum of squares only where there is nothing to cut
off. -/
theorem sum_sq_trunc_eq_iff (qs : List ℚ) :
    (qs.map fun q => (trunc q : ℚ) ^ 2).sum = (qs.map fun q => q ^ 2).sum ↔
      ∀ q ∈ qs, (trunc q : ℚ) = q := by
  induction qs with
  | nil => simp
  | cons q qs ih =>
      have first := sq_trunc_le q
      have others : (qs.map fun q => (trunc q : ℚ) ^ 2).sum ≤ (qs.map fun q => q ^ 2).sum :=
        List.sum_le_sum fun q _ => sq_trunc_le q
      rw [List.map_cons, List.map_cons, List.sum_cons, List.sum_cons, List.forall_mem_cons, ← ih,
        ← sq_trunc_eq_iff q]
      constructor
      · intro total
        exact ⟨by linarith, by linarith⟩
      · rintro ⟨same, rest⟩
        rw [same, rest]

end Truncation
