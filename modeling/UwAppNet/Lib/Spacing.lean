import Mathlib.Algebra.Order.Ring.Defs
import Mathlib.Data.List.Pairwise
import Mathlib.Tactic.Linarith

/-!
Sequences of times with a least gap.

`Spaced gap ts` says that of any two times in `ts` the later one stands at least `gap`
after the earlier one. It extends at the end, passes to sublists, and bounds how many
times can lie in a window.
-/

namespace Spacing

variable {𝕜 : Type*} [CommRing 𝕜] [LinearOrder 𝕜] {gap : 𝕜} {ts : List 𝕜}

/-- Any two times keep the gap. -/
def Spaced (gap : 𝕜) (ts : List 𝕜) : Prop := ts.Pairwise fun earlier later => earlier + gap ≤ later

@[simp] theorem spaced_nil (gap : 𝕜) : Spaced gap [] := List.Pairwise.nil

theorem Spaced.concat (h : Spaced gap ts) {t : 𝕜} (after : ∀ x ∈ ts, x + gap ≤ t) :
    Spaced gap (ts ++ [t]) := by
  refine List.pairwise_append.mpr ⟨h, List.pairwise_singleton _ _, fun x hx y hy => ?_⟩
  rw [List.mem_singleton.mp hy]
  exact after x hx

theorem Spaced.sublist (h : Spaced gap ts) {us : List 𝕜} (sub : us.Sublist ts) : Spaced gap us :=
  List.Pairwise.sublist sub h

variable [IsStrictOrderedRing 𝕜]

/-- From the first time on, each further one takes a gap. -/
theorem Spaced.span {t : 𝕜} (h : Spaced gap (t :: ts)) {last : 𝕜}
    (bounded : ∀ x ∈ t :: ts, x ≤ last) : t + ts.length * gap ≤ last := by
  induction ts generalizing t with
  | nil => simpa using bounded t (List.mem_singleton_self t)
  | cons u ts ih =>
      obtain ⟨first, rest⟩ := List.pairwise_cons.mp h
      have next := first u (List.mem_cons_self ..)
      have others := ih rest fun x hx => bounded x (List.mem_cons_of_mem _ hx)
      rw [List.length_cons, Nat.cast_succ, add_mul, one_mul]
      linarith

/-- In a window of length `b - a` there are at most as many times as gaps fit, and one. -/
theorem Spaced.window (h : Spaced gap ts) (nonneg : 0 ≤ gap) {a b : 𝕜} (le : a ≤ b)
    (inside : ∀ x ∈ ts, a ≤ x ∧ x ≤ b) : ts.length * gap ≤ b - a + gap := by
  cases ts with
  | nil => simpa using add_nonneg (sub_nonneg.mpr le) nonneg
  | cons t ts =>
      have spanned := h.span fun x hx => (inside x hx).2
      have first := (inside t (List.mem_cons_self ..)).1
      rw [List.length_cons, Nat.cast_succ, add_mul, one_mul]
      linarith

end Spacing
