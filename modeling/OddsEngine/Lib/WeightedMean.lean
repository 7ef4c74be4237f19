/-
  File:      OddsEngine/Lib/WeightedMean.lean
  Subject:   The weighted mean of a list.

  With positive weights the mean lies between any bounds of the values (`le_weightedMean`,
  `weightedMean_le`), so some value is at most it and some at least it; and it is linear in them.
-/
import Mathlib.Algebra.BigOperators.Field
import Mathlib.Algebra.BigOperators.Ring.List
import Mathlib.Algebra.Order.BigOperators.Group.List
import Mathlib.Data.Real.Basic
import Mathlib.Tactic.Linarith

namespace Lib

variable {α : Type}

noncomputable def weightedMean (w f : α → ℝ) (xs : List α) : ℝ :=
  (xs.map fun x => w x * f x).sum / (xs.map w).sum

section Weights

variable {w f : α → ℝ} {xs : List α} (hw : ∀ x ∈ xs, 0 < w x)

include hw

theorem sum_weights_pos (hne : xs ≠ []) : 0 < (xs.map w).sum := by
  refine List.sum_pos _ (fun y hy => ?_) (by simpa using hne)
  obtain ⟨x, hx, rfl⟩ := List.mem_map.mp hy
  exact hw x hx

theorem le_weightedMean (hne : xs ≠ []) {lo : ℝ} (h : ∀ x ∈ xs, lo ≤ f x) :
    lo ≤ weightedMean w f xs := by
  rw [weightedMean, le_div_iff₀ (sum_weights_pos hw hne), ← List.sum_map_mul_left]
  refine List.sum_le_sum fun x hx => ?_
  rw [mul_comm]
  exact mul_le_mul_of_nonneg_left (h x hx) (hw x hx).le

theorem weightedMean_le (hne : xs ≠ []) {hi : ℝ} (h : ∀ x ∈ xs, f x ≤ hi) :
    weightedMean w f xs ≤ hi := by
  rw [weightedMean, div_le_iff₀ (sum_weights_pos hw hne), ← List.sum_map_mul_left]
  refine List.sum_le_sum fun x hx => ?_
  rw [mul_comm hi]
  exact mul_le_mul_of_nonneg_left (h x hx) (hw x hx).le

end Weights

/-- The mean of sums is the sum of the means. -/
theorem weightedMean_sum {ι : Type} (s : Finset ι) (w : α → ℝ) (f : ι → α → ℝ) (xs : List α) :
    weightedMean w (fun x => ∑ i ∈ s, f i x) xs = ∑ i ∈ s, weightedMean w (f i) xs := by
  unfold weightedMean
  rw [← Finset.sum_div]
  congr 1
  induction xs with
  | nil => simp
  | cons x xs ih =>
    rw [List.map_cons, List.sum_cons, ih]
    simp only [List.map_cons, List.sum_cons, Finset.sum_add_distrib, Finset.mul_sum]

end Lib
