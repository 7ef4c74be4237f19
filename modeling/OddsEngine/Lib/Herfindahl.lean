/-
  File:      OddsEngine/Lib/Herfindahl.lean
  Subject:   The effective number of a list of masses: the inverse of its Herfindahl index.

  The index is the sum of the squared shares, so its inverse is the squared sum over the sum of the
  squares. It is at least one, and at most the number of the masses that are not zero
  (`one_le_effective`, `effective_le`).
-/
import Mathlib.Algebra.BigOperators.Fin
import Mathlib.Algebra.Order.BigOperators.Group.List
import Mathlib.Algebra.Order.Chebyshev
import Mathlib.Data.Real.Basic
import Mathlib.Tactic.Linarith

namespace Lib

/-- The squared sum over the sum of the squares. -/
noncomputable def effective (vs : List ℝ) : ℝ := vs.sum ^ 2 / (vs.map (· ^ 2)).sum

theorem sum_sq_nonneg (vs : List ℝ) : 0 ≤ (vs.map (· ^ 2)).sum := by
  refine List.sum_nonneg fun x hx => ?_
  obtain ⟨v, -, rfl⟩ := List.mem_map.mp hx
  exact sq_nonneg v

theorem sum_sq_le_sq_sum {vs : List ℝ} (h : ∀ v ∈ vs, 0 ≤ v) : (vs.map (· ^ 2)).sum ≤ vs.sum ^ 2 := by
  induction vs with
  | nil => simp
  | cons v vs ih =>
    obtain ⟨hv, hvs⟩ := List.forall_mem_cons.mp h
    have hsum : 0 ≤ vs.sum := List.sum_nonneg hvs
    have hcross : 0 ≤ v * vs.sum := mul_nonneg hv hsum
    rw [List.map_cons, List.sum_cons, List.sum_cons]
    nlinarith [ih hvs]

/-- Zeros count for nothing. -/
theorem sum_map_filter_ne_zero (f : ℝ → ℝ) (hf : f 0 = 0) (vs : List ℝ) :
    ((vs.filter fun v => decide (v ≠ 0)).map f).sum = (vs.map f).sum := by
  induction vs with
  | nil => rfl
  | cons v vs ih =>
    by_cases hv : v = 0
    · rw [List.filter_cons_of_neg (by simp [hv]), ih, List.map_cons, List.sum_cons, hv, hf, zero_add]
    · rw [List.filter_cons_of_pos (by simp [hv]), List.map_cons, List.sum_cons, ih, List.map_cons,
        List.sum_cons]

/-- **Cauchy-Schwarz**, over the masses that are not zero. -/
theorem sq_sum_le (vs : List ℝ) :
    vs.sum ^ 2 ≤ (vs.filter fun v => decide (v ≠ 0)).length * (vs.map (· ^ 2)).sum := by
  have hsum := sum_map_filter_ne_zero id rfl vs
  have hsq := sum_map_filter_ne_zero (· ^ 2) (by norm_num) vs
  rw [List.map_id, List.map_id] at hsum
  rw [← hsum, ← hsq]
  generalize (vs.filter fun v => decide (v ≠ 0)) = ws
  have hcauchy := sq_sum_le_card_mul_sum_sq (s := (Finset.univ : Finset (Fin ws.length)))
    (f := fun i => ws[i.1])
  rw [Finset.card_univ, Fintype.card_fin, Fin.sum_univ_fun_getElem ws (· ^ 2)] at hcauchy
  have hws := Fin.sum_univ_fun_getElem ws id
  rw [List.map_id] at hws
  rw [← hws]
  exact hcauchy

theorem sum_sq_pos {vs : List ℝ} (hpos : 0 < vs.sum) : 0 < (vs.map (· ^ 2)).sum := by
  refine lt_of_le_of_ne (sum_sq_nonneg vs) fun hzero => ?_
  have hle := sq_sum_le vs
  rw [← hzero, mul_zero] at hle
  exact absurd hle (not_le.mpr (pow_pos hpos 2))

theorem one_le_effective {vs : List ℝ} (h : ∀ v ∈ vs, 0 ≤ v) (hpos : 0 < vs.sum) :
    1 ≤ effective vs := by
  rw [effective, le_div_iff₀ (sum_sq_pos hpos), one_mul]
  exact sum_sq_le_sq_sum h

theorem effective_le {vs : List ℝ} (hpos : 0 < vs.sum) :
    effective vs ≤ (vs.filter fun v => decide (v ≠ 0)).length := by
  rw [effective, div_le_iff₀ (sum_sq_pos hpos)]
  exact sq_sum_le vs

end Lib
