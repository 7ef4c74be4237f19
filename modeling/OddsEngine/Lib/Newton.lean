/-
  File:      OddsEngine/Lib/Newton.lean
  Subject:   Newton's step on a decreasing function that lies above its tangents.

  From either side the step of such a function lands where the function is positive, left of its
  root (`Tangents.step_pos`). From the left it moves right, and the product of value and slope falls
  to a quarter (`Tangents.step_quarter`): by the tangent at the new point the two ratios sum to at
  most 1. Sums of decaying exponentials are such functions (`tangents_expSum`).
-/
import Mathlib.Analysis.SpecialFunctions.Exp

namespace Lib

/-- `f` is decreasing, with the slope `df`, and lies strictly above its tangents. -/
structure Tangents (f df : ℝ → ℝ) : Prop where
  slope_neg : ∀ x, df x < 0
  above : ∀ x y, y ≠ x → f x + df x * (y - x) < f y

/-- Two ratios that sum to at most 1 have a product of at most a quarter. -/
theorem quarter_of_sum_le {v v' s s' : ℝ} (hv : 0 < v) (hs : 0 < s) (hv' : 0 ≤ v') (hs' : 0 ≤ s')
    (h : v' * s + v * s' ≤ v * s) : v' * s' ≤ v * s / 4 := by
  have hpos : 0 < v * s := mul_pos hv hs
  have hsum : 0 ≤ v' * s + v * s' := add_nonneg (mul_nonneg hv' hs.le) (mul_nonneg hv.le hs')
  have hsq : 4 * (v' * s' * (v * s)) ≤ v * s * (v * s) := by
    have hle := mul_self_le_mul_self hsum h
    nlinarith [sq_nonneg (v' * s - v * s')]
  have hcancel : 4 * (v' * s') ≤ v * s := by
    refine le_of_mul_le_mul_right ?_ hpos
    linarith
  linarith

section Step

variable {f df : ℝ → ℝ} (h : Tangents f df)

include h

theorem Tangents.strictAnti : StrictAnti f := by
  intro x y hxy
  have habove := h.above y x hxy.ne
  have hdrop := mul_pos_of_neg_of_neg (h.slope_neg y) (sub_neg.mpr hxy)
  linarith

/-- **Newton's step lands left of the root**, from either side. -/
theorem Tangents.step_pos {x : ℝ} (hx : f x ≠ 0) : 0 < f (x - f x / df x) := by
  have hne : x - f x / df x ≠ x := by
    rw [ne_eq, sub_eq_self]
    exact div_ne_zero hx (h.slope_neg x).ne
  have habove := h.above x _ hne
  have hslope := mul_div_cancel₀ (f x) (h.slope_neg x).ne
  have hzero : f x + df x * (x - f x / df x - x) = 0 := by
    linear_combination -hslope
  linarith

theorem Tangents.lt_step {x : ℝ} (hx : 0 < f x) : x < x - f x / df x := by
  have hneg := div_neg_of_pos_of_neg hx (h.slope_neg x)
  linarith

theorem Tangents.step_lt {x : ℝ} (hx : f x < 0) : x - f x / df x < x := by
  have hpos := div_pos_of_neg_of_neg hx (h.slope_neg x)
  linarith

/-- **From the left a step quarters the product of value and slope.** -/
theorem Tangents.step_quarter {x : ℝ} (hx : 0 < f x) :
    f (x - f x / df x) * -df (x - f x / df x) ≤ f x * -df x / 4 := by
  have hnext := h.step_pos hx.ne'
  have hneg := h.slope_neg x
  have hneg' := h.slope_neg (x - f x / df x)
  have habove := h.above (x - f x / df x) x (h.lt_step hx).ne
  -- with values `v`, `v'` and slopes `s`, `s'`: v' s + v s' ≤ v s
  have hsum : f (x - f x / df x) * -df x + f x * -df (x - f x / df x) ≤ f x * -df x := by
    have hmul := mul_lt_mul_of_pos_right habove (neg_pos.mpr hneg)
    have hslope := div_mul_cancel₀ (f x) hneg.ne
    have hstep : (x - (x - f x / df x)) * -df x = -f x := by
      rw [sub_sub_cancel]
      linear_combination -hslope
    have hprod : df (x - f x / df x) * (x - (x - f x / df x)) * -df x =
        df (x - f x / df x) * -f x := by rw [mul_assoc, hstep]
    rw [add_mul, hprod] at hmul
    linarith
  exact quarter_of_sum_le hx (neg_pos.mpr hneg) hnext.le (neg_pos.mpr hneg').le hsum

end Step

/-! ## Sums of exponentials -/

/-- `∑ e^(x l)` over the exponents `l`, and its slope. -/
noncomputable def expSum (ls : List ℝ) (x : ℝ) : ℝ := (ls.map fun l => Real.exp (x * l)).sum

noncomputable def expSlope (ls : List ℝ) (x : ℝ) : ℝ := (ls.map fun l => l * Real.exp (x * l)).sum

@[simp] theorem expSum_cons (l : ℝ) (ls : List ℝ) (x : ℝ) :
    expSum (l :: ls) x = Real.exp (x * l) + expSum ls x := by simp [expSum]

@[simp] theorem expSlope_cons (l : ℝ) (ls : List ℝ) (x : ℝ) :
    expSlope (l :: ls) x = l * Real.exp (x * l) + expSlope ls x := by simp [expSlope]

/-- One exponential lies above its tangents. -/
theorem exp_above_tangent {l x y : ℝ} (hl : l ≠ 0) (hne : y ≠ x) :
    Real.exp (x * l) + l * Real.exp (x * l) * (y - x) < Real.exp (y * l) := by
  have hlt := Real.add_one_lt_exp (mul_ne_zero (sub_ne_zero.mpr hne) hl)
  have hsplit : Real.exp (y * l) = Real.exp (x * l) * Real.exp ((y - x) * l) := by
    rw [← Real.exp_add]
    congr 1
    ring
  rw [hsplit]
  have hmul := mul_lt_mul_of_pos_left hlt (Real.exp_pos (x * l))
  linarith

/-- **A sum of decaying exponentials decreases and lies above its tangents.** -/
theorem tangents_expSum {ls : List ℝ} (hne : ls ≠ []) (hneg : ∀ l ∈ ls, l < 0) (c : ℝ) :
    Tangents (fun x => expSum ls x - c) (expSlope ls) where
  slope_neg x := by
    induction ls with
    | nil => exact absurd rfl hne
    | cons l ls ih =>
      have hl := mul_neg_of_neg_of_pos (hneg l List.mem_cons_self) (Real.exp_pos (x * l))
      rw [expSlope_cons]
      by_cases hnil : ls = []
      · simpa [hnil, expSlope] using hl
      · linarith [ih hnil fun k hk => hneg k (List.mem_cons_of_mem l hk)]
  above x y hxy := by
    have hsum : expSum ls x + expSlope ls x * (y - x) < expSum ls y := by
      induction ls with
      | nil => exact absurd rfl hne
      | cons l ls ih =>
        have hl := exp_above_tangent (hneg l List.mem_cons_self).ne hxy
        rw [expSum_cons, expSlope_cons, expSum_cons, add_mul]
        by_cases hnil : ls = []
        · simpa [hnil, expSum, expSlope] using hl
        · linarith [ih hnil fun k hk => hneg k (List.mem_cons_of_mem l hk)]
    linarith

end Lib
