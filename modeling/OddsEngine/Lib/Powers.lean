/-
  File:      OddsEngine/Lib/Powers.lean
  Subject:   Inequalities between powers and between exponentials.

  A concave power moves two numbers that sum to 1 closer together (`rpow_sub_rpow_le`). A sum of two
  exponentials with weights that are not negative is convex: it stays below a bound between two
  points where it does (`expPair_le_of_between`), and does not fall from where its slope is not
  negative (`expPair_le_of_slope`).
-/
import Mathlib.Analysis.Convex.SpecificFunctions.Basic
import Mathlib.Analysis.MeanInequalities

namespace Lib

/-! ## Two numbers that sum to 1 -/

section One

variable {x y : ℝ} (hx : 0 < x) (hxy : x ≤ y) (hsum : x + y = 1)

include hx hxy hsum

/-- `y` is the mean of `x` and 1 with the weight `x / y`, and a power that is not positive is
    convex. -/
theorem rpow_le_mean {s : ℝ} (hs : s ≤ 0) : y ^ s ≤ x / y * x ^ s + (1 - x / y) := by
  have hy : 0 < y := hx.trans_le hxy
  have hw : 0 ≤ x / y := (div_pos hx hy).le
  have hw' : 0 ≤ 1 - x / y := sub_nonneg.mpr ((div_le_one hy).mpr hxy)
  have hmean : x / y * x + (1 - x / y) * 1 = y := by
    field_simp
    linear_combination (x - y) * hsum
  have hgeom : x ^ (x / y) ≤ y := by
    have h := Real.geom_mean_le_arith_mean2_weighted hw hw' hx.le zero_le_one (by ring)
    rwa [hmean, Real.one_rpow, mul_one] at h
  have hpos : 0 < x ^ (x / y) := Real.rpow_pos_of_pos hx _
  calc y ^ s ≤ (x ^ (x / y)) ^ s := Real.rpow_le_rpow_of_nonpos hpos hgeom hs
    _ = (x ^ s) ^ (x / y) * 1 ^ (1 - x / y) := by
      rw [← Real.rpow_mul hx.le, ← Real.rpow_mul hx.le, mul_comm s, Real.one_rpow, mul_one]
    _ ≤ x / y * x ^ s + (1 - x / y) * 1 :=
      Real.geom_mean_le_arith_mean2_weighted hw hw' (Real.rpow_pos_of_pos hx s).le zero_le_one
        (by ring)
    _ = x / y * x ^ s + (1 - x / y) := by rw [mul_one]

/-- **A concave power moves them closer together.** -/
theorem rpow_sub_rpow_le {r : ℝ} (hr : r ≤ 1) : y ^ r - x ^ r ≤ y - x := by
  have hy : 0 < y := hx.trans_le hxy
  have hsplit : ∀ w : ℝ, 0 < w → w ^ r = w * w ^ (r - 1) := fun w hw => by
    rw [Real.rpow_sub_one hw.ne', mul_div_cancel₀ _ hw.ne']
  have hmean := rpow_le_mean hx hxy hsum (sub_nonpos.mpr hr)
  have hmul := mul_le_mul_of_nonneg_left hmean hy.le
  have hright : y * (x / y * x ^ (r - 1) + (1 - x / y)) = x * x ^ (r - 1) + (y - x) := by
    field_simp
  rw [hright, ← hsplit x hx, ← hsplit y hy] at hmul
  linarith

end One

/-! ## Two exponentials -/

/-- `a e^(b x) + c e^(d x)`. -/
noncomputable def expPair (a b c d x : ℝ) : ℝ := a * Real.exp (b * x) + c * Real.exp (d * x)

section Pair

variable {a b c d : ℝ} (ha : 0 ≤ a) (hc : 0 ≤ c)

include ha hc

theorem convexOn_expPair : ConvexOn ℝ Set.univ (expPair a b c d) := by
  have hexp : ∀ t : ℝ, ConvexOn ℝ Set.univ fun x => Real.exp (t * x) :=
    fun t => convexOn_exp.comp_linearMap (LinearMap.mulLeft ℝ t)
  exact ((hexp b).smul ha).add ((hexp d).smul hc)

theorem expPair_le_of_between {m x y w : ℝ} (hx : expPair a b c d x ≤ m)
    (hy : expPair a b c d y ≤ m) (hxw : x ≤ w) (hwy : w ≤ y) : expPair a b c d w ≤ m :=
  ((convexOn_expPair ha hc).le_max_of_mem_Icc (Set.mem_univ x) (Set.mem_univ y) ⟨hxw, hwy⟩).trans
    (max_le hx hy)

theorem expPair_le_of_slope {x y : ℝ}
    (hslope : 0 ≤ a * (b * Real.exp (b * x)) + c * (d * Real.exp (d * x))) (hxy : x ≤ y) :
    expPair a b c d x ≤ expPair a b c d y := by
  have htangent : ∀ t : ℝ, Real.exp (t * x) * (1 + t * (y - x)) ≤ Real.exp (t * y) := by
    intro t
    have hadd := Real.add_one_le_exp (t * (y - x))
    have hsplit : Real.exp (t * y) = Real.exp (t * x) * Real.exp (t * (y - x)) := by
      rw [← Real.exp_add]
      congr 1
      ring
    rw [hsplit]
    exact mul_le_mul_of_nonneg_left (by linarith) (Real.exp_pos _).le
  have hb := mul_le_mul_of_nonneg_left (htangent b) ha
  have hd := mul_le_mul_of_nonneg_left (htangent d) hc
  have hrise := mul_nonneg hslope (sub_nonneg.mpr hxy)
  unfold expPair
  linarith

end Pair

end Lib
