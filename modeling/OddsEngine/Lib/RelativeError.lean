/-
  File:      OddsEngine/Lib/RelativeError.lean
  Subject:   Numbers within a relative error of others.

  `Within d x y`: `y` is off `x` by at most the share `d` of it. Sums keep the bound (`within_sum`),
  the shares of a sum keep twice of it (`within_share`), and a quotient whose divisor is rounded to
  a whole number not below `lo` is within half of `1 / lo` (`within_div_floor`).
-/
import Mathlib.Algebra.BigOperators.Ring.Finset
import Mathlib.Algebra.Order.Archimedean.Real.Basic
import Mathlib.Algebra.Order.BigOperators.Group.Finset
import Mathlib.Algebra.Order.Floor.Semiring
import Mathlib.Tactic.FieldSimp
import Mathlib.Tactic.Linarith
import Mathlib.Tactic.Ring

namespace Lib

open Finset

/-- `y` is `x`, up to a share `d` of it. -/
def Within (d x y : ℝ) : Prop := |y - x| ≤ d * x

variable {d x y : ℝ}

theorem Within.le (h : Within d x y) : y ≤ (1 + d) * x := by
  have hub := (abs_le.mp h).2
  linarith

theorem Within.ge (h : Within d x y) : (1 - d) * x ≤ y := by
  have hlb := (abs_le.mp h).1
  linarith

theorem Within.mono {e : ℝ} (h : Within d x y) (hde : d ≤ e) (hx : 0 ≤ x) : Within e x y :=
  le_trans h (mul_le_mul_of_nonneg_right hde hx)

/-- Two errors, one on top of the other. -/
theorem Within.trans {e w : ℝ} (h : Within d x y) (h' : Within e y w) (he : 0 ≤ e) :
    Within ((1 + d) * (1 + e) - 1) x w := by
  have hstep : e * y ≤ e * ((1 + d) * x) := mul_le_mul_of_nonneg_left h.le he
  have hsplit : w - x = (w - y) + (y - x) := by ring
  unfold Within
  calc |w - x| = |(w - y) + (y - x)| := by rw [hsplit]
    _ ≤ |w - y| + |y - x| := abs_add_le _ _
    _ ≤ e * y + d * x := add_le_add h' h
    _ ≤ ((1 + d) * (1 + e) - 1) * x := by linarith

theorem within_sum {ι : Type*} {s : Finset ι} {f g : ι → ℝ} (h : ∀ i ∈ s, Within d (f i) (g i)) :
    Within d (∑ i ∈ s, f i) (∑ i ∈ s, g i) := by
  unfold Within
  rw [← sum_sub_distrib, mul_sum]
  exact (abs_sum_le_sum_abs _ _).trans (sum_le_sum h)

/-- **The shares** of two totals that are as close as their parts. -/
theorem within_share {X Y : ℝ} (hd : 0 ≤ d) (hd1 : d < 1) (hx : 0 ≤ x) (hX : 0 < X)
    (h : Within d x y) (hsum : Within d X Y) : Within (2 * d / (1 - d)) (x / X) (y / Y) := by
  have hgap : 0 < 1 - d := by linarith
  have hY : (1 - d) * X ≤ Y := hsum.ge
  have hYpos : 0 < Y := (mul_pos hgap hX).trans_le hY
  have hcross : |y * X - Y * x| ≤ 2 * d * (x * X) := by
    have hsplit : y * X - Y * x = (y - x) * X - x * (Y - X) := by ring
    have hleft : |(y - x) * X| ≤ d * x * X := by
      rw [abs_mul, abs_of_pos hX]
      exact mul_le_mul_of_nonneg_right h hX.le
    have hright : |x * (Y - X)| ≤ x * (d * X) := by
      rw [abs_mul, abs_of_nonneg hx]
      exact mul_le_mul_of_nonneg_left hsum hx
    calc |y * X - Y * x| = |(y - x) * X - x * (Y - X)| := by rw [hsplit]
      _ ≤ |(y - x) * X| + |x * (Y - X)| := abs_sub _ _
      _ ≤ d * x * X + x * (d * X) := add_le_add hleft hright
      _ = 2 * d * (x * X) := by ring
  unfold Within
  rw [div_sub_div y x hYpos.ne' hX.ne', abs_div, abs_of_pos (mul_pos hYpos hX),
    div_le_iff₀ (mul_pos hYpos hX)]
  have hscale : 2 * d * (x * X) ≤ 2 * d / (1 - d) * (x / X) * (Y * X) := by
    have hfactor : 0 ≤ 2 * d / (1 - d) * x := mul_nonneg (div_nonneg (by linarith) hgap.le) hx
    have hlow := mul_le_mul_of_nonneg_left hY hfactor
    have hleft : 2 * d / (1 - d) * x * ((1 - d) * X) = 2 * d * (x * X) := by
      field_simp
    have hright : 2 * d / (1 - d) * (x / X) * (Y * X) = 2 * d / (1 - d) * x * Y := by
      field_simp
    rw [hright, ← hleft]
    exact hlow
  exact hcross.trans hscale

/-- Rounding to the nearest is off by a half at most. -/
theorem abs_floor_half_sub_le (hx : 0 ≤ x) : |((⌊x + 1 / 2⌋₊ : ℕ) : ℝ) - x| ≤ 1 / 2 := by
  have hle : ((⌊x + 1 / 2⌋₊ : ℕ) : ℝ) ≤ x + 1 / 2 := Nat.floor_le (by linarith)
  have hlt : x + 1 / 2 < ((⌊x + 1 / 2⌋₊ : ℕ) : ℝ) + 1 := Nat.lt_floor_add_one _
  rw [abs_le]
  constructor
  · linarith
  · linarith

/-- **A divisor rounded**, of which the rounded one is not below `lo`. -/
theorem within_div_floor {c : ℝ} {lo : ℕ} (hc : 0 ≤ c) (hlo : 0 < lo) (hx : (lo : ℝ) ≤ x) :
    Within (1 / 2 / lo) (c / x) (c / ((⌊x + 1 / 2⌋₊ : ℕ) : ℝ)) := by
  have hlopos : (0 : ℝ) < lo := Nat.cast_pos.mpr hlo
  have hxpos : 0 < x := hlopos.trans_le hx
  have hfloor : (lo : ℝ) ≤ ((⌊x + 1 / 2⌋₊ : ℕ) : ℝ) := by
    exact_mod_cast Nat.le_floor (by linarith : (lo : ℝ) ≤ x + 1 / 2)
  have hround := abs_floor_half_sub_le hxpos.le
  generalize ((⌊x + 1 / 2⌋₊ : ℕ) : ℝ) = o at hfloor hround ⊢
  have hopos : 0 < o := hlopos.trans_le hfloor
  have hdiff : c / o - c / x = c / x * ((x - o) / o) := by
    field_simp
  have hshare : |(x - o) / o| ≤ 1 / 2 / lo := by
    rw [abs_div, abs_of_pos hopos, abs_sub_comm]
    exact div_le_div₀ (by norm_num) hround hlopos hfloor
  unfold Within
  rw [hdiff, abs_mul, abs_of_nonneg (div_nonneg hc hxpos.le), mul_comm]
  exact mul_le_mul_of_nonneg_right hshare (div_nonneg hc hxpos.le)

end Lib
