/-
  File:      OddsEngine/Lib/LogWealth.lean
  Subject:   The expected logarithm of a wealth that depends on an outcome.

  Outcome `i` has probability `p i` and leaves the wealth `w i`; ruin has the logarithm `-∞`, and an
  outcome of probability 0 counts as 0 whatever it leaves. Two wealths are compared by one
  first-order sum, because the logarithm is concave:

  * `expectedLog_le` -- `w` is at least as good as `v` if `∑ p v / w ≤ ∑ p`;
  * `expectedLog_ray_mono` -- on the way from wealth 1 to `w` the expectation never falls, if
    `∑ p / w ≤ ∑ p`.
-/
import Mathlib.Analysis.SpecialFunctions.Log.Basic
import Mathlib.Data.EReal.Operations
import Mathlib.Algebra.BigOperators.Field

namespace Lib

variable {ι : Type} [Fintype ι]

/-- The logarithm, with `log 0 = -∞`. -/
noncomputable def logE (x : ℝ) : EReal := if x ≤ 0 then ⊥ else (Real.log x : EReal)

/-- `∑ p log w`, a term of probability 0 counted as 0. -/
noncomputable def expectedLog (p w : ι → ℝ) : EReal :=
  ∑ i, if p i = 0 then 0 else (p i : EReal) * logE (w i)

/-- The sum is a real number where no outcome that can happen is ruin. -/
theorem expectedLog_of_pos {p w : ι → ℝ} (h : ∀ i, p i ≠ 0 → 0 < w i) :
    expectedLog p w = ((∑ i, p i * Real.log (w i) : ℝ) : EReal) := by
  have hcoe : ∀ s : Finset ι, ((∑ i ∈ s, p i * Real.log (w i) : ℝ) : EReal) =
      ∑ i ∈ s, ((p i * Real.log (w i) : ℝ) : EReal) := by
    intro s
    classical
    induction s using Finset.induction_on with
    | empty => simp
    | insert i s hi ih => rw [Finset.sum_insert hi, Finset.sum_insert hi, EReal.coe_add, ih]
  rw [expectedLog, hcoe]
  refine Finset.sum_congr rfl fun i _ => ?_
  by_cases hp : p i = 0
  · simp [hp]
  · rw [if_neg hp, logE, if_neg (h i hp).not_ge, EReal.coe_mul]

/-- One outcome that can happen and is ruin makes the expectation `-∞`. -/
theorem expectedLog_eq_bot {p w : ι → ℝ} {i : ι} (hp : 0 < p i) (hw : w i ≤ 0) :
    expectedLog p w = ⊥ := by
  classical
  have hterm : (if p i = 0 then 0 else (p i : EReal) * logE (w i)) = ⊥ := by
    rw [if_neg hp.ne', logE, if_pos hw]
    exact EReal.coe_mul_bot_of_pos hp
  rw [expectedLog, ← Finset.add_sum_erase _ _ (Finset.mem_univ i), hterm, EReal.bot_add]

theorem expectedLog_one (p : ι → ℝ) : expectedLog p (fun _ => 1) = 0 := by
  rw [expectedLog_of_pos fun _ _ => one_pos]
  simp

/-- **The first-order test**: `w` is at least as good as `v`. -/
theorem expectedLog_le {p v w : ι → ℝ} (hp : ∀ i, 0 ≤ p i) (hw : ∀ i, p i ≠ 0 → 0 < w i)
    (h : ∑ i, p i * (v i / w i) ≤ ∑ i, p i) : expectedLog p v ≤ expectedLog p w := by
  by_cases hruin : ∃ i, p i ≠ 0 ∧ v i ≤ 0
  · obtain ⟨i, hpi, hvi⟩ := hruin
    rw [expectedLog_eq_bot ((hp i).lt_of_ne' hpi) hvi]
    exact bot_le
  have hv : ∀ i, p i ≠ 0 → 0 < v i := by
    intro i hpi
    by_contra hvi
    exact hruin ⟨i, hpi, not_lt.mp hvi⟩
  rw [expectedLog_of_pos hv, expectedLog_of_pos hw, EReal.coe_le_coe_iff]
  -- log v - log w = log (v / w) ≤ v / w - 1
  have hterm : ∀ i ∈ Finset.univ,
      p i * Real.log (v i) ≤ p i * Real.log (w i) + (p i * (v i / w i) - p i) := by
    intro i _
    by_cases hpi : p i = 0
    · simp [hpi]
    · have hlog := Real.log_le_sub_one_of_pos (div_pos (hv i hpi) (hw i hpi))
      rw [Real.log_div (hv i hpi).ne' (hw i hpi).ne'] at hlog
      have hmul := mul_le_mul_of_nonneg_left hlog (hp i)
      linarith [mul_sub (p i) (Real.log (v i)) (Real.log (w i)),
        mul_sub (p i) (v i / w i) 1, mul_one (p i)]
  have hsum := Finset.sum_le_sum hterm
  rw [Finset.sum_add_distrib, Finset.sum_sub_distrib] at hsum
  linarith

/-- The wealth after the part `c` of the way from 1 to `w`. -/
def ray (w : ι → ℝ) (c : ℝ) (i : ι) : ℝ := 1 + c * (w i - 1)

omit [Fintype ι] in
theorem ray_pos {w : ι → ℝ} {c : ℝ} {i : ι} (hw : 0 < w i) (hc : 0 ≤ c) (hc1 : c ≤ 1) :
    0 < ray w c i := by
  have hmul : 0 ≤ c * w i := mul_nonneg hc hw.le
  rcases hc1.lt_or_eq with hlt | rfl
  · unfold ray
    linarith [mul_sub c (w i) 1]
  · unfold ray
    linarith

omit [Fintype ι] in
/-- The farther on the ray, the less a step on it changes the wealth in proportion. -/
theorem sub_one_div_ray {w : ι → ℝ} {c : ℝ} {i : ι} (hw : 0 < w i) (hc : 0 ≤ c) (hc1 : c ≤ 1) :
    1 - 1 / w i ≤ (w i - 1) / ray w c i := by
  have hr : 0 < ray w c i := ray_pos hw hc hc1
  have hlhs : 1 - 1 / w i = (w i - 1) / w i := by
    field_simp
  rw [hlhs, div_le_div_iff₀ hw hr, ray]
  nlinarith [mul_nonneg (sub_nonneg.mpr hc1) (sq_nonneg (w i - 1))]

/-- **The expectation never falls on the way from 1 to `w`.** -/
theorem expectedLog_ray_mono {p w : ι → ℝ} (hp : ∀ i, 0 ≤ p i) (hw : ∀ i, p i ≠ 0 → 0 < w i)
    (h : ∑ i, p i / w i ≤ ∑ i, p i) {a b : ℝ} (ha : 0 ≤ a) (hab : a ≤ b) (hb : b ≤ 1) :
    expectedLog p (ray w a) ≤ expectedLog p (ray w b) := by
  have hb0 : 0 ≤ b := ha.trans hab
  refine expectedLog_le hp (fun i hpi => ray_pos (hw i hpi) hb0 hb) ?_
  have hterm : ∀ i ∈ Finset.univ,
      p i * (ray w a i / ray w b i) ≤ p i - (b - a) * (p i - p i / w i) := by
    intro i _
    by_cases hpi : p i = 0
    · simp [hpi]
    · have hr : 0 < ray w b i := ray_pos (hw i hpi) hb0 hb
      have hstep : ray w a i / ray w b i = 1 - (b - a) * ((w i - 1) / ray w b i) := by
        rw [div_eq_iff hr.ne', sub_mul, mul_assoc, div_mul_cancel₀ _ hr.ne', ray, ray]
        ring
      have hmul := mul_le_mul_of_nonneg_left (sub_one_div_ray (hw i hpi) hb0 hb)
        (mul_nonneg (hp i) (sub_nonneg.mpr hab))
      rw [hstep]
      have hdiv : p i / w i = p i * (1 / w i) := (mul_one_div _ _).symm
      rw [hdiv]
      linarith [mul_sub (p i) 1 ((b - a) * ((w i - 1) / ray w b i))]
  have hsum := Finset.sum_le_sum hterm
  rw [Finset.sum_sub_distrib, ← Finset.mul_sum, Finset.sum_sub_distrib] at hsum
  have hgap : 0 ≤ (b - a) * (∑ i, p i - ∑ i, p i / w i) :=
    mul_nonneg (sub_nonneg.mpr hab) (sub_nonneg.mpr h)
  linarith

end Lib
