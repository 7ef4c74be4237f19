/-
  File:      OddsEngine/Lib/Reserve.lean
  Subject:   Stakes on outcomes that exclude each other, and the reserve that makes them optimal.

  Outcome `i` has probability `p i` and pays `o i` for each unit staked on it. A RESERVE RATE is a
  number `R` that balances: the outcomes with `R < p i * o i` have `1 / o i` that sum to less than
  1, and the probability they leave is `R` times what that sum leaves of 1. The stakes with reserve
  `R` are `p i - R / o i` on these outcomes, and nothing on the others.

  * `IsReserve.unique` -- there is at most one reserve rate, so nothing of this depends on how the
    outcomes are numbered (`isReserve_comp`);
  * `IsReserve.optimal` -- no other stakes have a greater expected log wealth;
  * `IsReserve.scaled_mono` -- a smaller part of them has less, down to none at all.
-/
import Mathlib.Algebra.Order.BigOperators.Group.Finset
import OddsEngine.Lib.LogWealth

namespace Lib

variable {ι : Type} [Fintype ι]

/-- The bankroll once outcome `i` has happened: what was not staked, and what the stake pays. -/
def wealth (o f : ι → ℝ) (i : ι) : ℝ := 1 - ∑ j, f j + f i * o i

/-- The outcomes whose revenue rate beats `R`. -/
noncomputable def beating (p o : ι → ℝ) (R : ℝ) : Finset ι :=
  Finset.univ.filter fun i => R < p i * o i

@[simp] theorem mem_beating {p o : ι → ℝ} {R : ℝ} {i : ι} : i ∈ beating p o R ↔ R < p i * o i := by
  simp [beating]

structure IsReserve (p o : ι → ℝ) (R : ℝ) : Prop where
  feasible : ∑ i ∈ beating p o R, 1 / o i < 1
  balance : R * (1 - ∑ i ∈ beating p o R, 1 / o i) = 1 - ∑ i ∈ beating p o R, p i

/-- The stakes the reserve rate `R` leaves. -/
noncomputable def reserveStakes (p o : ι → ℝ) (R : ℝ) (i : ι) : ℝ :=
  if R < p i * o i then p i - R / o i else 0

/-- A sum over the beating outcomes is one over all of them. -/
theorem sum_beating (p o g : ι → ℝ) (R : ℝ) :
    ∑ i ∈ beating p o R, g i = ∑ i, if R < p i * o i then g i else 0 :=
  Finset.sum_filter _ _

theorem sum_reserveStakes {p o : ι → ℝ} {R : ℝ} (h : IsReserve p o R) :
    ∑ i, reserveStakes p o R i = 1 - R := by
  have hsum : ∑ i, reserveStakes p o R i =
      ∑ i ∈ beating p o R, p i - R * ∑ i ∈ beating p o R, 1 / o i := by
    rw [Finset.mul_sum, ← Finset.sum_sub_distrib, sum_beating p o (fun i => p i - R * (1 / o i)) R]
    refine Finset.sum_congr rfl fun i _ => ?_
    rw [reserveStakes, mul_one_div]
  rw [hsum]
  linarith [h.balance]

omit [Fintype ι] in
theorem reserveStakes_nonneg {p o : ι → ℝ} (ho : ∀ i, 0 < o i) (R : ℝ) (i : ι) :
    0 ≤ reserveStakes p o R i := by
  unfold reserveStakes
  split
  · next hlt => exact sub_nonneg.mpr ((div_lt_iff₀ (ho i)).mpr hlt).le
  · exact le_refl 0

omit [Fintype ι] in
theorem reserveStakes_pos_iff {p o : ι → ℝ} {R : ℝ} {i : ι} (ho : ∀ i, 0 < o i) :
    0 < reserveStakes p o R i ↔ R < p i * o i := by
  unfold reserveStakes
  split
  · next hlt => exact ⟨fun _ => hlt, fun _ => sub_pos.mpr ((div_lt_iff₀ (ho i)).mpr hlt)⟩
  · next hle => exact ⟨fun h => absurd h (lt_irrefl 0), fun h => absurd h hle⟩

theorem IsReserve.le_one {p o : ι → ℝ} {R : ℝ} (ho : ∀ i, 0 < o i) (h : IsReserve p o R) :
    R ≤ 1 := by
  have hsum := Finset.sum_nonneg fun i (_ : i ∈ Finset.univ) =>
    reserveStakes_nonneg (p := p) ho R i
  rw [sum_reserveStakes h] at hsum
  exact sub_nonneg.mp hsum

/-- Less than everything is in reserve where something is staked. -/
theorem IsReserve.lt_one {p o : ι → ℝ} {R : ℝ} (ho : ∀ i, 0 < o i) (h : IsReserve p o R) {i : ι}
    (hi : R < p i * o i) : R < 1 := by
  have hsum := Finset.single_le_sum (fun j _ => reserveStakes_nonneg (p := p) ho R j)
    (Finset.mem_univ i)
  rw [sum_reserveStakes h] at hsum
  exact sub_pos.mp (((reserveStakes_pos_iff ho).mpr hi).trans_le hsum)

/-! ## 1. There is only one -/

/-- Of two reserve rates neither is below the other. -/
theorem IsReserve.le {p o : ι → ℝ} {R R' : ℝ} (ho : ∀ i, 0 < o i) (h : IsReserve p o R)
    (h' : IsReserve p o R') : R' ≤ R := by
  classical
  by_contra hlt
  have hRR' : R < R' := not_le.mp hlt
  have hsub : beating p o R' ⊆ beating p o R := by
    intro i hi
    rw [mem_beating] at hi ⊢
    exact hRR'.trans hi
  -- the outcomes between the two rates
  have hbetween : ∑ i ∈ beating p o R \ beating p o R', p i ≤
      R' * ∑ i ∈ beating p o R \ beating p o R', 1 / o i := by
    rw [Finset.mul_sum]
    refine Finset.sum_le_sum fun i hi => ?_
    have hnot : p i * o i ≤ R' := by
      have hi' := (Finset.mem_sdiff.mp hi).2
      rw [mem_beating] at hi'
      exact not_lt.mp hi'
    rw [mul_one_div]
    exact (le_div_iff₀ (ho i)).mpr hnot
  have hp := Finset.sum_sdiff hsub (f := p)
  have hq := Finset.sum_sdiff hsub (f := fun i => 1 / o i)
  have hgap : R' * (1 - ∑ i ∈ beating p o R, 1 / o i) ≤ R * (1 - ∑ i ∈ beating p o R, 1 / o i) := by
    rw [h.balance, ← hp, ← hq, mul_sub, mul_one, mul_add]
    have hb := h'.balance
    rw [mul_sub, mul_one] at hb
    linarith
  exact hgap.not_gt (mul_lt_mul_of_pos_right hRR' (sub_pos.mpr h.feasible))

/-- **There is at most one reserve rate.** -/
theorem IsReserve.unique {p o : ι → ℝ} {R R' : ℝ} (ho : ∀ i, 0 < o i) (h : IsReserve p o R)
    (h' : IsReserve p o R') : R = R' :=
  le_antisymm (h'.le ho h) (h.le ho h')

/-- The numbering of the outcomes does not matter. -/
theorem sum_beating_comp (σ : Equiv.Perm ι) (p o g : ι → ℝ) (R : ℝ) :
    ∑ i ∈ beating (p ∘ σ) (o ∘ σ) R, g (σ i) = ∑ i ∈ beating p o R, g i := by
  rw [sum_beating (p ∘ σ) (o ∘ σ) (fun i => g (σ i)), sum_beating p o g]
  exact Equiv.sum_comp σ fun i => if R < p i * o i then g i else 0

theorem isReserve_comp (σ : Equiv.Perm ι) {p o : ι → ℝ} {R : ℝ} (h : IsReserve p o R) :
    IsReserve (p ∘ σ) (o ∘ σ) R where
  feasible := (sum_beating_comp σ p o (fun i => 1 / o i) R).trans_lt h.feasible
  balance := by
    show R * (1 - ∑ i ∈ beating (p ∘ σ) (o ∘ σ) R, 1 / o (σ i)) =
      1 - ∑ i ∈ beating (p ∘ σ) (o ∘ σ) R, p (σ i)
    rw [sum_beating_comp σ p o (fun i => 1 / o i), sum_beating_comp σ p o p]
    exact h.balance

theorem card_beating_comp (σ : Equiv.Perm ι) (p o : ι → ℝ) (R : ℝ) :
    (beating (p ∘ σ) (o ∘ σ) R).card = (beating p o R).card := by
  unfold beating
  rw [Finset.card_filter, Finset.card_filter]
  exact Equiv.sum_comp σ fun i => if R < p i * o i then 1 else 0

/-! ## 2. The stakes are optimal -/

section Optimal

variable {p o : ι → ℝ} {R : ℝ}

theorem IsReserve.nonneg (hp : ∀ i, 0 ≤ p i) (hsum : ∑ i, p i = 1) (h : IsReserve p o R) :
    0 ≤ R := by
  have hle : ∑ i ∈ beating p o R, p i ≤ 1 := by
    rw [← hsum]
    exact Finset.sum_le_univ_sum_of_nonneg hp
  have hmul : 0 ≤ R * (1 - ∑ i ∈ beating p o R, 1 / o i) := by
    rw [h.balance]
    exact sub_nonneg.mpr hle
  exact nonneg_of_mul_nonneg_left hmul (sub_pos.mpr h.feasible)

/-- What a staked outcome pays is its revenue rate; the others leave the reserve. -/
theorem wealth_reserveStakes (ho : ∀ i, 0 < o i) (h : IsReserve p o R) (i : ι) :
    wealth o (reserveStakes p o R) i = if R < p i * o i then p i * o i else R := by
  rw [wealth, sum_reserveStakes h, reserveStakes]
  split
  · rw [sub_mul, div_mul_cancel₀ _ (ho i).ne']
    ring
  · ring

theorem wealth_reserveStakes_pos (hp : ∀ i, 0 ≤ p i) (ho : ∀ i, 0 < o i) (h : IsReserve p o R)
    {i : ι} (hi : p i ≠ 0) : 0 < wealth o (reserveStakes p o R) i := by
  have hrate : 0 < p i * o i := mul_pos ((hp i).lt_of_ne' hi) (ho i)
  rw [wealth_reserveStakes ho h]
  split
  · exact hrate
  · next hle => exact hrate.trans_le (not_lt.mp hle)

/-- What a unit kept in reserve is worth: no more than a unit staked. -/
theorem sum_div_wealth_le (hp : ∀ i, 0 ≤ p i) (ho : ∀ i, 0 < o i) (hsum : ∑ i, p i = 1)
    (h : IsReserve p o R) : ∑ i, p i / wealth o (reserveStakes p o R) i ≤ 1 := by
  have hterm : ∀ i, p i / wealth o (reserveStakes p o R) i =
      (if R < p i * o i then 1 / o i else 0) +
        (p i / R - if R < p i * o i then p i / R else 0) := by
    intro i
    rw [wealth_reserveStakes ho h]
    split
    · next hlt =>
      have hrate : 0 < p i * o i := (h.nonneg hp hsum).trans_lt hlt
      have hpi : p i ≠ 0 := left_ne_zero_of_mul hrate.ne'
      rw [sub_self, add_zero, div_mul_eq_div_div, div_self hpi]
    · rw [zero_add, sub_zero]
  rw [Finset.sum_congr rfl fun i _ => hterm i, Finset.sum_add_distrib, Finset.sum_sub_distrib,
    ← sum_beating p o (fun i => 1 / o i), ← sum_beating p o (fun i => p i / R), ← Finset.sum_div,
    ← Finset.sum_div, hsum, ← sub_div, ← h.balance]
  rcases (h.nonneg hp hsum).eq_or_lt with hR | hR
  · rw [← hR, zero_mul, zero_div, add_zero, hR]
    exact h.feasible.le
  · rw [mul_div_cancel_left₀ _ hR.ne']
    linarith

/-- **No stakes have a greater expected log wealth.** -/
theorem IsReserve.optimal (hp : ∀ i, 0 ≤ p i) (ho : ∀ i, 0 < o i) (hsum : ∑ i, p i = 1)
    (h : IsReserve p o R) {g : ι → ℝ} (hg : ∀ i, 0 ≤ g i) (hg1 : ∑ i, g i ≤ 1) :
    expectedLog p (wealth o g) ≤ expectedLog p (wealth o (reserveStakes p o R)) := by
  have hR := h.nonneg hp hsum
  refine expectedLog_le hp (fun i => wealth_reserveStakes_pos hp ho h) ?_
  -- a unit staked on an outcome is worth no more than one in the optimal stakes
  have hunit : ∀ i, p i * o i / wealth o (reserveStakes p o R) i ≤ 1 := by
    intro i
    have hrate : 0 ≤ p i * o i := mul_nonneg (hp i) (ho i).le
    rw [wealth_reserveStakes ho h]
    split
    · exact div_self_le_one _
    · next hle => exact div_le_one_of_le₀ (not_lt.mp hle) hR
  have hterm : ∀ i ∈ Finset.univ, p i * (wealth o g i / wealth o (reserveStakes p o R) i) ≤
      (1 - ∑ j, g j) * (p i / wealth o (reserveStakes p o R) i) + g i := by
    intro i _
    have hsplit : p i * (wealth o g i / wealth o (reserveStakes p o R) i) =
        (1 - ∑ j, g j) * (p i / wealth o (reserveStakes p o R) i) +
          g i * (p i * o i / wealth o (reserveStakes p o R) i) := by
      rw [wealth]
      ring
    rw [hsplit]
    have hmul := mul_le_mul_of_nonneg_left (hunit i) (hg i)
    rw [mul_one] at hmul
    exact add_le_add_right hmul _
  refine (Finset.sum_le_sum hterm).trans ?_
  rw [Finset.sum_add_distrib, ← Finset.mul_sum, hsum]
  have hreserve := mul_le_mul_of_nonneg_left (sum_div_wealth_le hp ho hsum h)
    (sub_nonneg.mpr hg1)
  linarith

/-- The wealth of a part of some stakes is that part of the way to their wealth. -/
theorem wealth_scaled (o f : ι → ℝ) (c : ℝ) : wealth o (fun i => c * f i) = ray (wealth o f) c := by
  funext i
  rw [ray, wealth, wealth, ← Finset.mul_sum]
  ring

/-- **A greater part of the optimal stakes is at least as good.** -/
theorem IsReserve.scaled_mono (hp : ∀ i, 0 ≤ p i) (ho : ∀ i, 0 < o i) (hsum : ∑ i, p i = 1)
    (h : IsReserve p o R) {a b : ℝ} (ha : 0 ≤ a) (hab : a ≤ b) (hb : b ≤ 1) :
    expectedLog p (wealth o fun i => a * reserveStakes p o R i) ≤
      expectedLog p (wealth o fun i => b * reserveStakes p o R i) := by
  rw [wealth_scaled, wealth_scaled]
  refine expectedLog_ray_mono hp (fun i => wealth_reserveStakes_pos hp ho h) ?_ ha hab hb
  rw [hsum]
  exact sum_div_wealth_le hp ho hsum h

/-- Staking nothing leaves the wealth 1. -/
theorem expectedLog_unstaked (p o : ι → ℝ) : expectedLog p (wealth o fun _ => 0) = 0 := by
  have hone : wealth o (fun _ => 0) = fun _ => 1 := by
    funext i
    simp [wealth]
  rw [hone, expectedLog_one]

end Optimal

end Lib
