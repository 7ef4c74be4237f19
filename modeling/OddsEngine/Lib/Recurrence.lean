/-
  File:      OddsEngine/Lib/Recurrence.lean
  Subject:   Linear recurrences of the first order.

  A quantity that keeps the part `a` of itself at each step and takes a shock on top is, after `n`
  steps, what is left of its start and of every shock (`linear_recurrence`). Where the shocks stay
  between two bounds, so does the quantity, however long it runs (`recurrence_bounds`).
-/
import Mathlib.Algebra.BigOperators.Ring.Finset
import Mathlib.Algebra.Order.Field.Basic
import Mathlib.Tactic.Linarith
import Mathlib.Tactic.Ring

namespace Lib

variable {K : Type*} [Field K]

/-- **The solution**: each shock has decayed for as long as it is back. -/
theorem linear_recurrence {a : K} {x shock : ℕ → K} (h : ∀ n, x (n + 1) = a * x n + shock n)
    (n : ℕ) : x n = a ^ n * x 0 + ∑ k ∈ Finset.range n, a ^ (n - 1 - k) * shock k := by
  induction n with
  | zero => simp
  | succ n ih =>
    have hdecay : ∑ k ∈ Finset.range n, a ^ (n - k) * shock k =
        a * ∑ k ∈ Finset.range n, a ^ (n - 1 - k) * shock k := by
      rw [Finset.mul_sum]
      refine Finset.sum_congr rfl fun k hk => ?_
      have hlt := Finset.mem_range.mp hk
      rw [show n - k = n - 1 - k + 1 by omega, pow_succ]
      ring
    rw [h, ih, Finset.sum_range_succ, Nat.add_sub_cancel, Nat.sub_self, pow_zero, one_mul, hdecay]
    ring

/-- **It stays between its bounds**: those the shocks alone would drive it to. -/
theorem recurrence_bounds [LinearOrder K] [IsStrictOrderedRing K] {a lo hi : K} (ha : 0 ≤ a)
    {x shock : ℕ → K} (h : ∀ n, x (n + 1) = a * x n + shock n) (hstart : lo ≤ x 0 ∧ x 0 ≤ hi)
    {n : ℕ} (hshock : ∀ k < n, (1 - a) * lo ≤ shock k ∧ shock k ≤ (1 - a) * hi) :
    lo ≤ x n ∧ x n ≤ hi := by
  induction n with
  | zero => exact hstart
  | succ n ih =>
    obtain ⟨hlo, hhi⟩ := ih fun k hk => hshock k (Nat.lt_succ_of_lt hk)
    obtain ⟨hslo, hshi⟩ := hshock n (Nat.lt_succ_self n)
    have hklo := mul_le_mul_of_nonneg_left hlo ha
    have hkhi := mul_le_mul_of_nonneg_left hhi ha
    rw [h]
    constructor
    · linarith
    · linarith

end Lib
