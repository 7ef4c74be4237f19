/-
  File:      OddsEngine/Lib/Shares.lean
  Subject:   Weights of which the larger keep the larger share.

  `p` keeps of each weight of `q` a share that does not fall as the weight grows. Then it keeps the
  order of the weights (`SharesGrow.le`), and scaled to the same sum the least weight comes out
  smaller (`SharesGrow.mul_sum_le`), the greatest larger (`SharesGrow.le_mul_sum`).
-/
import Mathlib.Algebra.Order.BigOperators.Ring.Finset
import Mathlib.Algebra.Order.Field.Basic

namespace Lib

variable {ι K : Type} [Field K] [LinearOrder K] [IsStrictOrderedRing K]

/-- `p / q` does not fall as `q` grows. -/
def SharesGrow (s : Finset ι) (p q : ι → K) : Prop :=
  ∀ i ∈ s, ∀ j ∈ s, q i ≤ q j → p i * q j ≤ p j * q i

section Weights

variable {s : Finset ι} {p q : ι → K} (h : SharesGrow s p q) {i j : ι} (hi : i ∈ s)

include h hi

theorem SharesGrow.le (hj : j ∈ s) (hp : 0 ≤ p j) (hq : 0 < q j) (hle : q i ≤ q j) : p i ≤ p j := by
  refine le_of_mul_le_mul_right ?_ hq
  calc p i * q j ≤ p j * q i := h i hi j hj hle
    _ ≤ p j * q j := mul_le_mul_of_nonneg_left hle hp

/-- The least weight. -/
theorem SharesGrow.mul_sum_le (hleast : ∀ j ∈ s, q i ≤ q j) :
    p i * ∑ j ∈ s, q j ≤ (∑ j ∈ s, p j) * q i := by
  rw [Finset.mul_sum, Finset.sum_mul]
  exact Finset.sum_le_sum fun j hj => h i hi j hj (hleast j hj)

/-- The greatest. -/
theorem SharesGrow.le_mul_sum (hgreatest : ∀ j ∈ s, q j ≤ q i) :
    (∑ j ∈ s, p j) * q i ≤ p i * ∑ j ∈ s, q j := by
  rw [Finset.mul_sum, Finset.sum_mul]
  exact Finset.sum_le_sum fun j hj => h j hj i hi (hgreatest j hj)

end Weights

end Lib
