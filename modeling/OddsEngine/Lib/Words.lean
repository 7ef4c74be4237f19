/-
  File:      OddsEngine/Lib/Words.lean
  Subject:   Machine words as linearly ordered types, and the conversions the proofs need.

  `UInt32` and `UInt64` carry their order and the laws of it in core, but no `LinearOrder`
  instance; the list lemmas on sorted keys ask for one. The instances below add nothing to the
  orders: every field is the one the type already has.
-/
import Mathlib.Algebra.Group.Nat.Defs
import Mathlib.Order.Defs.LinearOrder
import Mathlib.Tactic.Common

namespace Lib

instance instLinearOrderUInt64 : LinearOrder UInt64 where
  le_refl := UInt64.le_refl
  le_trans _ _ _ := UInt64.le_trans
  le_antisymm _ _ := UInt64.le_antisymm
  le_total := UInt64.le_total
  toDecidableLE := inferInstance
  toDecidableLT := inferInstance
  toDecidableEq := inferInstance
  lt_iff_le_not_ge a b := by
    simp only [UInt64.lt_iff_toNat_lt, UInt64.le_iff_toNat_le]
    omega
  min_def _ _ := rfl
  max_def _ _ := rfl

instance instLinearOrderUInt32 : LinearOrder UInt32 where
  le_refl := UInt32.le_refl
  le_trans _ _ _ := UInt32.le_trans
  le_antisymm _ _ := UInt32.le_antisymm
  le_total := UInt32.le_total
  toDecidableLE := inferInstance
  toDecidableLT := inferInstance
  toDecidableEq := inferInstance
  lt_iff_le_not_ge a b := by
    simp only [UInt32.lt_iff_toNat_lt, UInt32.le_iff_toNat_le]
    omega
  min_def _ _ := rfl
  max_def _ _ := rfl

/-- Below the last 64-bit number one more is one more. -/
theorem toNat_succ_of_lt {q : UInt64} (h : q.toNat < 2 ^ 64 - 1) : (q + 1).toNat = q.toNat + 1 := by
  rw [UInt64.toNat_add]
  show (q.toNat + 1) % 2 ^ 64 = _
  omega

end Lib
