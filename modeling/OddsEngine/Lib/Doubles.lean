/-
  File:      OddsEngine/Lib/Doubles.lean
  Subject:   What a program of doubles computes with, and its reading over the real numbers.

  A numeric program is written once, over any type that has the operations of `DoubleArith`; no law
  of arithmetic is assumed of them, so what is proved of the program there holds of machine doubles
  as well. Over the reals the same program is exact arithmetic (`instDoubleArithReal`: every number
  is finite). `sumLoop` is the loop `sum = 0; for (x : xs) sum += x;`, in its order.
-/
import Mathlib.Algebra.BigOperators.Group.List.Basic
import Mathlib.Analysis.SpecialFunctions.Log.Basic
import Mathlib.Analysis.SpecialFunctions.Sqrt

namespace Lib

/-- The functions of the C math library the programs use. -/
class Libm (F : Type) where
  sqrt : F → F
  exp : F → F
  log : F → F
  abs : F → F
  isfinite : F → Bool

/-- Doubles read as exact real numbers. -/
noncomputable instance instLibmReal : Libm ℝ where
  sqrt := Real.sqrt
  exp := Real.exp
  log := Real.log
  abs x := |x|
  isfinite _ := true

/-- The operations of a program of doubles: the operators, the comparisons, the library. -/
class DoubleArith (F : Type) extends Zero F, One F, NatCast F, OfScientific F, Add F, Sub F, Mul F,
    LE F, LT F, BEq F, Libm F where
  div : Div F
  decLE : DecidableLE F
  decLT : DecidableLT F

attribute [reducible, instance] DoubleArith.decLE DoubleArith.decLT

/-- The quotients of a program of doubles. Over the reals those of the field go before them. -/
instance (priority := low) instDivOfDoubleArith {F : Type} [DoubleArith F] : Div F :=
  DoubleArith.div

noncomputable instance instDoubleArithReal : DoubleArith ℝ where
  div := inferInstance
  decLE := inferInstance
  decLT := inferInstance

@[simp] theorem real_sqrt (x : ℝ) : Libm.sqrt x = Real.sqrt x := rfl

@[simp] theorem real_isfinite (x : ℝ) : Libm.isfinite x = true := rfl

/-- `static_cast<uint32_t>`: the fraction is cut off. Only for a value between 0 and 2^32 does the
    language say what comes out. -/
class Truncate (F : Type) where
  toUInt32 : F → UInt32

noncomputable instance instTruncateReal : Truncate ℝ where
  toUInt32 x := ⌊x⌋₊.toUInt32

theorem toNat_toUInt32 {x : ℝ} (h : ⌊x⌋₊ < 2 ^ 32) : (Truncate.toUInt32 x).toNat = ⌊x⌋₊ :=
  UInt32.toNat_ofNat_of_lt' h

/-- A literal above 1 carries the proof that it is; a definition that takes it by this name reads
    the same in any context. -/
theorem two_atLeastTwo : Nat.AtLeastTwo 2 := inferInstance

theorem four_atLeastTwo : Nat.AtLeastTwo 4 := inferInstance

/-- The accumulation loop, from zero and from the left. -/
def sumLoop {F : Type} [Zero F] [Add F] (xs : List F) : F := xs.foldl (· + ·) 0

theorem sumLoop_eq_sum (xs : List ℝ) : sumLoop xs = xs.sum := by
  have h : ∀ (a : ℝ) (ys : List ℝ), ys.foldl (· + ·) a = a + ys.sum := by
    intro a ys
    induction ys generalizing a with
    | nil => simp
    | cons y ys ih => rw [List.foldl_cons, ih, List.sum_cons, add_assoc]
  rw [sumLoop, h, zero_add]

end Lib
