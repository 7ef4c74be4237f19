/-
  File:      OddsEngine/Sim/Bookmaker.lean
  Subject:   The simulated books: their settings, and the price a quoted probability is sent as
             (sim/Bookmaker.hpp, `default_roster` of sim/main.cpp).

  `quote` turns a book's lagged view into probabilities with a margin, and each of those into
  thousandths of decimal odds. `oddsMilli` is that last step, the clamp and the rounding: over the
  reals it stays between the two bounds of the format whatever the probability
  (`oddsMilli_bounds`).
-/
import Mathlib.Data.List.Basic
import OddsEngine.Lib.Doubles

namespace OddsEngine

open Lib

/-- How a book converts its belief into a quoted price by adding margin. -/
inductive VigModel where
  | power
  | additive
  | proportional
  deriving DecidableEq, Repr

structure BookConfig (F : Type) where
  bookId : UInt16
  lagTicks : Int32
  overround : F
  noiseSigma : F
  skew : F
  vigModel : VigModel := .power

structure SimBookConfig (F : Type) where
  cfg : BookConfig F
  updateIntervalTicks : Int32

/-- `LatentMarket::kOutcomes`. -/
def kOutcomes : Nat := 3

namespace Bookmaker

def kMaxOddsMilli : UInt32 := 1000000

def kMinOddsMilli : UInt32 := 1001

variable {F : Type} [DoubleArith F]

/-- The price of one outcome quoted at probability `q`, in thousandths. The smaller a probability
    the longer its odds, so none at all gets the longest. -/
def oddsMilli [Truncate F] (q : F) : UInt32 :=
  let milli : F := if 0 < q then ((1000 : ℕ) : F) / q else ((kMaxOddsMilli.toNat : ℕ) : F)
  let milli := if ((kMaxOddsMilli.toNat : ℕ) : F) < milli then ((kMaxOddsMilli.toNat : ℕ) : F)
    else milli
  let milli := if milli < ((kMinOddsMilli.toNat : ℕ) : F) then ((kMinOddsMilli.toNat : ℕ) : F)
    else milli
  Truncate.toUInt32 (milli + 0.5)

/-- The array `quote` returns, for the quoted probabilities `q`. -/
def quotedOdds [Truncate F] (q : Fin kOutcomes → F) : Fin kOutcomes → UInt32 :=
  fun i => oddsMilli (q i)

end Bookmaker

/-- The five books of a simulation. -/
def defaultRoster {F : Type} [DoubleArith F] : List (SimBookConfig F) :=
  [{ cfg := { bookId := 0, lagTicks := 1, overround := 0.020, noiseSigma := 0.010, skew := 1.00 },
     updateIntervalTicks := 1 },
   { cfg := { bookId := 1, lagTicks := 5, overround := 0.030, noiseSigma := 0.020, skew := 1.02 },
     updateIntervalTicks := 2 },
   { cfg := { bookId := 2, lagTicks := 20, overround := 0.045, noiseSigma := 0.035, skew := 1.05 },
     updateIntervalTicks := 5 },
   { cfg := { bookId := 3, lagTicks := 60, overround := 0.060, noiseSigma := 0.050, skew := 1.08 },
     updateIntervalTicks := 10 },
   { cfg := { bookId := 4, lagTicks := 150, overround := 0.080, noiseSigma := 0.070,
              skew := 1.12 },
     updateIntervalTicks := 25 }]

@[simp] theorem defaultRoster_length {F : Type} [DoubleArith F] :
    (defaultRoster : List (SimBookConfig F)).length = 5 := rfl

namespace Bookmaker

/-- Clamping puts any number between the bounds. -/
theorem clamp_bounds {lo hi : ℝ} (h : lo ≤ hi) (x : ℝ) :
    let y := if hi < x then hi else x
    let z := if y < lo then lo else y
    lo ≤ z ∧ z ≤ hi := by
  dsimp only
  split
  · split
    · exact ⟨le_refl lo, h⟩
    · exact ⟨h, le_refl hi⟩
  · next hx =>
    split
    · exact ⟨le_refl lo, h⟩
    · next hlo => exact ⟨not_lt.mp hlo, not_lt.mp hx⟩

/-- A number between two integers is rounded to one between them. -/
theorem floor_half_bounds {lo hi : ℕ} {x : ℝ} (h : (lo : ℝ) ≤ x ∧ x ≤ (hi : ℝ)) :
    lo ≤ ⌊x + 0.5⌋₊ ∧ ⌊x + 0.5⌋₊ ≤ hi := by
  obtain ⟨hlo, hhi⟩ := h
  constructor
  · exact Nat.le_floor (by linarith)
  · have hlt : ⌊x + 0.5⌋₊ < hi + 1 := by
      refine (Nat.floor_lt' (Nat.succ_ne_zero hi)).mpr ?_
      push_cast
      linarith
    omega

/-- **Every price sent is between 1001 and 1000000**, whatever probability was quoted. -/
theorem oddsMilli_bounds (q : ℝ) :
    kMinOddsMilli ≤ oddsMilli q ∧ oddsMilli q ≤ kMaxOddsMilli := by
  have hcast : ((kMinOddsMilli.toNat : ℕ) : ℝ) ≤ ((kMaxOddsMilli.toNat : ℕ) : ℝ) := by
    exact_mod_cast (by decide : kMinOddsMilli.toNat ≤ kMaxOddsMilli.toNat)
  have hclamp := clamp_bounds hcast
    (if 0 < q then ((1000 : ℕ) : ℝ) / q else ((kMaxOddsMilli.toNat : ℕ) : ℝ))
  have hfloor := floor_half_bounds hclamp
  have hmax : kMaxOddsMilli.toNat < 2 ^ 32 := by decide
  have hval := toNat_toUInt32 (Nat.lt_of_le_of_lt hfloor.2 hmax)
  constructor
  · rw [UInt32.le_iff_toNat_le]
    exact Nat.le_trans hfloor.1 (Nat.le_of_eq hval.symm)
  · rw [UInt32.le_iff_toNat_le]
    exact Nat.le_trans (Nat.le_of_eq hval) hfloor.2

end Bookmaker

end OddsEngine
