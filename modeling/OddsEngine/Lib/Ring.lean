/-
  File:      OddsEngine/Lib/Ring.lean
  Subject:   A ring of `n` slots, written round and round.

  The `i`th value goes to slot `i % n`, so the ring recalls the last `n` values and no others
  (`Recalls`). It holds of the empty ring, and a write keeps it (`Recalls.push`).
-/
import Mathlib.Data.Nat.ModEq
import Mathlib.Logic.Function.Basic

namespace Lib

variable {α : Type*} {n : ℕ} [NeZero n]

/-- Of the values written so far, the last `n` stand in their slots. -/
def Recalls (slots : Fin n → α) (xs : List α) : Prop :=
  ∀ i, ∀ h : i < xs.length, xs.length ≤ i + n → slots (Fin.ofNat n i) = xs[i]

theorem recalls_nil (slots : Fin n → α) : Recalls slots [] :=
  fun _ h => absurd h (Nat.not_lt_zero _)

/-- Two of the last `n` numbers have different slots. -/
theorem ofNat_ne {i k : ℕ} (hik : i < k) (hkn : k < i + n) : Fin.ofNat n i ≠ Fin.ofNat n k := by
  intro heq
  have hmod : i % n = k % n := congrArg Fin.val heq
  have hdvd : n ∣ k - i := (Nat.modEq_iff_dvd' hik.le).mp hmod
  have hle := Nat.le_of_dvd (by omega) hdvd
  omega

/-- **A write** takes the slot of the value that is `n` back. -/
theorem Recalls.push {slots : Fin n → α} {xs : List α} (h : Recalls slots xs) (x : α) :
    Recalls (Function.update slots (Fin.ofNat n xs.length) x) (xs ++ [x]) := by
  intro i hi hback
  rw [List.length_append, List.length_singleton] at hi hback
  by_cases hlast : i = xs.length
  · subst hlast
    rw [Function.update_self, List.getElem_concat_length rfl]
  · have hlt : i < xs.length := by omega
    rw [Function.update_of_ne (ofNat_ne hlt (by omega)), h i hlt (by omega),
      List.getElem_append_left hlt]

end Lib
