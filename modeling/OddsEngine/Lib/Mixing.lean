/-
  File:      OddsEngine/Lib/Mixing.lean
  Subject:   The steps of a 64-bit mixing function, each a permutation of the words.

  A mixer of this kind is a chain of three kinds of step: add or xor a constant, multiply by an odd
  constant, and fold the high half onto the low one (`x ^ (x >> k)`). None of them loses anything:
  the first two have an inverse word, and of a folded word the top `k` bits are the word's own, so
  the rest is read off from the top down (`xorShift_injective`). A chain of them maps distinct
  words to distinct words, and as there are finitely many it reaches them all
  (`bijective_of_injective`).

  A hash mixes its input piece by piece into a state. Where each piece keeps distinct states
  distinct, and each state distinct pieces, two inputs that differ in one piece leave different
  states, however long they are (`foldl_ne_of_change`).
-/
import Mathlib.Data.Fintype.EquivFin
import Mathlib.Data.UInt

namespace Lib

/-- The folding step `x ^ (x >> k)`. -/
def xorShift (k x : UInt64) : UInt64 := x ^^^ (x >>> k)

/-- Bit `i` of a folded word is bit `i` of the word against bit `i + k`. -/
theorem xorShift_getLsbD (k x : UInt64) (i : Nat) :
    (xorShift k x).toBitVec.getLsbD i =
      (x.toBitVec.getLsbD i ^^ x.toBitVec.getLsbD (k.toNat % 64 + i)) := by
  have hk : (k.toBitVec % 64#64).toNat = k.toNat % 64 := by
    rw [BitVec.toNat_umod]
    rfl
  simp [xorShift, UInt64.toBitVec_xor, UInt64.toBitVec_shiftRight, hk]

/-- **Folding loses nothing**: from the top bit down, each bit of the word follows from the folded
    word and the bits above it. -/
theorem xorShift_injective {k : UInt64} (hk : 0 < k.toNat % 64) :
    Function.Injective (xorShift k) := by
  intro x y h
  have bits : ∀ n i, 64 ≤ i + n → x.toBitVec.getLsbD i = y.toBitVec.getLsbD i := by
    intro n
    induction n with
    | zero =>
      intro i hi
      rw [BitVec.getLsbD_of_ge _ _ (by omega), BitVec.getLsbD_of_ge _ _ (by omega)]
    | succ n ih =>
      intro i hi
      have folded := congrArg (fun w : UInt64 => w.toBitVec.getLsbD i) h
      simp only [xorShift_getLsbD] at folded
      rw [ih (k.toNat % 64 + i) (by omega)] at folded
      exact Bool.xor_left_inj.mp folded
  refine UInt64.toBitVec_inj.mp (BitVec.eq_of_getLsbD_eq fun i _ => bits 64 i (by omega))

/-- A constant that has an inverse word multiplies without loss. -/
theorem mul_const_injective {c d : UInt64} (h : c * d = 1) :
    Function.Injective (fun x : UInt64 => x * c) := by
  intro x y hxy
  have hxy : x * c = y * c := hxy
  calc x = x * c * d := by rw [UInt64.mul_assoc, h, UInt64.mul_one]
    _ = y * c * d := by rw [hxy]
    _ = y := by rw [UInt64.mul_assoc, h, UInt64.mul_one]

/-- So does adding a constant lose nothing. -/
theorem add_const_injective (c : UInt64) : Function.Injective (fun x : UInt64 => x + c) :=
  fun _ _ h => (UInt64.add_left_inj c).mp h

/-- And xor with a constant. -/
theorem xor_const_injective (c : UInt64) : Function.Injective (fun x : UInt64 => c ^^^ x) := by
  intro x y h
  have h : c.toBitVec ^^^ x.toBitVec = c.toBitVec ^^^ y.toBitVec := by
    simpa using congrArg UInt64.toBitVec h
  exact UInt64.toBitVec_inj.mp ((BitVec.xor_right_inj _).mp h)

/-- From either side. -/
theorem xor_right_injective (c : UInt64) : Function.Injective (fun x : UInt64 => x ^^^ c) := by
  intro x y h
  have h : x ^^^ c = y ^^^ c := h
  rw [UInt64.xor_comm x, UInt64.xor_comm y] at h
  exact xor_const_injective c h

instance instFiniteUInt64 : Finite UInt64 := Finite.of_injective UInt64.toFin fun _ _ h => UInt64.toFin_inj.mp h

theorem bijective_of_injective {f : UInt64 → UInt64} (h : Function.Injective f) :
    Function.Bijective f :=
  Finite.injective_iff_bijective.mp h

/-! ## Mixing piece by piece -/

section Fold

variable {σ α : Type} {step : σ → α → σ}

/-- However many pieces follow, distinct states stay distinct. -/
theorem foldl_injective (hstate : ∀ a, Function.Injective fun s => step s a) (as : List α) :
    Function.Injective fun s => as.foldl step s := by
  induction as with
  | nil => exact fun _ _ h => h
  | cons a as ih => exact ih.comp (hstate a)

/-- **One piece changed is another state**, whatever comes before and after. -/
theorem foldl_ne_of_change (hstate : ∀ a, Function.Injective fun s => step s a)
    (hpiece : ∀ s, Function.Injective (step s)) {a a' : α} (hne : a ≠ a') (before after : List α)
    (s : σ) : (before ++ a :: after).foldl step s ≠ (before ++ a' :: after).foldl step s := by
  rw [List.foldl_append, List.foldl_append, List.foldl_cons, List.foldl_cons]
  intro h
  have hstep := foldl_injective hstate after h
  exact hne (hpiece _ hstep)

end Fold

end Lib
