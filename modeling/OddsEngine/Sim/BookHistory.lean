/-
  File:      OddsEngine/Sim/BookHistory.lean
  Subject:   What a book quotes from: the ring of the latent vectors it observed (`observe` and
             `lagged_view` of sim/Bookmaker.hpp).

  A book writes each vector into a ring of 512 and reads back the one its lag is behind, or the first
  while there are not that many. The write index has 64 bits and is taken modulo the ring's size,
  which divides 2^64, so the slots stay right even where the index runs over; only the count of what
  is there does not (`laggedView_observed`).
-/
import OddsEngine.Lib.Ring

namespace OddsEngine

open Lib

namespace Bookmaker

def kMaxLag : Nat := 512

instance : NeZero kMaxLag := ⟨by decide⟩

/-- `history_` and `write_idx_`. -/
structure History (α : Type) where
  history : Fin kMaxLag → α
  writeIdx : UInt64 := 0

namespace History

variable {α : Type}

def observe (h : History α) (latent : α) : History α :=
  { history := Function.update h.history (Fin.ofNat kMaxLag h.writeIdx.toNat) latent
    writeIdx := h.writeIdx + 1 }

def laggedView (h : History α) (lagTicks : Int32) : α :=
  let available := h.writeIdx
  let back := lagTicks.toInt64.toUInt64
  let back := if available ≤ back then available - 1 else back
  h.history (Fin.ofNat kMaxLag (h.writeIdx - 1 - back).toNat)

/-- The book has observed exactly these, in order. -/
structure Observed (h : History α) (xs : List α) : Prop where
  writeIdx : h.writeIdx = xs.length.toUInt64
  recalls : Recalls h.history xs

theorem observed_nil (history : Fin kMaxLag → α) : Observed { history } [] :=
  ⟨rfl, recalls_nil history⟩

/-- The write index, run over or not, names the slot of the count. -/
theorem ofNat_toUInt64 (k : ℕ) : Fin.ofNat kMaxLag k.toUInt64.toNat = Fin.ofNat kMaxLag k := by
  refine Fin.ext ?_
  show k.toUInt64.toNat % 512 = k % 512
  rw [UInt64.toNat_ofNat']
  omega

/-- **One more observation.** -/
theorem Observed.observe {h : History α} {xs : List α} (hobs : h.Observed xs) (x : α) :
    (h.observe x).Observed (xs ++ [x]) where
  writeIdx := by
    show h.writeIdx + 1 = _
    rw [hobs.writeIdx, List.length_append]
    exact (UInt64.ofNat_add _ _).symm
  recalls := by
    show Recalls (Function.update h.history (Fin.ofNat kMaxLag h.writeIdx.toNat) x) _
    rw [hobs.writeIdx, ofNat_toUInt64]
    exact hobs.recalls.push x

/-- **Any number of them.** -/
theorem Observed.foldl {h : History α} {seen : List α} (hobs : h.Observed seen) (xs : List α) :
    (xs.foldl History.observe h).Observed (seen ++ xs) := by
  induction xs generalizing h seen with
  | nil => rwa [List.append_nil]
  | cons x xs ih =>
    rw [List.append_cons]
    exact ih (hobs.observe x)

/-- A lag that is not negative, as the unsigned number it is compared as. -/
theorem toNat_lagTicks {lagTicks : Int32} {lag : ℕ} (h : lagTicks.toInt = lag) :
    lagTicks.toInt64.toUInt64.toNat = lag := by
  have hint : lagTicks.toInt64.toInt = lag := by rw [Int32.toInt_toInt64, h]
  have hnonneg : (0 : Int64) ≤ lagTicks.toInt64 := by
    rw [Int64.le_iff_toInt_le, hint]
    exact Int.natCast_nonneg lag
  rw [Int64.toNat_toUInt64_of_le hnonneg, Int64.toNatClampNeg, hint]
  exact Int.toNat_natCast lag

/-- **The vector quoted from** is the one `lag` observations back, or the first. -/
theorem Observed.laggedView {h : History α} {xs : List α} (hobs : h.Observed xs) (hne : xs ≠ [])
    (hfit : xs.length < 2 ^ 64) {lagTicks : Int32} {lag : ℕ} (hlag : lagTicks.toInt = lag)
    (hmax : lag < kMaxLag) :
    xs[xs.length - 1 - min lag (xs.length - 1)]? = some (h.laggedView lagTicks) := by
  have hpos : 0 < xs.length := List.length_pos_iff.mpr hne
  have hidx : h.writeIdx.toNat = xs.length := by
    rw [hobs.writeIdx]
    exact UInt64.toNat_ofNat_of_lt' hfit
  have hback := toNat_lagTicks hlag
  have hprev : (h.writeIdx - 1).toNat = xs.length - 1 := by
    have hone : (1 : UInt64).toNat = 1 := rfl
    have hle : (1 : UInt64) ≤ h.writeIdx := by
      rw [UInt64.le_iff_toNat_le, hidx, hone]
      exact hpos
    rw [UInt64.toNat_sub_of_le _ _ hle, hidx, hone]
  -- the index asked of the ring, either way
  have hasked : (h.writeIdx - 1 - if h.writeIdx ≤ lagTicks.toInt64.toUInt64 then h.writeIdx - 1
      else lagTicks.toInt64.toUInt64).toNat = xs.length - 1 - min lag (xs.length - 1) := by
    by_cases hfew : h.writeIdx ≤ lagTicks.toInt64.toUInt64
    · have hle := UInt64.le_iff_toNat_le.mp hfew
      rw [if_pos hfew, UInt64.sub_self, UInt64.toNat_zero]
      omega
    · have hlt := UInt64.lt_iff_toNat_lt.mp (UInt64.not_le.mp hfew)
      have hle : lagTicks.toInt64.toUInt64 ≤ h.writeIdx - 1 := by
        rw [UInt64.le_iff_toNat_le, hprev]
        omega
      rw [if_neg hfew, UInt64.toNat_sub_of_le _ _ hle, hprev, hback]
      omega
  have hlt : xs.length - 1 - min lag (xs.length - 1) < xs.length := by omega
  have hring : xs.length ≤ xs.length - 1 - min lag (xs.length - 1) + kMaxLag := by omega
  unfold History.laggedView
  dsimp only
  rw [hasked, hobs.recalls _ hlt hring, List.getElem?_eq_getElem hlt]

end History

end Bookmaker

end OddsEngine
