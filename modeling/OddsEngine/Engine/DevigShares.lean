/-
  File:      OddsEngine/Engine/DevigShares.lean
  Subject:   Who pays for the margin: what `power` and `shin` take off each outcome, over the reals.

  Both answers apply one function to the implied probabilities: `q^k` (`powerAt`), and the root of
  Shin's equation (`shinAt`). Both keep a larger share of a larger probability, at ANY exponent from
  1 on and any insider fraction below 1, so wherever the iteration stops.

  * `keepsShares` -- the shares grow with the implied probability (the favourite-longshot side of
    `multiplicative`), so the longest odds pay more than their part and the shortest less;
  * `shin_additive` -- with two outcomes `shin` takes the same off both.
-/
import Mathlib.Analysis.SpecialFunctions.Pow.Real
import OddsEngine.Lib.Shares
import OddsEngine.Engine.PowerRoot

namespace OddsEngine

open Lib

namespace Devig

/-! ## 1. Outcomes -/

/-- The outcomes of a quote of `n`. -/
def outcomes (n : Nat) : Finset (Fin kMaxOutcomes) := Finset.univ.filter fun i => i.val < n

@[simp] theorem mem_outcomes {n : Nat} {i : Fin kMaxOutcomes} : i ∈ outcomes n ↔ i.val < n := by
  simp [outcomes]

theorem sum_outcomes (n : Nat) (p : ProbVector ℝ) :
    ∑ i ∈ outcomes n, p i = ∑ i : Fin kMaxOutcomes, if i.val < n then p i else 0 :=
  Finset.sum_filter _ _

theorem fill_map (f : ℝ → ℝ) {xs : List ℝ} {i : Fin kMaxOutcomes} (hi : i.val < xs.length) :
    fill (xs.map f) i = f (fill xs i) := by
  simp [fill, List.getD_eq_getElem?_getD, hi]

/-- The implied probability of each outcome. -/
noncomputable def impliedAt (odds : List ℝ) : ProbVector ℝ := fill (impliedProbs odds)

theorem impliedAt_mem {odds : List ℝ} {i : Fin kMaxOutcomes} (hi : i.val < odds.length) :
    impliedAt odds i ∈ impliedProbs odds :=
  fill_mem (by rw [length_impliedProbs]; exact hi)

theorem impliedAt_pos {odds : List ℝ} (hv : validOdds odds = true) {i : Fin kMaxOutcomes}
    (hi : i.val < odds.length) : 0 < impliedAt odds i :=
  impliedProbs_pos hv (impliedAt_mem hi)

/-- What one function of the implied probabilities fills. -/
theorem fill_map_implied (φ : ℝ → ℝ) {odds : List ℝ} {i : Fin kMaxOutcomes}
    (hi : i.val < odds.length) : fill ((impliedProbs odds).map φ) i = φ (impliedAt odds i) :=
  fill_map φ (by rw [length_impliedProbs]; exact hi)

theorem sum_impliedAt {odds : List ℝ} (hv : validOdds odds = true) :
    ∑ i ∈ outcomes odds.length, impliedAt odds i = booksum odds := by
  have hlen := length_impliedProbs odds
  rw [sum_outcomes, booksum_eq, ← sum_fill (by rw [hlen]; exact length_le hv), hlen]
  rfl

/-! ## 2. The law -/

/-- What a correction of the favourite-longshot kind keeps: of a larger implied probability no
    smaller a share. -/
structure KeepsShares (odds : List ℝ) (p : ProbVector ℝ) : Prop where
  share : ∀ i j : Fin kMaxOutcomes, i.val < odds.length → j.val < odds.length →
    impliedAt odds i ≤ impliedAt odds j → p i * impliedAt odds j ≤ p j * impliedAt odds i
  order : ∀ i j : Fin kMaxOutcomes, i.val < odds.length → j.val < odds.length →
    impliedAt odds i ≤ impliedAt odds j → p i ≤ p j
  longest : ∀ i : Fin kMaxOutcomes, i.val < odds.length →
    (∀ j : Fin kMaxOutcomes, j.val < odds.length → impliedAt odds i ≤ impliedAt odds j) →
    p i ≤ (∑ j ∈ outcomes odds.length, p j) * impliedAt odds i / booksum odds
  favourite : ∀ i : Fin kMaxOutcomes, i.val < odds.length →
    (∀ j : Fin kMaxOutcomes, j.val < odds.length → impliedAt odds j ≤ impliedAt odds i) →
    (∑ j ∈ outcomes odds.length, p j) * impliedAt odds i / booksum odds ≤ p i
  /-- The bounds are the answer of `multiplicative`, to the sum of `p`. -/
  multiplicative : ∀ i : Fin kMaxOutcomes, i.val < odds.length →
    (∑ j ∈ outcomes odds.length, p j) * impliedAt odds i / booksum odds =
      (∑ j ∈ outcomes odds.length, p j) * (multiplicative odds).prob i

theorem multiplicative_prob {odds : List ℝ} (hv : validOdds odds = true) (hB : 1 < booksum odds)
    {i : Fin kMaxOutcomes} (hi : i.val < odds.length) :
    (multiplicative odds).prob i = impliedAt odds i / booksum odds := by
  have hprob : (multiplicative odds).prob =
      fill ((impliedProbs odds).map fun q => q / booksum odds) := by
    unfold multiplicative
    rw [if_neg (by rw [hv]; decide)]
    dsimp only
    rw [if_neg hB.not_ge, impliedProbs, List.map_map]
    rfl
  rw [hprob, fill_map_implied _ hi]

/-- One function for all outcomes is enough. -/
theorem keepsShares_of {odds : List ℝ} {φ : ℝ → ℝ} (hv : validOdds odds = true)
    (hB : 1 < booksum odds) (hpos : ∀ q ∈ impliedProbs odds, 0 < φ q)
    (hshare : ∀ q ∈ impliedProbs odds, ∀ r ∈ impliedProbs odds, q ≤ r → φ q * r ≤ φ r * q) :
    KeepsShares odds (fill ((impliedProbs odds).map φ)) := by
  have hgrow : SharesGrow (outcomes odds.length) (fill ((impliedProbs odds).map φ))
      (impliedAt odds) := by
    intro i hi j hj hle
    rw [mem_outcomes] at hi hj
    rw [fill_map_implied φ hi, fill_map_implied φ hj]
    exact hshare _ (impliedAt_mem hi) _ (impliedAt_mem hj) hle
  have hBpos : 0 < booksum odds := one_pos.trans hB
  exact {
    share := fun i j hi hj hle => hgrow i (mem_outcomes.mpr hi) j (mem_outcomes.mpr hj) hle
    order := by
      intro i j hi hj hle
      refine hgrow.le (mem_outcomes.mpr hi) (mem_outcomes.mpr hj) ?_ ?_ hle
      · rw [fill_map_implied φ hj]
        exact (hpos _ (impliedAt_mem hj)).le
      · exact impliedAt_pos hv hj
    longest := by
      intro i hi hleast
      rw [le_div_iff₀ hBpos, ← sum_impliedAt hv]
      exact hgrow.mul_sum_le (mem_outcomes.mpr hi) fun j hj => hleast j (mem_outcomes.mp hj)
    favourite := by
      intro i hi hgreatest
      rw [div_le_iff₀ hBpos, ← sum_impliedAt hv]
      exact hgrow.le_mul_sum (mem_outcomes.mpr hi) fun j hj => hgreatest j (mem_outcomes.mp hj)
    multiplicative := by
      intro i hi
      rw [multiplicative_prob hv hB hi, mul_div_assoc] }

/-! ## 3. Both methods -/

/-- The power of an outcome with the implied probability `q`. -/
noncomputable def powerAt (k q : ℝ) : ℝ := Real.exp (k * Real.log q)

theorem powerAt_pos (k q : ℝ) : 0 < powerAt k q := Real.exp_pos _

theorem powerAt_eq_rpow (k : ℝ) {q : ℝ} (hq : 0 < q) : powerAt k q = q ^ k := by
  rw [powerAt, Real.rpow_def_of_pos hq, mul_comm]

theorem powerAt_share {k q r : ℝ} (hk : 1 ≤ k) (hq : 0 < q) (hle : q ≤ r) :
    powerAt k q * r ≤ powerAt k r * q := by
  have hr : 0 < r := hq.trans_le hle
  have hlog : Real.log q ≤ Real.log r := Real.log_le_log hq hle
  calc powerAt k q * r = Real.exp (k * Real.log q + Real.log r) := by
        rw [Real.exp_add, Real.exp_log hr, powerAt]
    _ ≤ Real.exp (k * Real.log r + Real.log q) := by
        refine Real.exp_le_exp.mpr ?_
        nlinarith
    _ = powerAt k r * q := by rw [Real.exp_add, Real.exp_log hq, powerAt]

theorem shinAt_share {B z q r : ℝ} (hB : 0 < B) (hz : 0 ≤ z) (hz1 : z < 1) (hq : 0 < q)
    (hle : q ≤ r) : shinAt B z q * r ≤ shinAt B z r * q := by
  have hr : 0 < r := hq.trans_le hle
  have hp := shinAt_pos hB hz hz1 hq
  have hs := shinAt_pos hB hz hz1 hr
  have hquad := shinAt_quad hB hz1 q
  have hquad' := shinAt_quad hB hz1 r
  -- with a = p r and b = s q: (1 - z) a² + z r a = (1 - z) b² + z q b
  have hboth : (1 - z) * (shinAt B z q * r) ^ 2 + z * r * (shinAt B z q * r) =
      (1 - z) * (shinAt B z r * q) ^ 2 + z * q * (shinAt B z r * q) := by
    linear_combination r ^ 2 * hquad - q ^ 2 * hquad'
  by_contra hgt
  have hlt := not_le.mp hgt
  have hb : 0 < shinAt B z r * q := mul_pos hs hq
  have hsq : (1 - z) * (shinAt B z r * q) ^ 2 < (1 - z) * (shinAt B z q * r) ^ 2 :=
    mul_lt_mul_of_pos_left (pow_lt_pow_left₀ hlt hb.le two_ne_zero) (sub_pos.mpr hz1)
  have hlin : z * q * (shinAt B z r * q) ≤ z * r * (shinAt B z q * r) :=
    mul_le_mul (mul_le_mul_of_nonneg_left hle hz) hlt.le hb.le (mul_nonneg hz hr.le)
  linarith

theorem powerProbs_eq (odds : List ℝ) (k : ℝ) :
    ((odds.map fun o => Libm.log (1 / o)).map fun l => Libm.exp (k * l)) =
      (impliedProbs odds).map (powerAt k) := by
  rw [impliedProbs, List.map_map, List.map_map]
  rfl

/-- **Wherever the iteration of either method stops, the shares grow.** -/
theorem keepsShares (odds : List ℝ) (tolerance : ℝ) (maxIterations : Nat) :
    ((power odds tolerance maxIterations).status = .ok →
      KeepsShares odds (power odds tolerance maxIterations).prob) ∧
    ((shin odds tolerance maxIterations).status = .ok →
      KeepsShares odds (shin odds tolerance maxIterations).prob) := by
  constructor
  · intro hok
    have hu := (flagsAgree_power odds tolerance maxIterations).usable_iff.mpr hok
    obtain ⟨hv, h1, k, hprob, _, hk⟩ := usable_power hu
    rw [powerF_one hv, sub_pos] at h1
    rw [hprob, powerProbs_eq]
    exact keepsShares_of hv h1 (fun q _ => powerAt_pos k q)
      fun q hq r _ hle => powerAt_share hk (impliedProbs_pos hv hq) hle
  · intro hok
    have hu := (flagsAgree_shin odds tolerance maxIterations).usable_iff.mpr hok
    obtain ⟨hv, hB, z, hprob, _, hz, hz1⟩ := usable_shin hu
    have hBpos : 0 < booksum odds := one_pos.trans hB
    rw [hprob]
    exact keepsShares_of hv hB
      (fun q hq => shinAt_pos hBpos hz hz1 (impliedProbs_pos hv hq))
      fun q hq r _ hle => shinAt_share hBpos hz hz1 (impliedProbs_pos hv hq) hle

/-- A quote of 1.5 against 2.6. -/
theorem wireOdds_uneven : WireOdds ([1500, 2600].map decimalOdds) := by
  refine wireOdds_of_milli (by decide) (by decide) (by simp) ?_
  have hshort : (decimalOdds 1500 : ℝ) = 1500 / 1000 := by
    have hnat : (1500 : UInt32).toNat = 1500 := rfl
    rw [decimalOdds_eq, hnat, Nat.cast_ofNat]
  have hlong : (decimalOdds 2600 : ℝ) = 2600 / 1000 := by
    have hnat : (2600 : UInt32).toNat = 2600 := rfl
    rw [decimalOdds_eq, hnat, Nat.cast_ofNat]
  rw [booksum, sumLoop_eq_sum]
  simp only [List.map_cons, List.map_nil, List.sum_cons, List.sum_nil, hshort, hlong]
  norm_num

theorem keepsShares_uneven :
    KeepsShares ([1500, 2600].map decimalOdds) (power ([1500, 2600].map decimalOdds) 1e-13 100).prob ∧
      KeepsShares ([1500, 2600].map decimalOdds)
        (shin ([1500, 2600].map decimalOdds) 1e-15 200).prob :=
  ⟨(keepsShares _ _ _).1 (powerFinds_two wireOdds_uneven rfl).status,
    (keepsShares _ _ _).2 (shinFinds_of_wireOdds wireOdds_uneven).status⟩

/-! ## 4. Two outcomes -/

/-- Shin's probabilities of two outcomes, subtracted. -/
theorem shinAt_sub_two {B z q r : ℝ} (hB : 0 < B) (hz1 : z < 1) (hsum : q + r = B) :
    (shinAt B z q - shinAt B z r) * (1 + (1 - z) * (shinAt B z q + shinAt B z r - 1)) = q - r := by
  have hdiff : q ^ 2 / B - r ^ 2 / B = q - r := by
    rw [← sub_div, div_eq_iff hB.ne', ← hsum]
    ring
  linear_combination shinAt_quad hB hz1 q - shinAt_quad hB hz1 r + hdiff

/-- **Up to the tolerance, half the margin comes off each.** -/
theorem shinAt_additive {B z q r : ℝ} (hB : 0 < B) (hz : 0 ≤ z) (hz1 : z < 1) (hq : 0 < q)
    (hr : 0 < r) (hsum : q + r = B) (hg : |shinAt B z q + shinAt B z r - 1| < 1e-15) :
    |shinAt B z q - (q - (B - 1) / 2)| ≤ 2e-15 := by
  have hp := shinAt_pos hB hz hz1 hq
  have hs := shinAt_pos hB hz hz1 hr
  have hdiff := shinAt_sub_two hB hz1 hsum
  have herror : 2 * (shinAt B z q - (q - (B - 1) / 2)) =
      (shinAt B z q + shinAt B z r - 1) *
        (1 - (1 - z) * (shinAt B z q - shinAt B z r)) := by
    linear_combination hdiff - hsum
  have hsmall := (abs_lt.mp hg).2
  have hfactor : |1 - (1 - z) * (shinAt B z q - shinAt B z r)| ≤ 3 := by
    rw [abs_le]
    constructor <;> nlinarith
  have habs : 2 * |shinAt B z q - (q - (B - 1) / 2)| ≤ 1e-15 * 3 :=
    calc 2 * |shinAt B z q - (q - (B - 1) / 2)|
        = |2 * (shinAt B z q - (q - (B - 1) / 2))| := by rw [abs_mul, abs_two]
      _ = |shinAt B z q + shinAt B z r - 1| * |1 - (1 - z) * (shinAt B z q - shinAt B z r)| := by
        rw [herror, abs_mul]
      _ ≤ 1e-15 * 3 := mul_le_mul hg.le hfactor (abs_nonneg _) (by norm_num)
  linarith

theorem shin_additive {odds : List ℝ} {maxIterations : Nat} (htwo : odds.length = 2)
    (hok : (shin odds 1e-15 maxIterations).status = .ok) {i : Fin kMaxOutcomes} (hi : i.val < 2) :
    |(shin odds 1e-15 maxIterations).prob i - (impliedAt odds i - (booksum odds - 1) / 2)| ≤
      2e-15 := by
  have hu := (flagsAgree_shin odds 1e-15 maxIterations).usable_iff.mpr hok
  obtain ⟨hv, hB, z, hprob, hg, hz, hz1⟩ := usable_shin hu
  have hBpos : 0 < booksum odds := one_pos.trans hB
  rw [hprob]
  match odds, htwo with
  | [o, o'], _ =>
    have hq : 0 < 1 / o := impliedProbs_pos hv List.mem_cons_self
    have hr : 0 < 1 / o' := impliedProbs_pos hv (List.mem_cons_of_mem _ List.mem_cons_self)
    have hsum : 1 / o + 1 / o' = booksum [o, o'] := by simp [booksum_eq, impliedProbs]
    have hg' : |shinAt (booksum [o, o']) z (1 / o) + shinAt (booksum [o, o']) z (1 / o') - 1| <
        1e-15 := by
      simpa [shinG_eq] using hg
    have hi2 : i.val = 0 ∨ i.val = 1 := by omega
    rcases hi2 with h0 | h1
    · obtain rfl : i = 0 := Fin.ext h0
      exact shinAt_additive hBpos hz hz1 hq hr hsum hg'
    · obtain rfl : i = 1 := Fin.ext h1
      rw [add_comm] at hsum
      rw [add_comm (shinAt _ _ _)] at hg'
      exact shinAt_additive hBpos hz hz1 hr hq hsum hg'

theorem shin_additive_uneven :
    |(shin ([1500, 2600].map decimalOdds) 1e-15 200).prob 0 -
      (impliedAt ([1500, 2600].map decimalOdds) 0 -
        (booksum ([1500, 2600].map decimalOdds) - 1) / 2)| ≤ (2e-15 : ℝ) :=
  shin_additive rfl (shinFinds_of_wireOdds wireOdds_uneven).status (by decide)

end Devig

end OddsEngine
