/-
  File:      OddsEngine/Sim/Quote.lean
  Subject:   What a book quotes: its noisy belief, the margin, the rounding (`Bookmaker::quote` of
             sim/Bookmaker.hpp).

  The belief is the softmax of noisy logarithms, so it is positive and sums to one whatever the noise
  (`softmax_pos`, `sum_softmax`). Each of the three margin models takes such a belief to quoted
  probabilities that sum to one plus the overround (`sum_withMargin`). What is sent is the rounded
  thousandths of the odds.

  * `quotedOdds_margin` -- where no price is clamped, the margin that is sent is the one configured,
    up to one part in two thousand; and dividing by the booksum gives the belief back that a
    proportional margin was put on, up to eleven parts in ten thousand.
-/
import Mathlib.Algebra.BigOperators.Field
import Mathlib.Algebra.BigOperators.Fin
import Mathlib.Analysis.SpecialFunctions.Pow.Real
import OddsEngine.Engine.DevigShares
import OddsEngine.Lib.RelativeError
import OddsEngine.Sim.Bookmaker

namespace OddsEngine

open Lib

namespace Bookmaker

section Quote

variable {F : Type} [DoubleArith F]

def maxLogit (logits : Fin kOutcomes → F) : F :=
  ((List.finRange kOutcomes).drop 1).foldl
    (fun maxL i => if maxL < logits i then logits i else maxL) (logits ⟨0, by decide⟩)

def softmax (logits : Fin kOutcomes → F) : Fin kOutcomes → F :=
  let exps := fun i => Libm.exp (logits i - maxLogit logits)
  let sum := sumLoop (List.ofFn exps)
  fun i => exps i / sum

/-- What the book believes of the vector `lagged`; `normal` are the three draws of its noise. -/
def beliefOf (cfg : BookConfig F) (normal lagged : Fin kOutcomes → F) : Fin kOutcomes → F :=
  softmax fun i => Libm.log (lagged i) + cfg.noiseSigma * normal i

/-- The belief with the book's margin. -/
def withMargin [Pow F F] (cfg : BookConfig F) (p : Fin kOutcomes → F) : Fin kOutcomes → F :=
  match cfg.vigModel with
  | .power =>
    let q := fun i => p i ^ (1 / cfg.skew)
    let sum := sumLoop (List.ofFn q)
    let target := 1 + cfg.overround
    fun i => q i / sum * target
  | .proportional =>
    let scale := 1 + cfg.overround
    fun i => p i * scale
  | .additive =>
    let per := cfg.overround / ((kOutcomes : ℕ) : F)
    fun i => p i + per

/-- `quote`, on the vector of its lagged view. -/
def quote [Pow F F] [Truncate F] (cfg : BookConfig F) (normal lagged : Fin kOutcomes → F) :
    Fin kOutcomes → UInt32 :=
  quotedOdds (withMargin cfg (beliefOf cfg normal lagged))

end Quote

/-! ## 1. The belief -/

theorem sumLoop_ofFn (f : Fin kOutcomes → ℝ) : sumLoop (List.ofFn f) = ∑ i, f i := by
  rw [sumLoop_eq_sum, List.sum_ofFn]

/-- Three positive numbers have a positive sum. -/
theorem sum_pos_of_pos {f : Fin kOutcomes → ℝ} (h : ∀ i, 0 < f i) : 0 < ∑ i, f i :=
  Finset.sum_pos (fun i _ => h i) ⟨⟨0, by decide⟩, Finset.mem_univ _⟩

theorem softmax_eq (logits : Fin kOutcomes → ℝ) (i : Fin kOutcomes) :
    softmax logits i = Real.exp (logits i - maxLogit logits) /
      ∑ j, Real.exp (logits j - maxLogit logits) := by
  unfold softmax
  rw [sumLoop_ofFn]
  rfl

theorem softmax_pos (logits : Fin kOutcomes → ℝ) (i : Fin kOutcomes) : 0 < softmax logits i := by
  rw [softmax_eq]
  exact div_pos (Real.exp_pos _) (sum_pos_of_pos fun j => Real.exp_pos _)

theorem sum_softmax (logits : Fin kOutcomes → ℝ) : ∑ i, softmax logits i = 1 := by
  have hpos : 0 < ∑ j, Real.exp (logits j - maxLogit logits) :=
    sum_pos_of_pos fun j => Real.exp_pos _
  rw [Finset.sum_congr rfl fun i _ => softmax_eq logits i, ← Finset.sum_div, div_self hpos.ne']

/-! ## 2. The margin -/

/-- **Every margin model sums to one plus the overround.** -/
theorem sum_withMargin (cfg : BookConfig ℝ) {p : Fin kOutcomes → ℝ} (hp : ∀ i, 0 < p i)
    (hsum : ∑ i, p i = 1) : ∑ i, withMargin cfg p i = 1 + cfg.overround := by
  unfold withMargin
  cases cfg.vigModel with
  | power =>
    have hpos : 0 < ∑ i, p i ^ (1 / cfg.skew) :=
      sum_pos_of_pos fun i => Real.rpow_pos_of_pos (hp i) _
    dsimp only
    rw [sumLoop_ofFn, ← Finset.sum_mul, ← Finset.sum_div, div_self hpos.ne', one_mul]
  | proportional =>
    dsimp only
    rw [← Finset.sum_mul, hsum, one_mul]
  | additive =>
    have hcount : ((kOutcomes : ℕ) : ℝ) ≠ 0 := Nat.cast_ne_zero.mpr (by decide)
    dsimp only
    rw [Finset.sum_add_distrib, hsum, Finset.sum_const, Finset.card_univ, Fintype.card_fin,
      nsmul_eq_mul, mul_div_cancel₀ _ hcount]

/-! ## 3. The rounding -/

theorem thousand_atLeastTwo : Nat.AtLeastTwo 1000 := inferInstance

attribute [local instance] thousand_atLeastTwo in
/-- The price is neither raised to the lowest odds nor cut to the highest. -/
def Unclamped (q : ℝ) : Prop :=
  (kMinOddsMilli.toNat : ℝ) ≤ 1000 / q ∧ 1000 / q ≤ (kMaxOddsMilli.toNat : ℝ)

theorem Unclamped.pos {q : ℝ} (h : Unclamped q) : 0 < q := by
  by_contra hq
  have hneg : 1000 / q ≤ 0 := div_nonpos_of_nonneg_of_nonpos (by norm_num) (not_lt.mp hq)
  have hmin : (0 : ℝ) < (kMinOddsMilli.toNat : ℝ) := Nat.cast_pos.mpr (by decide)
  linarith [h.1]

/-- Such a price is only rounded. -/
theorem toNat_oddsMilli {q : ℝ} (h : Unclamped q) : (oddsMilli q).toNat = ⌊1000 / q + 1 / 2⌋₊ := by
  have hhalf : (0.5 : ℝ) = 1 / 2 := by norm_num
  have hthousand : ((1000 : ℕ) : ℝ) = 1000 := by norm_num
  have hfloor := (floor_half_bounds h).2
  have hmax : kMaxOddsMilli.toNat < 2 ^ 32 := by decide
  unfold oddsMilli
  dsimp only
  rw [if_pos h.pos, hthousand, if_neg (not_lt.mpr h.2), if_neg (not_lt.mpr h.1),
    toNat_toUInt32 (Nat.lt_of_le_of_lt hfloor hmax), hhalf]

/-- **A price sent** implies the probability that was quoted, up to the rounding. -/
theorem within_oddsMilli {q : ℝ} (h : Unclamped q) :
    Within (1 / 2 / 1001) q (1000 / ((oddsMilli q).toNat : ℝ)) := by
  have hback : 1000 / (1000 / q) = q := div_div_cancel₀ (by norm_num)
  have hround := within_div_floor (c := 1000) (by norm_num) (by decide) h.1
  have hmin : ((kMinOddsMilli.toNat : ℕ) : ℝ) = 1001 := by
    show ((1001 : ℕ) : ℝ) = 1001
    norm_num
  rw [hback, hmin] at hround
  rw [toNat_oddsMilli h]
  exact hround

theorem kOutcomes_le : kOutcomes ≤ kMaxOutcomes := by decide

/-- The decimal odds of a quote, as the devig methods are given them. -/
noncomputable def decimalQuote (q : Fin kOutcomes → ℝ) : List ℝ :=
  List.ofFn fun i => decimalOdds (quotedOdds q i)

theorem length_decimalQuote (q : Fin kOutcomes → ℝ) : (decimalQuote q).length = kOutcomes :=
  List.length_ofFn

theorem one_div_decimalOdds (o : UInt32) : 1 / (decimalOdds o : ℝ) = 1000 / (o.toNat : ℝ) :=
  one_div_div _ _

theorem validOdds_decimalQuote (q : Fin kOutcomes → ℝ) :
    Devig.validOdds (decimalQuote q) = true := by
  refine (Devig.validOdds_iff _).mpr ⟨?_, ?_, fun o ho => ⟨rfl, ?_⟩⟩
  · exact List.ne_nil_of_length_pos (by rw [length_decimalQuote]; decide)
  · rw [length_decimalQuote]
    decide
  · obtain ⟨i, rfl⟩ := List.mem_ofFn.mp ho
    have hmin := UInt32.le_iff_toNat_le.mp (oddsMilli_bounds (q i)).1
    have hlow : (1001 : ℝ) ≤ ((quotedOdds q i).toNat : ℝ) := by
      exact_mod_cast hmin
    rw [decimalOdds, one_lt_div (by norm_num)]
    linarith

theorem booksum_decimalQuote (q : Fin kOutcomes → ℝ) :
    Devig.booksum (decimalQuote q) = ∑ i, 1000 / ((quotedOdds q i).toNat : ℝ) := by
  unfold Devig.booksum decimalQuote
  rw [List.map_ofFn, sumLoop_ofFn]
  exact Finset.sum_congr rfl fun i _ => one_div_decimalOdds _

theorem impliedAt_decimalQuote (q : Fin kOutcomes → ℝ) (i : Fin kOutcomes) :
    Devig.impliedAt (decimalQuote q) (i.castLE kOutcomes_le) =
      1000 / ((quotedOdds q i).toNat : ℝ) := by
  rw [← one_div_decimalOdds]
  unfold Devig.impliedAt Devig.impliedProbs
  have hi : i.val < (decimalQuote q).length := by
    rw [length_decimalQuote]
    exact i.isLt
  have hat : Devig.fill (decimalQuote q) (i.castLE kOutcomes_le) =
      decimalOdds (quotedOdds q i) := by
    show (decimalQuote q).getD i.val 0 = _
    rw [List.getD_eq_getElem _ _ hi]
    simp [decimalQuote]
  rw [← hat]
  exact Devig.fill_map _ hi

/-! ## 4. What the prices say -/

theorem within_sum_quotedOdds {cfg : BookConfig ℝ} {p : Fin kOutcomes → ℝ} (hp : ∀ i, 0 < p i)
    (hsum : ∑ i, p i = 1) (hfree : ∀ i, Unclamped (withMargin cfg p i)) :
    Within (1 / 2 / 1001) (1 + cfg.overround)
      (∑ i, 1000 / ((quotedOdds (withMargin cfg p) i).toNat : ℝ)) := by
  rw [← sum_withMargin cfg hp hsum]
  exact within_sum fun i _ => within_oddsMilli (hfree i)

/-- A book's own quote, of whatever it saw and whatever its noise was. -/
theorem within_sum_quote {cfg : BookConfig ℝ} {normal lagged : Fin kOutcomes → ℝ}
    (hfree : ∀ i, Unclamped (withMargin cfg (beliefOf cfg normal lagged) i)) :
    Within (1 / 2 / 1001) (1 + cfg.overround)
      (∑ i, 1000 / ((quote cfg normal lagged i).toNat : ℝ)) :=
  within_sum_quotedOdds (softmax_pos _) (sum_softmax _) hfree

/-- **The margin sent is the margin configured**, and from a proportional one the division by the
    booksum recovers the belief. -/
theorem quotedOdds_margin {cfg : BookConfig ℝ} {p : Fin kOutcomes → ℝ} (hp : ∀ i, 0 < p i)
    (hsum : ∑ i, p i = 1) (hfree : ∀ i, Unclamped (withMargin cfg p i)) :
    |∑ i, 1000 / ((quotedOdds (withMargin cfg p) i).toNat : ℝ) - (1 + cfg.overround)| ≤
      0.0005 * (1 + cfg.overround) ∧
    (cfg.vigModel = .proportional → 0.001 ≤ cfg.overround →
      (Devig.multiplicative (decimalQuote (withMargin cfg p))).status = .ok ∧
      ∀ i : Fin kOutcomes,
        |(Devig.multiplicative (decimalQuote (withMargin cfg p))).prob (i.castLE kOutcomes_le) - p i|
          ≤ 0.0011 * p i) := by
  have htotal := within_sum_quotedOdds hp hsum hfree
  have hpos : 0 < 1 + cfg.overround := by
    rw [← sum_withMargin cfg hp hsum]
    exact sum_pos_of_pos fun i => (hfree i).pos
  refine ⟨htotal.mono (by norm_num) hpos.le, fun hprop hmargin => ?_⟩
  have hvalid := validOdds_decimalQuote (withMargin cfg p)
  have hbook : 1 < Devig.booksum (decimalQuote (withMargin cfg p)) := by
    have hlow := htotal.ge
    rw [booksum_decimalQuote]
    refine lt_of_lt_of_le ?_ hlow
    norm_num at hmargin ⊢
    linarith
  have husable := (Devig.usable_multiplicative_iff _).mpr ⟨hvalid, hbook.not_ge⟩
  simp only [DevigResult.usableAsDistribution, Bool.and_eq_true, beq_iff_eq] at husable
  refine ⟨husable.1, fun i => ?_⟩
  have hi : (i.castLE kOutcomes_le : Fin kMaxOutcomes).val <
      (decimalQuote (withMargin cfg p)).length := by
    rw [length_decimalQuote]
    exact i.isLt
  have hshare := within_share (by norm_num) (by norm_num) (hfree i).pos.le hpos
    (within_oddsMilli (hfree i)) htotal
  have hbelief : withMargin cfg p i / (1 + cfg.overround) = p i := by
    unfold withMargin
    rw [hprop]
    exact mul_div_cancel_right₀ _ hpos.ne'
  rw [Devig.multiplicative_prob hvalid hbook hi, impliedAt_decimalQuote, booksum_decimalQuote]
  rw [hbelief] at hshare
  exact hshare.mono (by norm_num) (hp i).le

/-- A half, three tenths and a fifth. -/
noncomputable def likelyHome (i : Fin kOutcomes) : ℝ :=
  if i.val = 0 then 0.5 else if i.val = 1 then 0.3 else 0.2

/-- Quoted with a proportional margin of two percent, the half is recovered. -/
theorem quotedOdds_margin_likelyHome :
    ∃ cfg : BookConfig ℝ, cfg.vigModel = .proportional ∧ cfg.overround = 0.02 ∧
      (Devig.multiplicative (decimalQuote (withMargin cfg likelyHome))).status = .ok ∧
      |(Devig.multiplicative (decimalQuote (withMargin cfg likelyHome))).prob 0 - 0.5| ≤
        0.0011 * 0.5 := by
  let cfg : BookConfig ℝ :=
    { bookId := 0, lagTicks := 1, overround := 0.02, noiseSigma := 0, skew := 1,
      vigModel := .proportional }
  have hrange : ∀ i, 0.2 ≤ likelyHome i ∧ likelyHome i ≤ 0.5 := by
    intro i
    unfold likelyHome
    split
    · norm_num
    · split
      · norm_num
      · norm_num
  have hpos : ∀ i, 0 < likelyHome i := fun i => lt_of_lt_of_le (by norm_num) (hrange i).1
  have hsum : ∑ i, likelyHome i = 1 := by
    have hthree : ∑ i, likelyHome i = 0.5 + 0.3 + 0.2 := Fin.sum_univ_three _
    rw [hthree]
    norm_num
  have hfree : ∀ i : Fin kOutcomes, Unclamped (withMargin cfg likelyHome i) := by
    intro i
    obtain ⟨hlow, hhigh⟩ := hrange i
    have hmargin : 0 < likelyHome i * (1 + 0.02) := mul_pos (hpos i) (by norm_num)
    have hmin : ((1001 : ℕ) : ℝ) = 1001 := by norm_num
    have hmax : ((1000000 : ℕ) : ℝ) = 1000000 := by norm_num
    show ((1001 : ℕ) : ℝ) ≤ 1000 / (likelyHome i * (1 + 0.02)) ∧
      1000 / (likelyHome i * (1 + 0.02)) ≤ ((1000000 : ℕ) : ℝ)
    rw [hmin, hmax, le_div_iff₀ hmargin, div_le_iff₀ hmargin]
    norm_num at hlow hhigh ⊢
    constructor
    · linarith
    · linarith
  obtain ⟨hok, hnear⟩ := (quotedOdds_margin hpos hsum hfree).2 rfl (by norm_num [cfg])
  exact ⟨cfg, rfl, rfl, hok, hnear (⟨0, by decide⟩ : Fin kOutcomes)⟩

end Bookmaker

end OddsEngine
