/-
  File:      OddsEngine/Engine/ShinRoot.lean
  Subject:   Shin's equation and the bisection that solves it, over the reals (engine/Devig.hpp).

  Shin's probability of an outcome is the positive root of `(1 - z) p² + z p = q² / B`
  (`shinAt_quad`), and all that is needed of the square roots follows from that. A step of `z` moves
  a probability by no more than the step (`shinAt_sub_le`), so the sum is Lipschitz, however lopsided
  the quote; at `z = 0` it is `√B`, and near `z = 1` less than 1 as no implied probability on the
  wire exceeds 1000/1001. Bisection does the rest.

  * `shin_converges` -- every wire quote with a margin gets its answer.
-/
import OddsEngine.Lib.Bisection
import OddsEngine.Engine.DevigReal
import OddsEngine.Engine.Market

namespace OddsEngine

open Lib

namespace Devig

/-! ## 1. One outcome -/

attribute [local instance] two_atLeastTwo four_atLeastTwo in
/-- Shin's probability of an outcome with the implied probability `q`. -/
noncomputable def shinAt (B z q : ℝ) : ℝ :=
  (Real.sqrt (z * z + 4 * (1 - z) * q * q / B) - z) / (2 * (1 - z))

theorem shinProb_eq (q : List ℝ) (B z : ℝ) : shinProb q B z = q.map (shinAt B z) := rfl

theorem shinG_eq (q : List ℝ) (B z : ℝ) : shinG q B z = (q.map (shinAt B z)).sum - 1 := by
  unfold shinG
  rw [sumLoop_eq_sum]
  rfl

section Outcome

variable {B z q : ℝ}

theorem shinAt_pos (hB : 0 < B) (hz : 0 ≤ z) (hz1 : z < 1) (hq : 0 < q) : 0 < shinAt B z q := by
  have hmem : shinAt B z q ∈ shinProb [q] B z := List.mem_singleton_self _
  refine shinProb_pos (fun x hx => ?_) hB hz hz1 _ hmem
  rw [List.mem_singleton.mp hx]
  exact hq

/-- **Shin's equation**, without the root. -/
theorem shinAt_quad (hB : 0 < B) (hz1 : z < 1) (q : ℝ) :
    (1 - z) * shinAt B z q ^ 2 + z * shinAt B z q = q ^ 2 / B := by
  have hden : 0 < 2 * (1 - z) := by linarith
  have hinner : 0 ≤ z * z + 4 * (1 - z) * q * q / B := by
    have hterm : 0 ≤ (1 - z) * (q * q) / B :=
      div_nonneg (mul_nonneg (by linarith) (mul_self_nonneg q)) hB.le
    have hsplit : 4 * (1 - z) * q * q / B = 4 * ((1 - z) * (q * q) / B) := by ring
    nlinarith [mul_self_nonneg z]
  have hroot : 2 * (1 - z) * shinAt B z q + z =
      Real.sqrt (z * z + 4 * (1 - z) * q * q / B) := by
    rw [shinAt, mul_div_cancel₀ _ hden.ne']
    ring
  have hsq := Real.mul_self_sqrt hinner
  rw [← hroot] at hsq
  have hmul : 4 * (1 - z) * ((1 - z) * shinAt B z q ^ 2 + z * shinAt B z q) =
      4 * (1 - z) * (q ^ 2 / B) := by
    have hq : 4 * (1 - z) * (q ^ 2 / B) = 4 * (1 - z) * q * q / B := by ring
    rw [hq]
    linear_combination hsq
  exact mul_left_cancel₀ (by linarith) hmul

theorem shinAt_lt_one (hB : 0 < B) (hz : 0 ≤ z) (hz1 : z < 1) (hq : q ^ 2 / B < 1) :
    shinAt B z q < 1 := by
  by_contra hge
  have hp := not_lt.mp hge
  have hsq := mul_le_mul_of_nonneg_left (one_le_pow₀ hp (n := 2)) (sub_nonneg.mpr hz1.le)
  have hlin := mul_le_mul_of_nonneg_left hp hz
  linarith [shinAt_quad hB hz1 q]

/-- Two values of `z`, compared. -/
theorem shinAt_step {z' : ℝ} (hB : 0 < B) (hzz : z ≤ z') (hz1 : z' < 1) (q : ℝ) :
    (shinAt B z q - shinAt B z' q) * ((1 - z) * (shinAt B z q + shinAt B z' q) + z) =
      (z' - z) * (shinAt B z' q * (1 - shinAt B z' q)) := by
  linear_combination shinAt_quad hB (hzz.trans_lt hz1) q - shinAt_quad hB hz1 q

/-- A greater `z` takes more off, but never more than `z` grew by. -/
theorem shinAt_sub_le {z' : ℝ} (hB : 0 < B) (hz : 0 ≤ z) (hz1 : z < 1) (hz' : 0 ≤ z')
    (hz1' : z' < 1) (hq : 0 < q) (hq1 : q ^ 2 / B < 1) :
    shinAt B z q - shinAt B z' q ≤ |z - z'| := by
  have hp := shinAt_pos hB hz hz1 hq
  have hp' := shinAt_pos hB hz' hz1' hq
  have hlt := shinAt_lt_one hB hz hz1 hq1
  have hlt' := shinAt_lt_one hB hz' hz1' hq1
  rcases le_total z z' with hzz | hzz
  · rw [abs_of_nonpos (sub_nonpos.mpr hzz), neg_sub]
    have hstep := shinAt_step hB hzz hz1' q
    -- the factor is at least the probability itself, as that is below 1
    have hfactor : shinAt B z' q ≤ (1 - z) * (shinAt B z q + shinAt B z' q) + z := by
      nlinarith
    by_contra hgt
    have hbig := mul_lt_mul_of_pos_right (not_le.mp hgt) (hp'.trans_le hfactor)
    have hsmall := mul_le_mul_of_nonneg_left hfactor (sub_nonneg.mpr hzz)
    have hsq : 0 ≤ (z' - z) * (shinAt B z' q * shinAt B z' q) :=
      mul_nonneg (sub_nonneg.mpr hzz) (mul_self_nonneg _)
    rw [hstep, mul_sub, mul_one, mul_sub] at hbig
    linarith
  · have hstep := shinAt_step hB hzz hz1 q
    have hfactor : 0 < (1 - z') * (shinAt B z' q + shinAt B z q) + z' := by
      nlinarith
    have hright : 0 ≤ (z - z') * (shinAt B z q * (1 - shinAt B z q)) :=
      mul_nonneg (sub_nonneg.mpr hzz) (mul_nonneg hp.le (sub_nonneg.mpr hlt.le))
    rw [← hstep] at hright
    have hle := nonneg_of_mul_nonneg_left hright hfactor
    exact (by linarith : shinAt B z q - shinAt B z' q ≤ 0).trans (abs_nonneg _)

theorem shinAt_zero (hB : 0 < B) (hq : 0 < q) : shinAt B 0 q = q / Real.sqrt B := by
  have hquad := shinAt_quad hB one_pos q
  have hpos := shinAt_pos hB le_rfl one_pos hq
  have hsq : shinAt B 0 q ^ 2 = (q / Real.sqrt B) ^ 2 := by
    rw [div_pow, Real.sq_sqrt hB.le]
    linarith
  exact (pow_left_inj₀ hpos.le (by positivity) two_ne_zero).mp hsq

end Outcome

/-! ## 2. All outcomes -/

theorem decimalOdds_eq (m : UInt32) : (decimalOdds m : ℝ) = (m.toNat : ℝ) / 1000 := rfl

/-- Odds with a margin that the wire can carry: none is below 1001/1000. -/
structure WireOdds (odds : List ℝ) : Prop where
  two_le : 2 ≤ odds.length
  length_le : odds.length ≤ kMaxOutcomes
  le : ∀ o ∈ odds, 1001 / 1000 ≤ o
  margin : 1 < booksum odds

theorem wireOdds_of_milli {ms : List UInt32} (h2 : 2 ≤ ms.length) (h4 : ms.length ≤ kMaxOutcomes)
    (hmin : ∀ m ∈ ms, 1001 ≤ m) (hmargin : 1 < booksum (ms.map decimalOdds : List ℝ)) :
    WireOdds (ms.map decimalOdds) where
  two_le := by simpa using h2
  length_le := by simpa using h4
  le o ho := by
    obtain ⟨m, hm, rfl⟩ := List.mem_map.mp ho
    have hnat : 1001 ≤ m.toNat := UInt32.le_iff_toNat_le.mp (hmin m hm)
    have hcast : (1001 : ℝ) ≤ (m.toNat : ℝ) := by exact_mod_cast hnat
    rw [decimalOdds_eq]
    exact div_le_div_of_nonneg_right hcast (by norm_num)
  margin := hmargin

section Quote

variable {odds : List ℝ}

theorem WireOdds.one_lt (h : WireOdds odds) {o : ℝ} (ho : o ∈ odds) : 1 < o := by
  have hle := h.le o ho
  linarith

theorem WireOdds.valid (h : WireOdds odds) : validOdds odds = true := by
  refine (validOdds_iff odds).mpr ⟨?_, h.length_le, fun o ho => ⟨rfl, h.one_lt ho⟩⟩
  rintro rfl
  exact absurd h.two_le (by decide)

/-- The implied probabilities. -/
noncomputable def impliedProbs (odds : List ℝ) : List ℝ := odds.map fun o => 1 / o

theorem booksum_eq (odds : List ℝ) : booksum odds = (impliedProbs odds).sum := sumLoop_eq_sum _

theorem length_impliedProbs (odds : List ℝ) : (impliedProbs odds).length = odds.length :=
  List.length_map _

theorem impliedProbs_pos (hv : validOdds odds = true) {q : ℝ} (hq : q ∈ impliedProbs odds) :
    0 < q := by
  obtain ⟨o, ho, rfl⟩ := List.mem_map.mp hq
  have h1 : 1 < o := one_lt_of_mem hv ho
  exact one_div_pos.mpr (by linarith)

theorem WireOdds.implied_pos (h : WireOdds odds) {q : ℝ} (hq : q ∈ impliedProbs odds) : 0 < q :=
  impliedProbs_pos h.valid hq

theorem WireOdds.implied_le (h : WireOdds odds) {q : ℝ} (hq : q ∈ impliedProbs odds) :
    q ≤ 1000 / 1001 := by
  obtain ⟨o, ho, rfl⟩ := List.mem_map.mp hq
  have hle := h.le o ho
  rw [div_le_div_iff₀ (by linarith) (by norm_num)]
  linarith

theorem WireOdds.sq_div_lt (h : WireOdds odds) {q : ℝ} (hq : q ∈ impliedProbs odds) :
    q ^ 2 / booksum odds < 1 := by
  have hpos := h.implied_pos hq
  have hle := h.implied_le hq
  have hmargin := h.margin
  rw [div_lt_one (by linarith)]
  nlinarith

/-- At `z = 0` the probabilities sum to the root of the booksum. -/
theorem shinG_zero_pos (h : WireOdds odds) : 0 < shinG (impliedProbs odds) (booksum odds) 0 := by
  have hB : 0 < booksum odds := one_pos.trans h.margin
  have hroot : 1 < Real.sqrt (booksum odds) := by
    rw [Real.lt_sqrt zero_le_one, one_pow]
    exact h.margin
  have hsum : ((impliedProbs odds).map (shinAt (booksum odds) 0)).sum =
      Real.sqrt (booksum odds) := by
    have hterm : (impliedProbs odds).map (shinAt (booksum odds) 0) =
        (impliedProbs odds).map fun q => q * (Real.sqrt (booksum odds))⁻¹ :=
      List.map_congr_left fun q hq => (shinAt_zero hB (h.implied_pos hq)).trans (div_eq_mul_inv _ _)
    rw [hterm, List.sum_map_mul_right, List.map_id', ← booksum_eq, ← div_eq_mul_inv]
    exact Real.div_sqrt
  rw [shinG_eq, hsum]
  linarith

/-- **The upper end brackets**: close to `z = 1` the probabilities sum to less than 1. -/
theorem shinG_hi_nonpos (h : WireOdds odds) :
    shinG (impliedProbs odds) (booksum odds) (1 - 1e-9) ≤ 0 := by
  have hB : 0 < booksum odds := one_pos.trans h.margin
  have hterm : ((impliedProbs odds).map (shinAt (booksum odds) (1 - 1e-9))).sum ≤
      ((impliedProbs odds).map fun q => q * (1 / booksum odds)).sum := by
    refine List.sum_le_sum fun q hq => ?_
    have hpos := h.implied_pos hq
    have hle := h.implied_le hq
    have hp : 0 ≤ shinAt (booksum odds) (1 - 1e-9) q :=
      (shinAt_pos hB (by norm_num) (by norm_num) hpos).le
    have hquad := shinAt_quad hB (by norm_num : (1 : ℝ) - 1e-9 < 1) q
    have hq2 : q ^ 2 / booksum odds ≤ 1000 / 1001 * (q * (1 / booksum odds)) := by
      rw [mul_one_div, ← mul_div_assoc, div_le_div_iff_of_pos_right hB, sq]
      exact mul_le_mul_of_nonneg_right hle hpos.le
    nlinarith [sq_nonneg (shinAt (booksum odds) (1 - 1e-9) q),
      mul_nonneg hpos.le (one_div_pos.mpr hB).le]
  rw [List.sum_map_mul_right, List.map_id', ← booksum_eq, mul_one_div_cancel hB.ne'] at hterm
  rw [shinG_eq]
  linarith

/-- The sum moves by no more than the number of outcomes times the step. -/
theorem shinG_sub_le (h : WireOdds odds) {x y : ℝ} (hx : 0 ≤ x) (hx1 : x < 1) (hy : 0 ≤ y)
    (hy1 : y < 1) : shinG (impliedProbs odds) (booksum odds) x -
      shinG (impliedProbs odds) (booksum odds) y ≤ 4 * |x - y| := by
  have hB : 0 < booksum odds := one_pos.trans h.margin
  have hsum : ∀ qs : List ℝ, (∀ q ∈ qs, q ∈ impliedProbs odds) →
      (qs.map (shinAt (booksum odds) x)).sum - (qs.map (shinAt (booksum odds) y)).sum ≤
        qs.length * |x - y| := by
    intro qs hqs
    induction qs with
    | nil => simp
    | cons q qs ih =>
      have hmem := hqs q List.mem_cons_self
      have hone := shinAt_sub_le hB hx hx1 hy hy1 (h.implied_pos hmem) (h.sq_div_lt hmem)
      have hrest := ih fun r hr => hqs r (List.mem_cons_of_mem q hr)
      simp only [List.map_cons, List.sum_cons, List.length_cons, Nat.cast_succ]
      linarith
  have hall := hsum (impliedProbs odds) fun _ hq => hq
  have hlen : ((impliedProbs odds).length : ℝ) ≤ 4 := by
    rw [length_impliedProbs]
    exact_mod_cast h.length_le
  rw [shinG_eq, shinG_eq]
  linarith [mul_le_mul_of_nonneg_right hlen (abs_nonneg (x - y))]

theorem brackets_shin (h : WireOdds odds) :
    Brackets (shinG (impliedProbs odds) (booksum odds)) (0, 1 - 1e-9) where
  lt := by norm_num
  pos := shinG_zero_pos h
  nonpos := shinG_hi_nonpos h

/-! ## 3. The loop -/

/-- The loop stops at the first middle that meets the tolerance. -/
theorem shinLoop_finds {g : ℝ → ℝ} {tolerance : ℝ} (n it : Nat) (b : ℝ × ℝ) {j : Nat} (hj : j < n)
    (h : |g (middle (bracket g b j))| < tolerance) :
    ∃ i ≤ j, shinLoop g tolerance n it b.1 b.2 (middle b) =
        ⟨middle (bracket g b i), it + i + 1, true⟩ ∧
      |g (middle (bracket g b i))| < tolerance := by
  induction n generalizing it b j with
  | zero => exact absurd hj (Nat.not_lt_zero j)
  | succ n ih =>
    by_cases hnow : |g (middle b)| < tolerance
    · exact ⟨0, Nat.zero_le j, if_pos hnow, hnow⟩
    · cases j with
      | zero => exact absurd h hnow
      | succ j =>
        rw [← bracket_halve] at h
        obtain ⟨i, hi, hloop, hmeets⟩ := ih (it + 1) (halve g b) (Nat.lt_of_succ_lt_succ hj) h
        rw [bracket_halve] at hloop hmeets
        have hround : shinLoop g tolerance (n + 1) it b.1 b.2 (middle b) =
            shinLoop g tolerance n (it + 1) (halve g b).1 (halve g b).2 (middle (halve g b)) :=
          if_neg hnow
        refine ⟨i + 1, Nat.succ_le_succ hi, ?_, hmeets⟩
        rw [hround, hloop]
        congr 1
        omega

/-- The answer of `shin` where its bracket holds a root. -/
theorem shin_of_bracket {tolerance : ℝ} {maxIterations : Nat} (hv : validOdds odds = true)
    (hB : 1 < booksum odds) (hhi : shinG (impliedProbs odds) (booksum odds) (1 - 1e-9) ≤ 0) :
    let r := shinLoop (shinG (impliedProbs odds) (booksum odds)) tolerance maxIterations 0 0
      (1 - 1e-9) (middle (0, 1 - 1e-9))
    shin odds tolerance maxIterations =
      { prob := fill (shinProb (impliedProbs odds) (booksum odds) r.point)
        param := r.point
        iterations := r.iterations
        count := odds.length.toUInt8
        status := if r.converged then .ok else .notConverged
        normalized := r.converged } := by
  unfold shin
  rw [if_neg (by rw [hv]; decide)]
  dsimp only
  rw [if_neg hB.not_ge]
  exact if_neg hhi.not_gt

end Quote

/-! ## 4. The answer -/

/-- What a successful run of `shin` at its default arguments leaves, and keeps on the way. -/
structure ShinFinds (odds : List ℝ) : Prop where
  upper : shinG (impliedProbs odds) (booksum odds) (1 - 1e-9) ≤ 0
  /-- The bracket after any number of rounds. -/
  brackets : ∀ n,
    0 < shinG (impliedProbs odds) (booksum odds)
      (bracket (shinG (impliedProbs odds) (booksum odds)) (0, 1 - 1e-9) n).1 ∧
    shinG (impliedProbs odds) (booksum odds)
      (bracket (shinG (impliedProbs odds) (booksum odds)) (0, 1 - 1e-9) n).2 ≤ 0
  /-- The loop stops in the middle of one of them. -/
  stops : ∃ n < 200, (shin odds 1e-15 200).iterations = n + 1 ∧ (shin odds 1e-15 200).param =
    middle (bracket (shinG (impliedProbs odds) (booksum odds)) (0, 1 - 1e-9) n)
  status : (shin odds 1e-15 200).status = .ok
  meets : |shinG (impliedProbs odds) (booksum odds) (shin odds 1e-15 200).param| < 1e-15
  param_pos : 0 < (shin odds 1e-15 200).param
  param_lt : (shin odds 1e-15 200).param < 1
  prob_pos : ∀ i : Fin kMaxOutcomes, i.val < odds.length → 0 < (shin odds 1e-15 200).prob i

theorem shinFinds_of_wireOdds {odds : List ℝ} (h : WireOdds odds) : ShinFinds odds := by
  have hB : 0 < booksum odds := one_pos.trans h.margin
  have hbr := brackets_shin h
  -- 52 rounds are enough for the tolerance, 200 are allowed
  have hrounds : 4 * (((0 : ℝ), (1 : ℝ) - 1e-9).2 - ((0 : ℝ), (1 : ℝ) - 1e-9).1) <
      1e-15 * 2 ^ (52 + 1) := by norm_num
  obtain ⟨j, hj, hmeets⟩ := hbr.exists_abs_lt
    (fun x hx y hy => shinG_sub_le h hx.1 (hx.2.trans_lt (by norm_num)) hy.1
      (hy.2.trans_lt (by norm_num))) hrounds
  obtain ⟨i, hi, hloop, hstop⟩ := shinLoop_finds 200 0 (0, 1 - 1e-9) (by omega) hmeets
  rw [Nat.zero_add] at hloop
  have hshin : shin odds 1e-15 200 = _ := shin_of_bracket h.valid h.margin (shinG_hi_nonpos h)
  rw [hloop] at hshin
  have hwithin := hbr.within i
  have hmid := hbr.bracket i
  have hpos := hwithin.1.trans_lt hmid.lt_middle
  have hlt : middle (bracket (shinG (impliedProbs odds) (booksum odds)) (0, 1 - 1e-9) i) < 1 :=
    (hmid.middle_lt.trans_le hwithin.2).trans (by norm_num)
  exact {
    upper := shinG_hi_nonpos h
    brackets := fun n => ⟨(hbr.bracket n).pos, (hbr.bracket n).nonpos⟩
    stops := ⟨i, by omega, by rw [hshin], by rw [hshin]⟩
    status := by rw [hshin]; rfl
    meets := by rw [hshin]; exact hstop
    param_pos := by rw [hshin]; exact hpos
    param_lt := by rw [hshin]; exact hlt
    prob_pos := by
      intro k hk
      rw [hshin]
      refine shinProb_pos (fun q hq => h.implied_pos hq) hB hpos.le hlt _ (fill_mem ?_)
      rw [shinProb_eq, List.length_map, length_impliedProbs]
      exact hk }

/-- **Every wire quote with a margin gets Shin's answer.** -/
theorem shin_converges {ms : List UInt32} (h2 : 2 ≤ ms.length) (h4 : ms.length ≤ kMaxOutcomes)
    (hmin : ∀ m ∈ ms, 1001 ≤ m) (hmargin : 1 < booksum (ms.map decimalOdds : List ℝ)) :
    ShinFinds (ms.map decimalOdds) :=
  shinFinds_of_wireOdds (wireOdds_of_milli h2 h4 hmin hmargin)

/-- A quote of 1.9 against 1.9. -/
theorem margin_even : 1 < booksum ([1900, 1900].map decimalOdds : List ℝ) := by
  have hodds : (decimalOdds 1900 : ℝ) = 1900 / 1000 := by
    have hnat : (1900 : UInt32).toNat = 1900 := rfl
    rw [decimalOdds_eq, hnat, Nat.cast_ofNat]
  rw [booksum, sumLoop_eq_sum]
  simp only [List.map_cons, List.map_nil, List.sum_cons, List.sum_nil, hodds]
  norm_num

theorem wireOdds_even : WireOdds ([1900, 1900].map decimalOdds) :=
  wireOdds_of_milli (by decide) (by decide) (by simp) margin_even

theorem shin_converges_even : ShinFinds ([1900, 1900].map decimalOdds) :=
  shin_converges (by decide) (by decide) (by simp) margin_even

end Devig

end OddsEngine
