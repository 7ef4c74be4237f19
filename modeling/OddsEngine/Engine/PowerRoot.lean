/-
  File:      OddsEngine/Engine/PowerRoot.lean
  Subject:   The guarded Newton loop of `power`, over the reals (engine/Devig.hpp).

  The sum of the powers decreases and lies above its tangents, so a step from either side lands left
  of the root. Left of it the steps stay, and the product of value and slope is quartered by each
  (`powerLoop_left`). Right of it either the step is taken, or it would leave the bracket and the
  bracket is halved (`powerLoop_right`). On a wire quote both phases are over within the 100 rounds
  allowed.

  The search for the upper end gives up at 1024 (`doubleHi_spec`). A quote all of whose odds are
  close to 1.001 has its root beyond.

  * `powerFinds_iff` -- `power` finds its root exactly where the powers at 1024 sum to at most 1;
  * `powerFinds_two` -- which they do for two outcomes.
-/
import OddsEngine.Lib.Newton
import OddsEngine.Engine.ShinRoot

namespace OddsEngine

open Lib

namespace Devig

/-! ## 1. The loop -/

theorem newtonNext_accept {fk dfk lo hi k : ℝ} (hd : dfk ≠ 0) (hlo : lo < k - fk / dfk)
    (hhi : k - fk / dfk < hi) : newtonNext fk dfk lo hi k = k - fk / dfk := by
  have hbne : (dfk != 0) = true := bne_iff_ne.mpr hd
  simp [newtonNext, hbne, hlo, hhi]

theorem newtonNext_reject {fk dfk lo hi k : ℝ} (hd : dfk ≠ 0) (hlo : ¬ lo < k - fk / dfk) :
    newtonNext fk dfk lo hi k = lo + (hi - lo) * 0.5 := by
  have hbne : (dfk != 0) = true := bne_iff_ne.mpr hd
  simp [newtonNext, hbne, hlo]

section Loop

variable {f df : ℝ → ℝ} {tolerance d C : ℝ}

/-- A round that meets the tolerance is the last. -/
theorem powerLoop_meets {n it : Nat} {lo hi k : ℝ} (h : |f k| < tolerance) :
    (powerLoop f df tolerance (n + 1) it lo hi k).converged = true := by
  have hround : powerLoop f df tolerance (n + 1) it lo hi k = ⟨k, it + 1, true⟩ := if_pos h
  rw [hround]

/-- A round at a point left of the root moves on by Newton's step. -/
theorem powerLoop_step_left (h : Tangents f df) {n it : Nat} {lo hi k : ℝ} (hk : 0 < f k)
    (hhi : f hi ≤ 0) (hmiss : ¬ |f k| < tolerance) :
    powerLoop f df tolerance (n + 1) it lo hi k =
      powerLoop f df tolerance n (it + 1) k hi (k - f k / df k) := by
  have hnext := h.step_pos hk.ne'
  have hlt : k - f k / df k < hi := by
    by_contra hge
    exact absurd (h.strictAnti.antitone (not_lt.mp hge)) (hhi.trans_lt hnext).not_ge
  have hround : powerLoop f df tolerance (n + 1) it lo hi k =
      powerLoop f df tolerance n (it + 1) (if 0 < f k then k else lo) (if 0 < f k then hi else k)
        (newtonNext (f k) (df k) (if 0 < f k then k else lo) (if 0 < f k then hi else k) k) :=
    if_neg hmiss
  rw [hround, if_pos hk, if_pos hk,
    newtonNext_accept (h.slope_neg k).ne (h.lt_step hk) hlt]

/-- A round at a point right of the root goes on left of it, or halves what is left of it. -/
theorem powerLoop_step_right (h : Tangents f df) {n it : Nat} {lo hi k : ℝ} (hk : f k < 0)
    (hmiss : ¬ |f k| < tolerance) :
    ∃ k', powerLoop f df tolerance (n + 1) it lo hi k =
        powerLoop f df tolerance n (it + 1) lo k k' ∧
      (lo < k' ∧ 0 < f k' ∨ k' = lo + (k - lo) * 0.5) := by
  have hround : powerLoop f df tolerance (n + 1) it lo hi k =
      powerLoop f df tolerance n (it + 1) (if 0 < f k then k else lo) (if 0 < f k then hi else k)
        (newtonNext (f k) (df k) (if 0 < f k then k else lo) (if 0 < f k then hi else k) k) :=
    if_neg hmiss
  rw [if_neg hk.not_gt, if_neg hk.not_gt] at hround
  refine ⟨_, hround, ?_⟩
  by_cases hlo : lo < k - f k / df k
  · rw [newtonNext_accept (h.slope_neg k).ne hlo (h.step_lt hk)]
    exact Or.inl ⟨hlo, h.step_pos hk.ne⟩
  · exact Or.inr (newtonNext_reject (h.slope_neg k).ne hlo)

/-- **Left of the root the loop converges**: each round quarters value times slope, and the slope
    is at least `d`. -/
theorem powerLoop_left (h : Tangents f df) (hd : 0 < d) (hslope : ∀ x, 0 < f x → d ≤ -df x)
    (m : Nat) {n it : Nat} {lo hi k : ℝ} (hn : m < n) (hk : 0 < f k) (hhi : f hi ≤ 0)
    (hC : f k * -df k ≤ C) (hm : C < tolerance * d * 4 ^ m) :
    (powerLoop f df tolerance n it lo hi k).converged = true := by
  induction m generalizing n it lo k C with
  | zero =>
    obtain ⟨n, rfl⟩ := Nat.exists_eq_succ_of_ne_zero (Nat.ne_zero_of_lt hn)
    have hle := (mul_le_mul_of_nonneg_left (hslope k hk) hk.le).trans hC
    rw [pow_zero, mul_one] at hm
    refine powerLoop_meets ?_
    rw [abs_of_pos hk]
    exact lt_of_mul_lt_mul_right (hle.trans_lt hm) hd.le
  | succ m ih =>
    obtain ⟨n, rfl⟩ := Nat.exists_eq_succ_of_ne_zero (Nat.ne_zero_of_lt hn)
    by_cases hmeets : |f k| < tolerance
    · exact powerLoop_meets hmeets
    · rw [powerLoop_step_left h hk hhi hmeets]
      have hstep := h.step_quarter hk
      have hquarter : f (k - f k / df k) * -df (k - f k / df k) ≤ C / 4 := by linarith
      have hm' : C / 4 < tolerance * d * 4 ^ m := by
        rw [pow_succ] at hm
        linarith
      exact ih (Nat.lt_of_succ_lt_succ hn) (h.step_pos hk.ne') hquarter hm'

/-- **From anywhere in the bracket the loop converges**: `a` halvings reach the tolerance on the
    right of the root, where the value is at most `M` times the distance from `lo`. -/
theorem powerLoop_converges (h : Tangents f df) (hd : 0 < d)
    (hslope : ∀ x, 0 < f x → d ≤ -df x) {lo M : ℝ}
    (hC : ∀ x, lo ≤ x → 0 < f x → f x * -df x ≤ C)
    (hM : ∀ x, lo ≤ x → f x ≤ 0 → -f x ≤ M * (x - lo)) {m : Nat}
    (hm : C < tolerance * d * 4 ^ m) (a : Nat) {n it : Nat} {hi k : ℝ} (hn : a + m + 1 < n)
    (hlo : lo < k) (hhi : f hi ≤ 0) (ha : M * (k - lo) < tolerance * 2 ^ a) :
    (powerLoop f df tolerance n it lo hi k).converged = true := by
  induction a generalizing n it hi k with
  | zero =>
    obtain ⟨n, rfl⟩ := Nat.exists_eq_succ_of_ne_zero (Nat.ne_zero_of_lt hn)
    by_cases hk : 0 < f k
    · exact powerLoop_left h hd hslope m (by omega) hk hhi (hC k hlo.le hk) hm
    · refine powerLoop_meets ?_
      rw [abs_of_nonpos (not_lt.mp hk)]
      rw [pow_zero, mul_one] at ha
      exact (hM k hlo.le (not_lt.mp hk)).trans_lt ha
  | succ a ih =>
    obtain ⟨n, rfl⟩ := Nat.exists_eq_succ_of_ne_zero (Nat.ne_zero_of_lt hn)
    by_cases hmeets : |f k| < tolerance
    · exact powerLoop_meets hmeets
    · by_cases hk : 0 < f k
      · exact powerLoop_left h hd hslope m (by omega) hk hhi (hC k hlo.le hk) hm
      · have hneg : f k < 0 := by
          refine lt_of_le_of_ne (not_lt.mp hk) fun hzero => hmeets ?_
          have hpos := (hM k hlo.le hzero.le).trans_lt ha
          rw [hzero, neg_zero] at hpos
          rw [hzero, abs_zero]
          exact pos_of_mul_pos_left hpos (by positivity)
        obtain ⟨k', hround, hk'⟩ :=
          @powerLoop_step_right f df tolerance h n it lo hi k hneg hmeets
        rw [hround]
        rcases hk' with ⟨hlo', hpos⟩ | rfl
        · exact powerLoop_left h hd hslope m (by omega) hpos hneg.le (hC k' hlo'.le hpos) hm
        · refine ih (by omega) (by linarith) hneg.le ?_
          rw [pow_succ] at ha
          linarith

/-- The loop makes no more rounds than it may. -/
theorem powerLoop_iterations_le (n it : Nat) (lo hi k : ℝ) :
    (powerLoop f df tolerance n it lo hi k).iterations ≤ it + n := by
  induction n generalizing it lo hi k with
  | zero => exact le_rfl
  | succ n ih =>
    unfold powerLoop
    dsimp only
    split
    · show it + 1 ≤ it + (n + 1)
      omega
    · exact (ih _ _ _ _).trans (by omega)

end Loop

/-! ## 2. The upper end -/

/-- The search ends at a power of two up to 1024: where `f` is not positive, or at 1024. -/
theorem doubleHi_spec (f : ℝ → ℝ) (n : Nat) {j : Nat} (hj : 1 ≤ j) (hj10 : j ≤ 10)
    (hn : 10 ≤ j + n) : ∃ i, 1 ≤ i ∧ i ≤ 10 ∧ doubleHi f n (2 ^ j) = 2 ^ i ∧
      (f (2 ^ i) ≤ 0 ∨ i = 10) := by
  induction n generalizing j with
  | zero => exact ⟨j, hj, hj10, rfl, Or.inr (by omega)⟩
  | succ n ih =>
    by_cases hmore : 0 < f (2 ^ j) ∧ (2 : ℝ) ^ j < 1024
    · have hlt : j < 10 := by
        by_contra hge
        have hpow : (2 : ℝ) ^ 10 ≤ 2 ^ j := pow_le_pow_right₀ one_le_two (not_lt.mp hge)
        linarith [hmore.2]
      have hstep : doubleHi f (n + 1) (2 ^ j) = doubleHi f n (2 ^ (j + 1)) := by
        rw [pow_succ]
        exact if_pos hmore
      rw [hstep]
      exact ih (by omega) (by omega) (by omega)
    · refine ⟨j, hj, hj10, if_neg hmore, ?_⟩
      by_cases hpos : 0 < f (2 ^ j)
      · right
        by_contra hne
        refine hmore ⟨hpos, ?_⟩
        have hpow : (2 : ℝ) ^ j ≤ 2 ^ 9 := pow_le_pow_right₀ one_le_two (by omega)
        linarith
      · exact Or.inl (not_lt.mp hpos)

/-- **The search finds an upper end exactly if 1024 is one.** -/
theorem doubleHi_iff {f : ℝ → ℝ} (hf : Antitone f) :
    (f (doubleHi f 10 2) ≤ 0 ↔ f 1024 ≤ 0) ∧ 2 ≤ doubleHi f 10 2 ∧ doubleHi f 10 2 ≤ 1024 := by
  obtain ⟨i, hi1, hi10, hend, hor⟩ := doubleHi_spec f 10 (le_refl 1) (by omega) (by omega)
  rw [pow_one] at hend
  have hle : (2 : ℝ) ^ i ≤ 2 ^ 10 := pow_le_pow_right₀ one_le_two hi10
  have hge : (2 : ℝ) ^ 1 ≤ 2 ^ i := pow_le_pow_right₀ one_le_two hi1
  have h1024 : (2 : ℝ) ^ 10 = 1024 := by norm_num
  rw [h1024] at hle
  rw [pow_one] at hge
  rw [hend]
  refine ⟨⟨fun h => (hf hle).trans h, fun h => ?_⟩, hge, hle⟩
  rcases hor with h | rfl
  · exact h
  · rw [h1024]
    exact h

/-! ## 3. The sum of the powers -/

/-- The logarithms of the implied probabilities. -/
noncomputable def logProbs (odds : List ℝ) : List ℝ := odds.map fun o => Real.log (1 / o)

theorem powerF_eq_expSum (odds : List ℝ) :
    powerF (odds.map fun o => Libm.log (1 / o)) = fun k => expSum (logProbs odds) k - 1 :=
  funext fun k => powerF_eq _ k

theorem powerDf_eq_expSlope (odds : List ℝ) :
    powerDf (odds.map fun o => Libm.log (1 / o)) = expSlope (logProbs odds) :=
  funext fun _ => sumLoop_eq_sum _

theorem length_logProbs (odds : List ℝ) : (logProbs odds).length = odds.length :=
  List.length_map _

/-- A whole power, by multiplication. -/
theorem expSum_natCast {odds : List ℝ} (h : ∀ o ∈ odds, 0 < o) (n : Nat) :
    expSum (logProbs odds) n = (odds.map fun o => (1 / o) ^ n).sum := by
  rw [expSum, logProbs, List.map_map]
  refine congrArg List.sum (List.map_congr_left fun o ho => ?_)
  show Real.exp (n * Real.log (1 / o)) = (1 / o) ^ n
  rw [Real.exp_nat_mul, Real.exp_log (one_div_pos.mpr (h o ho))]

/-- `-l e^(x l)` is at most 1, from `x = 1` on. -/
theorem neg_mul_exp_le {l x : ℝ} (hl : l ≤ 0) (hx : 1 ≤ x) : -(l * Real.exp (x * l)) ≤ 1 := by
  have hexp : Real.exp (x * l) ≤ Real.exp l := by
    refine Real.exp_le_exp.mpr ?_
    nlinarith
  have hle : -l ≤ Real.exp (-l) := by
    have hadd := Real.add_one_le_exp (-l)
    linarith
  have hone : Real.exp (-l) * Real.exp l = 1 := by
    rw [← Real.exp_add, neg_add_cancel, Real.exp_zero]
  calc -(l * Real.exp (x * l)) = -l * Real.exp (x * l) := by ring
    _ ≤ -l * Real.exp l := mul_le_mul_of_nonneg_left hexp (neg_nonneg.mpr hl)
    _ ≤ Real.exp (-l) * Real.exp l := mul_le_mul_of_nonneg_right hle (Real.exp_pos l).le
    _ = 1 := hone

section Quote

variable {odds : List ℝ}

theorem WireOdds.odds_pos (h : WireOdds odds) {o : ℝ} (ho : o ∈ odds) : 0 < o :=
  one_pos.trans (h.one_lt ho)

theorem WireOdds.log_le (h : WireOdds odds) {l : ℝ} (hl : l ∈ logProbs odds) : l ≤ -(1 / 1001) := by
  obtain ⟨o, ho, rfl⟩ := List.mem_map.mp hl
  have hpos := h.odds_pos ho
  have hle := h.le o ho
  have hlog := Real.log_le_sub_one_of_pos (one_div_pos.mpr hpos)
  have hdiv : 1 / o ≤ 1000 / 1001 := by
    rw [div_le_div_iff₀ hpos (by norm_num)]
    linarith
  linarith

theorem logProbs_neg (hv : validOdds odds = true) {l : ℝ} (hl : l ∈ logProbs odds) : l < 0 := by
  obtain ⟨o, ho, rfl⟩ := List.mem_map.mp hl
  have h1 : 1 < o := one_lt_of_mem hv ho
  have hpos : 0 < o := one_pos.trans h1
  exact Real.log_neg (one_div_pos.mpr hpos) ((div_lt_one hpos).mpr h1)

theorem tangents_logProbs (hv : validOdds odds = true) :
    Tangents (fun k => expSum (logProbs odds) k - 1) (expSlope (logProbs odds)) := by
  refine tangents_expSum ?_ (fun l hl => logProbs_neg hv hl) 1
  rw [logProbs, ne_eq, List.map_eq_nil_iff]
  exact ((validOdds_iff odds).mp hv).1

/-- The sum of the powers decreases, and without a jump. -/
theorem strictAnti_powerF (hv : validOdds odds = true) :
    StrictAnti (powerF (odds.map fun o => Libm.log (1 / o))) := by
  rw [powerF_eq_expSum]
  exact (tangents_logProbs hv).strictAnti

theorem continuous_powerF (odds : List ℝ) :
    Continuous (powerF (odds.map fun o => Libm.log (1 / o))) := by
  rw [powerF_eq_expSum]
  exact (continuous_list_sum _ fun l _ => by fun_prop).sub continuous_const

theorem WireOdds.tangents (h : WireOdds odds) :
    Tangents (fun k => expSum (logProbs odds) k - 1) (expSlope (logProbs odds)) :=
  tangents_logProbs h.valid

/-- At exponent 1 there is a margin left. -/
theorem WireOdds.powerF_one_pos (h : WireOdds odds) :
    0 < powerF (odds.map fun o => Libm.log (1 / o)) 1 := by
  rw [powerF_one h.valid]
  exact sub_pos.mpr h.margin

/-- The bounds on one exponential, summed over the outcomes. -/
theorem WireOdds.sum_bounds (h : WireOdds odds) (x : ℝ) :
    1 / 1001 * expSum (logProbs odds) x ≤ -expSlope (logProbs odds) x ∧
      (1 ≤ x → expSum (logProbs odds) x ≤ 4 ∧ -expSlope (logProbs odds) x ≤ 4) := by
  have hsum : ∀ ls : List ℝ, (∀ l ∈ ls, l ≤ -(1 / 1001)) →
      1 / 1001 * expSum ls x ≤ -expSlope ls x ∧
        (1 ≤ x → expSum ls x ≤ ls.length ∧ -expSlope ls x ≤ ls.length) := by
    intro ls hls
    induction ls with
    | nil => simp [expSum, expSlope]
    | cons l ls ih =>
      obtain ⟨hslope, hle⟩ := ih fun k hk => hls k (List.mem_cons_of_mem l hk)
      have hl := hls l List.mem_cons_self
      have hl0 : l ≤ 0 := by linarith
      have hpos := Real.exp_pos (x * l)
      rw [expSum_cons, expSlope_cons, List.length_cons, Nat.cast_succ]
      constructor
      · have hterm := mul_le_mul_of_nonneg_right hl hpos.le
        linarith
      · intro hx
        obtain ⟨hsum, hslopes⟩ := hle hx
        have hexp : Real.exp (x * l) ≤ 1 :=
          Real.exp_le_one_iff.mpr (mul_nonpos_of_nonneg_of_nonpos (by linarith) hl0)
        have hneg := neg_mul_exp_le hl0 hx
        exact ⟨by linarith, by linarith⟩
  obtain ⟨hslope, hle⟩ := hsum (logProbs odds) fun l hl => h.log_le hl
  have hlen : ((logProbs odds).length : ℝ) ≤ 4 := by
    rw [length_logProbs]
    exact_mod_cast h.length_le
  exact ⟨hslope, fun hx => ⟨(hle hx).1.trans hlen, (hle hx).2.trans hlen⟩⟩

/-- **The loop converges within its 100 rounds** on a wire quote whose upper end was found. -/
theorem WireOdds.powerLoop_converged (h : WireOdds odds) {hi : ℝ} (hhi2 : 2 ≤ hi) (hhi : hi ≤ 1024)
    (hend : expSum (logProbs odds) hi - 1 ≤ 0) :
    (powerLoop (fun k => expSum (logProbs odds) k - 1) (expSlope (logProbs odds)) 1e-13 100 0 1 hi
      (1 + (hi - 1) * 0.5)).converged = true := by
  have hf := h.tangents
  have hf1 : 0 < expSum (logProbs odds) 1 - 1 := by
    have hpos := h.powerF_one_pos
    rw [powerF_eq_expSum] at hpos
    exact hpos
  have hslope : ∀ x, 0 < expSum (logProbs odds) x - 1 →
      1 / 1001 ≤ -expSlope (logProbs odds) x := by
    intro x hx
    have hle := (h.sum_bounds x).1
    linarith
  have hC : ∀ x, 1 ≤ x → 0 < expSum (logProbs odds) x - 1 →
      (expSum (logProbs odds) x - 1) * -expSlope (logProbs odds) x ≤ 12 := by
    intro x hx hpos
    obtain ⟨hsum, hneg⟩ := (h.sum_bounds x).2 hx
    have hmul := mul_le_mul (by linarith : expSum (logProbs odds) x - 1 ≤ 3) hneg
      (neg_pos.mpr (hf.slope_neg x)).le (by norm_num)
    linarith
  have hM : ∀ x, 1 ≤ x → expSum (logProbs odds) x - 1 ≤ 0 →
      -(expSum (logProbs odds) x - 1) ≤ 4 * (x - 1) := by
    intro x hx hle
    have hne : x ≠ 1 := by
      rintro rfl
      exact hle.not_gt hf1
    have habove := hf.above 1 x hne
    have hbound := ((h.sum_bounds 1).2 le_rfl).2
    have hmul := mul_le_mul_of_nonneg_right hbound (sub_nonneg.mpr hx)
    linarith
  have hm : (12 : ℝ) < 1e-13 * (1 / 1001) * 4 ^ 29 := by norm_num
  have ha : 4 * (1 + (hi - 1) * 0.5 - 1) < (1e-13 : ℝ) * 2 ^ 55 := by
    have hnum : (2046 : ℝ) < 1e-13 * 2 ^ 55 := by norm_num
    linarith
  exact powerLoop_converges hf (by norm_num) hslope hC hM hm 55 (by omega) (by linarith) hend ha

/-! ## 4. The answer -/

/-- What a successful run of `power` at its default arguments leaves. -/
structure PowerFinds (odds : List ℝ) : Prop where
  lower : 0 < powerF (odds.map fun o => Libm.log (1 / o)) 1
  /-- The search for the upper end ends on the other side of the root. -/
  upper : powerF (odds.map fun o => Libm.log (1 / o))
    (doubleHi (powerF (odds.map fun o => Libm.log (1 / o))) 10 2) ≤ 0
  status : (power odds 1e-13 100).status = .ok
  iterations_le : (power odds 1e-13 100).iterations ≤ 100
  sum : |(∑ i : Fin kMaxOutcomes, if i.val < odds.length then (power odds 1e-13 100).prob i else 0) -
    1| < 1e-13

/-- The answer of `power` where its search finds an upper end. -/
theorem power_of_bracket {tolerance : ℝ} {maxIterations : Nat} (hv : validOdds odds = true)
    (h1 : 0 < powerF (odds.map fun o => Libm.log (1 / o)) 1)
    (hhi : powerF (odds.map fun o => Libm.log (1 / o))
      (doubleHi (powerF (odds.map fun o => Libm.log (1 / o))) 10 2) ≤ 0) :
    let logQ := odds.map fun o => Libm.log (1 / o)
    let hi := doubleHi (powerF logQ) 10 2
    let r := powerLoop (powerF logQ) (powerDf logQ) tolerance maxIterations 0 1 hi
      (1 + (hi - 1) * 0.5)
    power odds tolerance maxIterations =
      { prob := fill (logQ.map fun l => Libm.exp (r.point * l))
        param := r.point
        iterations := r.iterations
        count := odds.length.toUInt8
        status := if r.converged then .ok else .notConverged
        normalized := r.converged } := by
  unfold power
  rw [if_neg (by rw [hv]; decide)]
  dsimp only
  rw [if_neg h1.not_ge]
  exact if_neg hhi.not_gt

theorem powerFinds_of_le (h : WireOdds odds) (hle : (odds.map fun o => (1 / o) ^ 1024).sum ≤ 1) :
    PowerFinds odds := by
  have hanti := h.tangents.strictAnti.antitone
  have h1024 : expSum (logProbs odds) 1024 - 1 ≤ 0 := by
    have hnat := expSum_natCast (fun o ho => h.odds_pos ho) 1024
    rw [Nat.cast_ofNat] at hnat
    rw [hnat]
    exact sub_nonpos.mpr hle
  obtain ⟨hiff, hhi2, hhi⟩ := doubleHi_iff hanti
  have hend := hiff.mpr h1024
  have hlower := h.powerF_one_pos
  have hupper : powerF (odds.map fun o => Libm.log (1 / o))
      (doubleHi (powerF (odds.map fun o => Libm.log (1 / o))) 10 2) ≤ 0 := by
    rw [powerF_eq_expSum]
    exact hend
  have hconv := h.powerLoop_converged hhi2 hhi hend
  have hpower : power odds 1e-13 100 = _ := power_of_bracket h.valid hlower hupper
  rw [powerF_eq_expSum, powerDf_eq_expSlope, hconv] at hpower
  have hstatus : (power odds 1e-13 100).status = .ok := by
    rw [hpower]
    rfl
  have husable := (flagsAgree_power odds 1e-13 100).usable_iff.mpr hstatus
  exact {
    lower := hlower
    upper := hupper
    status := hstatus
    iterations_le := by
      rw [hpower]
      exact powerLoop_iterations_le 100 0 1 _ _
    sum := (isDistribution_power husable).sum }

theorem le_of_powerFinds (h : WireOdds odds) (hfinds : PowerFinds odds) :
    (odds.map fun o => (1 / o) ^ 1024).sum ≤ 1 := by
  have hupper := hfinds.upper
  rw [powerF_eq_expSum] at hupper
  have h1024 := (doubleHi_iff h.tangents.strictAnti.antitone).1.mp hupper
  have hnat := expSum_natCast (fun o ho => h.odds_pos ho) 1024
  rw [Nat.cast_ofNat] at hnat
  rw [← hnat]
  exact sub_nonpos.mp h1024

/-- **`power` finds its root exactly where 1024 is beyond it.** -/
theorem powerFinds_iff {ms : List UInt32} (h2 : 2 ≤ ms.length) (h4 : ms.length ≤ kMaxOutcomes)
    (hmin : ∀ m ∈ ms, 1001 ≤ m) (hmargin : 1 < booksum (ms.map decimalOdds : List ℝ)) :
    PowerFinds (ms.map decimalOdds) ↔
      ((ms.map decimalOdds : List ℝ).map fun o => (1 / o) ^ 1024).sum ≤ 1 :=
  have h := wireOdds_of_milli h2 h4 hmin hmargin
  ⟨le_of_powerFinds h, powerFinds_of_le h⟩

theorem powerFinds_iff_even : PowerFinds ([1900, 1900].map decimalOdds) ↔
    (([1900, 1900].map decimalOdds : List ℝ).map fun o => (1 / o) ^ 1024).sum ≤ 1 :=
  powerFinds_iff (by decide) (by decide) (by simp) margin_even

/-- **Two outcomes always get their answer.** -/
theorem powerFinds_two (h : WireOdds odds) (htwo : odds.length = 2) : PowerFinds odds := by
  refine powerFinds_of_le h ?_
  have hhalf : ∀ o ∈ odds, (1 / o) ^ 1024 ≤ 1 / 2 := by
    intro o ho
    have hbase : 1 + 1 / 1000 ≤ o := by linarith [h.le o ho]
    have hbernoulli := one_add_mul_le_pow (by norm_num : (-2 : ℝ) ≤ 1 / 1000) 1024
    have hpow : (1 + 1 / 1000 : ℝ) ^ 1024 ≤ o ^ 1024 := pow_le_pow_left₀ (by norm_num) hbase 1024
    have htwo : (2 : ℝ) ≤ 1 + (1024 : ℕ) * (1 / 1000) := by norm_num
    rw [one_div_pow]
    exact one_div_le_one_div_of_le two_pos (htwo.trans (hbernoulli.trans hpow))
  match odds, htwo with
  | [o1, o2], _ =>
    have h1 := hhalf o1 (by simp)
    have h2 := hhalf o2 (by simp)
    rw [List.map_cons, List.map_cons, List.map_nil, List.sum_cons, List.sum_cons, List.sum_nil,
      add_zero]
    exact (add_le_add h1 h2).trans (add_halves (1 : ℝ)).le

end Quote

/-- Four outcomes at 1.001 each: the root is at 1387. -/
theorem powerFinds_four_short : ¬ ∀ ms : List UInt32, 2 ≤ ms.length → ms.length ≤ kMaxOutcomes →
    (∀ m ∈ ms, 1001 ≤ m) → 1 < booksum (ms.map decimalOdds : List ℝ) →
    PowerFinds (ms.map decimalOdds) := by
  intro hall
  have hodds : (decimalOdds 1001 : ℝ) = 1001 / 1000 := by
    have hnat : (1001 : UInt32).toNat = 1001 := rfl
    rw [decimalOdds_eq, hnat, Nat.cast_ofNat]
  have hmargin : 1 < booksum ([1001, 1001, 1001, 1001].map decimalOdds : List ℝ) := by
    rw [booksum, sumLoop_eq_sum]
    simp only [List.map_cons, List.map_nil, List.sum_cons, List.sum_nil, hodds]
    norm_num
  have hwire := wireOdds_of_milli (by decide) (by decide) (by simp) hmargin
  have hle := le_of_powerFinds hwire
    (hall [1001, 1001, 1001, 1001] (by decide) (by decide) (by simp) hmargin)
  -- (1000/1001)^256 is above 0.74, and its fourth power above a quarter
  have hquarter : (1 : ℝ) / 4 < (1 / (1001 / 1000)) ^ 1024 := by
    have hbernoulli := one_add_mul_le_pow (by norm_num : (-2 : ℝ) ≤ -(1 / 1001)) 256
    have hpow := pow_le_pow_left₀ (by norm_num : (0 : ℝ) ≤ 0.74)
      ((by norm_num : (0.74 : ℝ) ≤ 1 + (256 : ℕ) * -(1 / 1001)).trans hbernoulli) 4
    rw [← pow_mul] at hpow
    have hbase : (1 : ℝ) / (1001 / 1000) = 1 + -(1 / 1001) := by norm_num
    rw [hbase]
    have hnum : (1 : ℝ) / 4 < 0.74 ^ 4 := by norm_num
    exact hnum.trans_le hpow
  simp only [List.map_cons, List.map_nil, List.sum_cons, List.sum_nil, hodds] at hle
  generalize ((1 : ℝ) / (1001 / 1000)) ^ 1024 = x at hquarter hle
  linarith

end Devig

end OddsEngine
