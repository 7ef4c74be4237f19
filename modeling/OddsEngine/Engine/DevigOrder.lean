/-
  File:      OddsEngine/Engine/DevigOrder.lean
  Subject:   `power` against `shin` at their exact roots, over the reals.

  On the outcome with the implied probability `q`, `power` stays at or below `shin` exactly where a
  sum of two exponentials of `log q` is at most `1 / B` (`powerAt_le_shinAt_iff`). That sum is convex,
  so those `q` form an interval; and as both answers sum to 1 they cannot all lie outside it, nor all
  inside.

  * `rootsOrdered` -- with two outcomes the longest odds get no more from `power` than from `shin`
    and the shortest no less. With more, the shortest get less only if the longest get more, and
    neither happens where the exponentials rise from the longest odds on;
  * `not_ordered` -- two favourites and a long shot break the order at either end.
-/
import OddsEngine.Lib.Powers
import OddsEngine.Engine.DevigShares

namespace OddsEngine

open Lib

namespace Devig

/-! ## 1. The exact roots -/

/-- The answer of `power` at the exponent `k`. -/
noncomputable def powerProbs (odds : List ℝ) (k : ℝ) : ProbVector ℝ :=
  fill ((odds.map fun o => Libm.log (1 / o)).map fun l => Libm.exp (k * l))

/-- The answer of `shin` at the insider fraction `z`. -/
noncomputable def shinProbs (odds : List ℝ) (z : ℝ) : ProbVector ℝ :=
  fill (shinProb (odds.map fun o => 1 / o) (booksum odds) z)

/-- `k` and `z` solve the two equations for odds with a margin. -/
structure ExactRoots (odds : List ℝ) (k z : ℝ) : Prop where
  valid : validOdds odds = true
  margin : 1 < booksum odds
  power : powerF (odds.map fun o => Libm.log (1 / o)) k = 0
  shin : shinG (odds.map fun o => 1 / o) (booksum odds) z = 0
  z_nonneg : 0 ≤ z
  z_lt : z < 1

section Vectors

variable {odds : List ℝ} {i : Fin kMaxOutcomes}

theorem powerProbs_eq_fill (odds : List ℝ) (k : ℝ) :
    powerProbs odds k = fill ((impliedProbs odds).map (powerAt k)) := by
  rw [powerProbs, powerProbs_eq]

theorem shinProbs_eq_fill (odds : List ℝ) (z : ℝ) :
    shinProbs odds z = fill ((impliedProbs odds).map (shinAt (booksum odds) z)) := rfl

theorem powerProbs_apply (k : ℝ) (hi : i.val < odds.length) :
    powerProbs odds k i = powerAt k (impliedAt odds i) := by
  rw [powerProbs_eq_fill]
  exact fill_map_implied _ hi

theorem shinProbs_apply (z : ℝ) (hi : i.val < odds.length) :
    shinProbs odds z i = shinAt (booksum odds) z (impliedAt odds i) :=
  fill_map_implied _ hi

theorem powerF_eq_powerAt (odds : List ℝ) (k : ℝ) :
    powerF (odds.map fun o => Libm.log (1 / o)) k = ((impliedProbs odds).map (powerAt k)).sum - 1 := by
  rw [powerF_eq, ← powerProbs_eq]
  rfl

theorem sum_fill_map (hv : validOdds odds = true) (f : ℝ → ℝ) :
    ∑ j ∈ outcomes odds.length, fill ((impliedProbs odds).map f) j =
      ((impliedProbs odds).map f).sum := by
  have hlen : ((impliedProbs odds).map f).length = odds.length := by
    rw [List.length_map, length_impliedProbs]
  rw [sum_outcomes, ← sum_fill (by rw [hlen]; exact length_le hv), hlen]

end Vectors

section Roots

variable {odds : List ℝ} {k z : ℝ} (h : ExactRoots odds k z)

include h

theorem ExactRoots.booksum_pos : 0 < booksum odds := one_pos.trans h.margin

theorem ExactRoots.sum_power : ∑ j ∈ outcomes odds.length, powerProbs odds k j = 1 := by
  have hroot := h.power
  rw [powerF_eq_powerAt, sub_eq_zero] at hroot
  rw [powerProbs_eq_fill, sum_fill_map h.valid]
  exact hroot

theorem ExactRoots.sum_shin : ∑ j ∈ outcomes odds.length, shinProbs odds z j = 1 := by
  have hroot := h.shin
  rw [shinG_eq, sub_eq_zero] at hroot
  rw [shinProbs_eq_fill, sum_fill_map h.valid]
  exact hroot

/-- The exponent is above 1, where the sum is the booksum. -/
theorem ExactRoots.one_lt : 1 < k := by
  have hanti := strictAnti_powerF h.valid
  have hmargin := h.margin
  rw [← hanti.lt_iff_gt, h.power, powerF_one h.valid]
  exact sub_pos.mpr hmargin

/-- Both stand on the favourite-longshot side of `multiplicative`. -/
theorem ExactRoots.both_keepsShares :
    KeepsShares odds (powerProbs odds k) ∧ KeepsShares odds (shinProbs odds z) := by
  rw [powerProbs_eq_fill, shinProbs_eq_fill]
  exact ⟨keepsShares_of h.valid h.margin (fun q _ => powerAt_pos k q)
      fun q hq r _ hle => powerAt_share h.one_lt.le (impliedProbs_pos h.valid hq) hle,
    keepsShares_of h.valid h.margin
      (fun q hq => shinAt_pos h.booksum_pos h.z_nonneg h.z_lt (impliedProbs_pos h.valid hq))
      fun q hq r _ hle =>
        shinAt_share h.booksum_pos h.z_nonneg h.z_lt (impliedProbs_pos h.valid hq) hle⟩

/-- One outcome at least gets no more from `power`. -/
theorem ExactRoots.exists_le :
    ∃ j ∈ outcomes odds.length, powerProbs odds k j ≤ shinProbs odds z j := by
  refine Finset.exists_le_of_sum_le ?_ (h.sum_power.trans h.sum_shin.symm).le
  have hlen := List.length_pos_iff.mpr ((validOdds_iff odds).mp h.valid).1
  exact ⟨0, mem_outcomes.mpr hlen⟩

/-- If none gets more from `power`, none gets less. -/
theorem ExactRoots.le_of_forall_le
    (hall : ∀ j ∈ outcomes odds.length, powerProbs odds k j ≤ shinProbs odds z j)
    {i : Fin kMaxOutcomes} (hi : i.val < odds.length) : shinProbs odds z i ≤ powerProbs odds k i := by
  by_contra hlt
  have hsum := Finset.sum_lt_sum hall ⟨i, mem_outcomes.mpr hi, not_le.mp hlt⟩
  rw [h.sum_power, h.sum_shin] at hsum
  exact lt_irrefl _ hsum

end Roots

/-! ## 2. One outcome -/

section Outcome

variable {B k z q r : ℝ}

theorem powerAt_mono (hk : 0 ≤ k) (hq : 0 < q) (hle : q ≤ r) : powerAt k q ≤ powerAt k r :=
  Real.exp_le_exp.mpr (mul_le_mul_of_nonneg_left (Real.log_le_log hq hle) hk)

/-- Shin's equation at a value on either side of its root. -/
theorem le_shinAt_iff {p : ℝ} (hB : 0 < B) (hz : 0 ≤ z) (hz1 : z < 1) (hq : 0 < q) (hp : 0 ≤ p) :
    p ≤ shinAt B z q ↔ (1 - z) * p ^ 2 + z * p ≤ q ^ 2 / B := by
  have hs := shinAt_pos hB hz hz1 hq
  have hquad := shinAt_quad hB hz1 q
  have hpos : 0 < 1 - z := sub_pos.mpr hz1
  constructor
  · intro hle
    have hsq := mul_le_mul_of_nonneg_left (pow_le_pow_left₀ hp hle 2) hpos.le
    have hlin := mul_le_mul_of_nonneg_left hle hz
    linarith
  · intro hle
    by_contra hgt
    have hlt := not_le.mp hgt
    have hsq := mul_lt_mul_of_pos_left (pow_lt_pow_left₀ hlt hs.le two_ne_zero) hpos
    have hlin := mul_le_mul_of_nonneg_left hlt.le hz
    linarith

theorem shinAt_eq {p : ℝ} (hB : 0 < B) (hz : 0 ≤ z) (hz1 : z < 1) (hq : 0 < q) (hp : 0 < p)
    (hquad : (1 - z) * p ^ 2 + z * p = q ^ 2 / B) : shinAt B z q = p := by
  have hs := shinAt_pos hB hz hz1 hq
  have hzero : (shinAt B z q - p) * ((1 - z) * (shinAt B z q + p) + z) = 0 := by
    linear_combination shinAt_quad hB hz1 q - hquad
  have hfactor : 0 < (1 - z) * (shinAt B z q + p) + z :=
    add_pos_of_pos_of_nonneg (mul_pos (sub_pos.mpr hz1) (add_pos hs hp)) hz
  exact sub_eq_zero.mp ((mul_eq_zero.mp hzero).resolve_right hfactor.ne')

/-- **Where `power` stays at or below `shin`.** -/
theorem powerAt_le_shinAt_iff (hB : 0 < B) (hz : 0 ≤ z) (hz1 : z < 1) (hq : 0 < q) :
    powerAt k q ≤ shinAt B z q ↔ expPair (1 - z) (2 * k - 2) z (k - 2) (Real.log q) ≤ 1 / B := by
  have hsq : 0 < q ^ 2 := by positivity
  -- both sides of Shin's equation, divided by q²
  have hsquare : q ^ 2 = Real.exp (2 * Real.log q) := by
    rw [two_mul, Real.exp_add, Real.exp_log hq, sq]
  have hfactor : (1 - z) * powerAt k q ^ 2 + z * powerAt k q =
      q ^ 2 * expPair (1 - z) (2 * k - 2) z (k - 2) (Real.log q) := by
    have hdouble : powerAt k q ^ 2 =
        Real.exp (2 * Real.log q) * Real.exp ((2 * k - 2) * Real.log q) := by
      rw [powerAt, sq, ← Real.exp_add, ← Real.exp_add]
      congr 1
      ring
    have hsingle : powerAt k q = Real.exp (2 * Real.log q) * Real.exp ((k - 2) * Real.log q) := by
      rw [powerAt, ← Real.exp_add]
      congr 1
      ring
    rw [hdouble, hsquare, expPair]
    linear_combination z * hsingle
  rw [le_shinAt_iff hB hz hz1 hq (powerAt_pos k q).le, hfactor, div_eq_mul_one_div,
    mul_le_mul_iff_of_pos_left hsq]

/-- Between two such outcomes there are only such. -/
theorem powerAt_le_shinAt_of_between {t : ℝ} (hB : 0 < B) (hz : 0 ≤ z) (hz1 : z < 1) (hq : 0 < q)
    (hqt : q ≤ t) (htr : t ≤ r) (hlow : powerAt k q ≤ shinAt B z q)
    (hhigh : powerAt k r ≤ shinAt B z r) : powerAt k t ≤ shinAt B z t := by
  have ht : 0 < t := hq.trans_le hqt
  rw [powerAt_le_shinAt_iff hB hz hz1 hq] at hlow
  rw [powerAt_le_shinAt_iff hB hz hz1 (ht.trans_le htr)] at hhigh
  rw [powerAt_le_shinAt_iff hB hz hz1 ht]
  exact expPair_le_of_between (sub_pos.mpr hz1).le hz hlow hhigh (Real.log_le_log hq hqt)
    (Real.log_le_log ht htr)

/-- Above an outcome where the exponentials rise there is no such one, unless it is one itself. -/
theorem powerAt_le_shinAt_of_steep (hB : 0 < B) (hz : 0 ≤ z) (hz1 : z < 1) (hq : 0 < q)
    (hsteep : z * (2 - k) ≤ 2 * (1 - z) * (k - 1) * powerAt k q) (hqr : q ≤ r)
    (hle : powerAt k r ≤ shinAt B z r) : powerAt k q ≤ shinAt B z q := by
  rw [powerAt_le_shinAt_iff hB hz hz1 (hq.trans_le hqr)] at hle
  rw [powerAt_le_shinAt_iff hB hz hz1 hq]
  refine (expPair_le_of_slope (sub_pos.mpr hz1).le hz ?_ (Real.log_le_log hq hqr)).trans hle
  have hsplit : Real.exp ((2 * k - 2) * Real.log q) =
      powerAt k q * Real.exp ((k - 2) * Real.log q) := by
    rw [powerAt, ← Real.exp_add]
    congr 1
    ring
  rw [hsplit]
  have hmul := mul_le_mul_of_nonneg_right hsteep (Real.exp_pos ((k - 2) * Real.log q)).le
  linarith

/-- Two outcomes: `shin` keeps their distance, and `power` moves them no closer together. -/
theorem powerAt_le_shinAt_two (hB : 0 < B) (hz1 : z < 1) (hk : 1 ≤ k) (hq : 0 < q) (hqr : q ≤ r)
    (hsum : q + r = B) (hpower : powerAt k q + powerAt k r = 1)
    (hshin : shinAt B z q + shinAt B z r = 1) : powerAt k q ≤ shinAt B z q := by
  have hroot : ∀ t : ℝ, 0 < t → powerAt k t ^ k⁻¹ = t := fun t ht => by
    rw [powerAt_eq_rpow k ht, Real.rpow_rpow_inv ht.le (by linarith)]
  have hcloser := rpow_sub_rpow_le (powerAt_pos k q) (powerAt_mono (by linarith) hq hqr) hpower
    (inv_le_one_of_one_le₀ hk)
  rw [hroot q hq, hroot r (hq.trans_le hqr)] at hcloser
  have hdistance := shinAt_sub_two hB hz1 hsum
  rw [hshin, sub_self, mul_zero, add_zero, mul_one] at hdistance
  linarith

end Outcome

/-! ## 3. The order -/

/-- The longest odds get no more from `power` than from `shin`. -/
def LongestOrdered (odds : List ℝ) (k z : ℝ) : Prop :=
  ∀ i : Fin kMaxOutcomes, i.val < odds.length →
    (∀ j : Fin kMaxOutcomes, j.val < odds.length → impliedAt odds i ≤ impliedAt odds j) →
    powerProbs odds k i ≤ shinProbs odds z i

/-- The shortest no less. -/
def ShortestOrdered (odds : List ℝ) (k z : ℝ) : Prop :=
  ∀ i : Fin kMaxOutcomes, i.val < odds.length →
    (∀ j : Fin kMaxOutcomes, j.val < odds.length → impliedAt odds j ≤ impliedAt odds i) →
    shinProbs odds z i ≤ powerProbs odds k i

attribute [local instance] two_atLeastTwo in
/-- The exponentials rise from the longest odds on. -/
def Steep (odds : List ℝ) (k z : ℝ) : Prop :=
  ∀ i : Fin kMaxOutcomes, i.val < odds.length →
    (∀ j : Fin kMaxOutcomes, j.val < odds.length → impliedAt odds i ≤ impliedAt odds j) →
    z * (2 - k) ≤ 2 * (1 - z) * (k - 1) * powerProbs odds k i

/-- What holds of the two answers at the exact roots. -/
structure RootsOrdered (odds : List ℝ) (k z : ℝ) : Prop where
  powerShares : KeepsShares odds (powerProbs odds k)
  shinShares : KeepsShares odds (shinProbs odds z)
  two : odds.length = 2 → LongestOrdered odds k z ∧ ShortestOrdered odds k z
  shortest : LongestOrdered odds k z → ShortestOrdered odds k z
  steep : Steep odds k z → LongestOrdered odds k z ∧ ShortestOrdered odds k z
  square : 2 ≤ k → LongestOrdered odds k z ∧ ShortestOrdered odds k z

section Order

variable {odds : List ℝ} {k z : ℝ} (h : ExactRoots odds k z)

include h

theorem ExactRoots.exists_longest : ∃ i : Fin kMaxOutcomes, i.val < odds.length ∧
    ∀ j : Fin kMaxOutcomes, j.val < odds.length → impliedAt odds i ≤ impliedAt odds j := by
  obtain ⟨j, hj, _⟩ := h.exists_le
  obtain ⟨i, hi, hleast⟩ := (outcomes odds.length).exists_min_image (impliedAt odds) ⟨j, hj⟩
  exact ⟨i, mem_outcomes.mp hi, fun j hj => hleast j (mem_outcomes.mpr hj)⟩

/-- **The shortest odds get less from `power` only if the longest get more.** -/
theorem ExactRoots.shortest_of_longest (hlong : LongestOrdered odds k z) :
    ShortestOrdered odds k z := by
  intro i hi hgreatest
  obtain ⟨l, hl, hleast⟩ := h.exists_longest
  have hlow := hlong l hl hleast
  rw [powerProbs_apply k hl, shinProbs_apply z hl] at hlow
  by_contra hlt
  have hhigh := (not_le.mp hlt).le
  rw [powerProbs_apply k hi, shinProbs_apply z hi] at hhigh
  refine hlt (h.le_of_forall_le (fun j hj => ?_) hi)
  have hj' := mem_outcomes.mp hj
  rw [powerProbs_apply k hj', shinProbs_apply z hj']
  exact powerAt_le_shinAt_of_between h.booksum_pos h.z_nonneg h.z_lt (impliedAt_pos h.valid hl)
    (hleast j hj') (hgreatest j hj') hlow hhigh

theorem ExactRoots.longest_of_steep (hsteep : Steep odds k z) : LongestOrdered odds k z := by
  intro i hi hleast
  obtain ⟨j, hj, hle⟩ := h.exists_le
  have hj' := mem_outcomes.mp hj
  have hsteep' := hsteep i hi hleast
  rw [powerProbs_apply k hj', shinProbs_apply z hj'] at hle
  rw [powerProbs_apply k hi] at hsteep'
  rw [powerProbs_apply k hi, shinProbs_apply z hi]
  exact powerAt_le_shinAt_of_steep h.booksum_pos h.z_nonneg h.z_lt (impliedAt_pos h.valid hi)
    hsteep' (hleast j hj') hle

theorem ExactRoots.longest_of_two (htwo : odds.length = 2) : LongestOrdered odds k z := by
  have hset : outcomes 2 = {0, 1} := by decide
  have hpair : ∀ p : ProbVector ℝ, ∑ j ∈ outcomes odds.length, p j = p 0 + p 1 := fun p => by
    rw [htwo, hset, Finset.sum_pair (by decide)]
  have hpower := h.sum_power
  have hshin := h.sum_shin
  have hbook := sum_impliedAt h.valid
  have h0 : (0 : Fin kMaxOutcomes).val < odds.length := by rw [htwo]; decide
  have h1 : (1 : Fin kMaxOutcomes).val < odds.length := by rw [htwo]; decide
  rw [hpair, powerProbs_apply k h0, powerProbs_apply k h1] at hpower
  rw [hpair, shinProbs_apply z h0, shinProbs_apply z h1] at hshin
  rw [hpair] at hbook
  intro i hi hleast
  rw [powerProbs_apply k hi, shinProbs_apply z hi]
  have hi2 : i.val = 0 ∨ i.val = 1 := by omega
  rcases hi2 with hi0 | hi1
  · obtain rfl : i = 0 := Fin.ext hi0
    exact powerAt_le_shinAt_two h.booksum_pos h.z_lt h.one_lt.le (impliedAt_pos h.valid h0)
      (hleast 1 h1) hbook hpower hshin
  · obtain rfl : i = 1 := Fin.ext hi1
    rw [add_comm] at hbook hpower hshin
    exact powerAt_le_shinAt_two h.booksum_pos h.z_lt h.one_lt.le (impliedAt_pos h.valid h1)
      (hleast 0 h0) hbook hpower hshin

theorem ExactRoots.steep_of_two_le (hk : 2 ≤ k) : Steep odds k z := by
  intro i hi _
  have hpos := powerAt_pos k (impliedAt odds i)
  have hz := h.z_nonneg
  have hz1 := h.z_lt
  rw [powerProbs_apply k hi]
  calc z * (2 - k) ≤ 0 := mul_nonpos_of_nonneg_of_nonpos hz (by linarith)
    _ ≤ 2 * (1 - z) * (k - 1) * powerAt k (impliedAt odds i) :=
      mul_nonneg (mul_nonneg (by linarith) (by linarith)) hpos.le

end Order

/-- **`power` against `shin`, at any exact roots.** -/
theorem rootsOrdered {odds : List ℝ} {k z : ℝ} (h : ExactRoots odds k z) : RootsOrdered odds k z :=
  have hboth : LongestOrdered odds k z → LongestOrdered odds k z ∧ ShortestOrdered odds k z :=
    fun hlong => ⟨hlong, h.shortest_of_longest hlong⟩
  { powerShares := h.both_keepsShares.1
    shinShares := h.both_keepsShares.2
    two := fun htwo => hboth (h.longest_of_two htwo)
    shortest := h.shortest_of_longest
    steep := fun hsteep => hboth (h.longest_of_steep hsteep)
    square := fun hk => hboth (h.longest_of_steep (h.steep_of_two_le hk)) }

/-- 5/3 against 5/4: the implied probabilities 3/5 and 4/5 have the squares 9/25 and 16/25, and
    `shin` answers 2/5 and 3/5. -/
theorem exactRoots_pair : ExactRoots [5 / 3, 5 / 4] 2 (17 / 42) := by
  have hbook : booksum [(5 : ℝ) / 3, 5 / 4] = 7 / 5 := by
    rw [booksum_eq]
    norm_num [impliedProbs]
  have hwire : WireOdds [(5 : ℝ) / 3, 5 / 4] :=
    { two_le := le_rfl
      length_le := Nat.le_add_right 2 2
      le := by norm_num
      margin := by rw [hbook]; norm_num }
  have hpower : ∀ q : ℝ, 0 < q → powerAt 2 q = q ^ 2 := fun q hq => by
    rw [powerAt, two_mul, Real.exp_add, Real.exp_log hq, sq]
  have hlong : shinAt (7 / 5) (17 / 42) (3 / 5) = 2 / 5 :=
    shinAt_eq (by norm_num) (by norm_num) (by norm_num) (by norm_num) (by norm_num) (by norm_num)
  have hshort : shinAt (7 / 5) (17 / 42) (4 / 5) = 3 / 5 :=
    shinAt_eq (by norm_num) (by norm_num) (by norm_num) (by norm_num) (by norm_num) (by norm_num)
  exact {
    valid := hwire.valid
    margin := hwire.margin
    power := by
      rw [powerF_eq_powerAt]
      norm_num [impliedProbs, hpower]
    shin := by
      have hg := shinG_eq (impliedProbs [(5 : ℝ) / 3, 5 / 4]) (7 / 5) (17 / 42)
      norm_num [impliedProbs, hlong, hshort] at hg
      rw [hbook]
      norm_num [hg]
    z_nonneg := by norm_num
    z_lt := by norm_num }

theorem rootsOrdered_pair : RootsOrdered [5 / 3, 5 / 4] 2 (17 / 42) := rootsOrdered exactRoots_pair

/-! ## 4. Every wire quote has its roots -/

section Existence

variable {odds : List ℝ}

theorem exists_powerRoot (h : WireOdds odds) :
    ∃ k, powerF (odds.map fun o => Libm.log (1 / o)) k = 0 := by
  have hcont := continuous_powerF odds
  have hpos := h.powerF_one_pos
  -- no logarithm is above -1/1001
  have hterm : ∀ y ∈ (logProbs odds).map fun l => Real.exp (4004 * l), y ≤ 1 / 5 := by
    intro y hy
    obtain ⟨l, hl, rfl⟩ := List.mem_map.mp hy
    have hle := h.log_le hl
    have hfive := Real.add_one_le_exp (4 : ℝ)
    calc Real.exp (4004 * l) ≤ Real.exp (-4) := Real.exp_le_exp.mpr (by linarith)
      _ = 1 / Real.exp 4 := by rw [Real.exp_neg, one_div]
      _ ≤ 1 / 5 := one_div_le_one_div_of_le (by norm_num) (by linarith)
  have hsum := List.sum_le_card_nsmul _ _ hterm
  have hlen : ((logProbs odds).length : ℝ) ≤ 4 := by
    rw [length_logProbs]
    exact_mod_cast h.length_le
  rw [List.length_map, nsmul_eq_mul] at hsum
  have hneg : expSum (logProbs odds) 4004 - 1 ≤ 0 := by
    unfold expSum
    linarith
  rw [powerF_eq_expSum] at hcont hpos ⊢
  obtain ⟨k, _, hk⟩ := intermediate_value_Icc' (by norm_num : (1 : ℝ) ≤ 4004) hcont.continuousOn
    ⟨hneg, hpos.le⟩
  exact ⟨k, hk⟩

theorem exists_shinRoot (h : WireOdds odds) :
    ∃ z, 0 ≤ z ∧ z < 1 ∧ shinG (impliedProbs odds) (booksum odds) z = 0 := by
  have hterm : ∀ q : ℝ, ContinuousOn (fun z => shinAt (booksum odds) z q)
      (Set.Icc 0 (1 - 1e-9)) := by
    intro q
    unfold shinAt
    refine ContinuousOn.div (by fun_prop) (by fun_prop) fun z hz => ?_
    have hlt : z < 1 := hz.2.trans_lt (by norm_num)
    exact (mul_pos two_pos (sub_pos.mpr hlt)).ne'
  have hcont : ContinuousOn (shinG (impliedProbs odds) (booksum odds)) (Set.Icc 0 (1 - 1e-9)) := by
    have hsum := (continuousOn_list_sum (impliedProbs odds) fun q _ => hterm q).sub
      (continuousOn_const (c := (1 : ℝ)))
    exact hsum.congr fun z _ => shinG_eq _ _ z
  obtain ⟨z, hz, hroot⟩ := intermediate_value_Icc' (by norm_num : (0 : ℝ) ≤ 1 - 1e-9) hcont
    ⟨shinG_hi_nonpos h, (shinG_zero_pos h).le⟩
  exact ⟨z, hz.1, hz.2.trans_lt (by norm_num), hroot⟩

theorem exists_exactRoots (h : WireOdds odds) : ∃ k z, ExactRoots odds k z := by
  obtain ⟨k, hk⟩ := exists_powerRoot h
  obtain ⟨z, hz, hz1, hroot⟩ := exists_shinRoot h
  exact ⟨k, z, ⟨h.valid, h.margin, hk, hroot, hz, hz1⟩⟩

end Existence

/-! ## 5. Two favourites and a long shot -/

attribute [local instance] four_atLeastTwo in
/-- The implied probabilities are the squares of 1/9, 6/9 and 8/9, whose cubes sum to 1. -/
noncomputable def closeFavourites : List ℝ := [81, 9 / 4, 81 / 64]

theorem implied_closeFavourites : impliedProbs closeFavourites = [1 / 81, 4 / 9, 64 / 81] := by
  norm_num [impliedProbs, closeFavourites]

theorem booksum_closeFavourites : booksum closeFavourites = 101 / 81 := by
  rw [booksum_eq, implied_closeFavourites]
  norm_num

theorem wireOdds_closeFavourites : WireOdds closeFavourites where
  two_le := Nat.le_add_right 2 1
  length_le := Nat.le_add_right 3 1
  le := by norm_num [closeFavourites]
  margin := by rw [booksum_closeFavourites]; norm_num

theorem powerAt_sq {a : ℝ} (ha : 0 < a) : powerAt (3 / 2) (a ^ 2) = a ^ 3 := by
  have hexp : (3 : ℝ) / 2 * (((2 : ℕ) : ℝ) * Real.log a) = ((3 : ℕ) : ℝ) * Real.log a := by
    norm_num
    ring
  rw [powerAt, Real.log_pow, hexp, Real.exp_nat_mul, Real.exp_log ha]

theorem powerAt_closeFavourites : powerAt (3 / 2) (1 / 81) = 1 / 729 ∧
    powerAt (3 / 2) (4 / 9) = 216 / 729 ∧ powerAt (3 / 2) (64 / 81) = 512 / 729 := by
  have h1 := powerAt_sq (by norm_num : (0 : ℝ) < 1 / 9)
  have h6 := powerAt_sq (by norm_num : (0 : ℝ) < 6 / 9)
  have h8 := powerAt_sq (by norm_num : (0 : ℝ) < 8 / 9)
  norm_num at h1 h6 h8 ⊢
  exact ⟨h1, h6, h8⟩

/-- An insider fraction that leaves the long shot 1/729 leaves all three together more than 1. -/
theorem shinAt_closeFavourites {z : ℝ} (hz : 0 ≤ z) (hz1 : z < 1)
    (hlong : 1 / 729 ≤ shinAt (101 / 81) z (1 / 81)) :
    1 < shinAt (101 / 81) z (1 / 81) + shinAt (101 / 81) z (4 / 9) +
      shinAt (101 / 81) z (64 / 81) := by
  have hB : (0 : ℝ) < 101 / 81 := by norm_num
  have hsmall : z ≤ 0.09 := by
    rw [le_shinAt_iff hB hz hz1 (by norm_num) (by norm_num)] at hlong
    norm_num at hlong ⊢
    linarith
  have hmiddle : 0.36 ≤ shinAt (101 / 81) z (4 / 9) := by
    rw [le_shinAt_iff hB hz hz1 (by norm_num) (by norm_num)]
    norm_num at hsmall ⊢
    linarith
  have hshort : 0.68 ≤ shinAt (101 / 81) z (64 / 81) := by
    rw [le_shinAt_iff hB hz hz1 (by norm_num) (by norm_num)]
    norm_num at hsmall ⊢
    linarith
  norm_num at hmiddle hshort
  linarith

/-- The longest odds get more from `power`. -/
theorem not_longestOrdered : ∃ k z, ExactRoots closeFavourites k z ∧
    ¬ LongestOrdered closeFavourites k z := by
  have hwire := wireOdds_closeFavourites
  obtain ⟨hlong, hmiddle, hshort⟩ := powerAt_closeFavourites
  obtain ⟨z, hz, hz1, hroot⟩ := exists_shinRoot hwire
  have hpower : powerF (closeFavourites.map fun o => Libm.log (1 / o)) (3 / 2) = 0 := by
    rw [powerF_eq_powerAt, implied_closeFavourites]
    norm_num [hlong, hmiddle, hshort]
  refine ⟨3 / 2, z, ⟨hwire.valid, hwire.margin, hpower, hroot, hz, hz1⟩, fun hordered => ?_⟩
  have hfirst : impliedAt closeFavourites 0 = 1 / 81 := by
    rw [impliedAt, implied_closeFavourites]
    rfl
  have hlen : (0 : Fin kMaxOutcomes).val < closeFavourites.length := Nat.succ_pos 2
  have hle := hordered 0 hlen fun j hj => by
    have hmem := impliedAt_mem hj
    rw [implied_closeFavourites] at hmem
    rw [hfirst]
    simp only [List.mem_cons, List.not_mem_nil, or_false] at hmem
    rcases hmem with h | h | h <;> rw [h] <;> norm_num
  rw [powerProbs_apply _ hlen, shinProbs_apply _ hlen, hfirst, hlong, booksum_closeFavourites] at hle
  have hsum := shinAt_closeFavourites hz hz1 hle
  rw [shinG_eq, implied_closeFavourites, booksum_closeFavourites] at hroot
  simp only [List.map_cons, List.map_nil, List.sum_cons, List.sum_nil] at hroot
  linarith

/-- Two favourites at one price, and the long shot again. -/
noncomputable def evenFavourites : List ℝ := [81, 13 / 8, 13 / 8]

theorem implied_evenFavourites : impliedProbs evenFavourites = [1 / 81, 8 / 13, 8 / 13] := by
  norm_num [impliedProbs, evenFavourites]

theorem booksum_evenFavourites : booksum evenFavourites = 1309 / 1053 := by
  rw [booksum_eq, implied_evenFavourites]
  norm_num

theorem wireOdds_evenFavourites : WireOdds evenFavourites where
  two_le := Nat.le_add_right 2 1
  length_le := Nat.le_add_right 3 1
  le := by norm_num [evenFavourites]
  margin := by rw [booksum_evenFavourites]; norm_num

/-- The exponent is below 3/2, so `power` leaves the long shot 1/729 at least. -/
theorem powerAt_evenFavourites {k : ℝ}
    (hk : powerF (evenFavourites.map fun o => Libm.log (1 / o)) k = 0) :
    1 / 729 ≤ powerAt k (1 / 81) := by
  have hlong := powerAt_closeFavourites.1
  -- 8/13 is under the square of 157/200
  have hfavourite : powerAt (3 / 2) (8 / 13) ≤ (157 / 200) ^ 3 := by
    rw [← powerAt_sq (by norm_num : (0 : ℝ) < 157 / 200)]
    exact powerAt_mono (by norm_num) (by norm_num) (by norm_num)
  have hbelow : powerF (evenFavourites.map fun o => Libm.log (1 / o)) (3 / 2) < 0 := by
    rw [powerF_eq_powerAt, implied_evenFavourites]
    simp only [List.map_cons, List.map_nil, List.sum_cons, List.sum_nil, hlong]
    norm_num at hfavourite ⊢
    linarith
  have hlt : k < 3 / 2 := by
    rw [← (strictAnti_powerF wireOdds_evenFavourites.valid).lt_iff_gt, hk]
    exact hbelow
  have hlog : Real.log (1 / 81) ≤ 0 := Real.log_nonpos (by norm_num) (by norm_num)
  rw [← hlong]
  exact Real.exp_le_exp.mpr (mul_le_mul_of_nonpos_right hlt.le hlog)

/-- An insider fraction that leaves the long shot as much leaves each favourite more than half. -/
theorem shinAt_evenFavourites {z : ℝ} (hz : 0 ≤ z) (hz1 : z < 1)
    (hlong : 1 / 729 ≤ shinAt (1309 / 1053) z (1 / 81)) :
    0.52 ≤ shinAt (1309 / 1053) z (8 / 13) := by
  have hB : (0 : ℝ) < 1309 / 1053 := by norm_num
  have hsmall : z ≤ 0.09 := by
    rw [le_shinAt_iff hB hz hz1 (by norm_num) (by norm_num)] at hlong
    norm_num at hlong ⊢
    linarith
  rw [le_shinAt_iff hB hz hz1 (by norm_num) (by norm_num)]
  norm_num at hsmall ⊢
  linarith

/-- The shortest odds get less from `power`: as much as the long shot gets more. -/
theorem not_shortestOrdered : ∃ k z, ExactRoots evenFavourites k z ∧
    ¬ ShortestOrdered evenFavourites k z := by
  obtain ⟨k, z, hroots⟩ := exists_exactRoots wireOdds_evenFavourites
  refine ⟨k, z, hroots, fun hordered => ?_⟩
  have hsecond : impliedAt evenFavourites 1 = 8 / 13 := by
    rw [impliedAt, implied_evenFavourites]
    rfl
  have hlen : (1 : Fin kMaxOutcomes).val < evenFavourites.length := Nat.succ_lt_succ (Nat.succ_pos 1)
  have hle := hordered 1 hlen fun j hj => by
    have hmem := impliedAt_mem hj
    rw [implied_evenFavourites] at hmem
    rw [hsecond]
    simp only [List.mem_cons, List.not_mem_nil, or_false] at hmem
    rcases hmem with h | h | h
    · rw [h]
      norm_num
    · exact h.le
    · exact h.le
  rw [powerProbs_apply _ hlen, shinProbs_apply _ hlen, hsecond, booksum_evenFavourites] at hle
  -- both answers sum to 1
  have hpower := hroots.power
  have hshin := hroots.shin
  rw [powerF_eq_powerAt, implied_evenFavourites] at hpower
  rw [shinG_eq] at hshin
  change ((impliedProbs evenFavourites).map (shinAt (booksum evenFavourites) z)).sum - 1 = 0 at hshin
  rw [implied_evenFavourites, booksum_evenFavourites] at hshin
  simp only [List.map_cons, List.map_nil, List.sum_cons, List.sum_nil] at hpower hshin
  have hlong := powerAt_evenFavourites hroots.power
  have hhalf := shinAt_evenFavourites hroots.z_nonneg hroots.z_lt (by linarith)
  have hshot := shinAt_pos (by norm_num : (0 : ℝ) < 1309 / 1053) hroots.z_nonneg hroots.z_lt
    (by norm_num : (0 : ℝ) < 1 / 81)
  norm_num at hhalf hshin hshot
  linarith

/-- Neither half of the order holds of all odds. -/
theorem not_ordered :
    (¬ ∀ (odds : List ℝ) (k z : ℝ), ExactRoots odds k z → LongestOrdered odds k z) ∧
      ¬ ∀ (odds : List ℝ) (k z : ℝ), ExactRoots odds k z → ShortestOrdered odds k z := by
  constructor
  · intro hall
    obtain ⟨k, z, hroots, hnot⟩ := not_longestOrdered
    exact hnot (hall closeFavourites k z hroots)
  · intro hall
    obtain ⟨k, z, hroots, hnot⟩ := not_shortestOrdered
    exact hnot (hall evenFavourites k z hroots)

end Devig

end OddsEngine
