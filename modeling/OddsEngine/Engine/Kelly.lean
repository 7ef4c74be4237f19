/-
  File:      OddsEngine/Engine/Kelly.lean
  Subject:   Kelly stakes for outcomes that exclude each other (engine/Kelly.hpp).

  `allocate` orders the outcomes by expected revenue rate, takes the largest prefix that leaves a
  reserve (`pick`), stakes `p - R / o` on each of its members, scales by the Kelly fraction and
  caps the total. Read over the reals:

  * `order_perm` -- the insertion sort permutes the outcomes, so no outcome is staked twice;
  * `sum_stake` -- the stakes sum to `totalStake`;
  * `totalStake_le` -- and that is at most `maxExposure` wherever there is a bet at all.
-/
import Mathlib.Algebra.BigOperators.Fin
import Mathlib.Algebra.Order.BigOperators.Group.List
import OddsEngine.Lib.Doubles

namespace OddsEngine

open Lib

namespace Kelly

/-- `kelly::kMaxOutcomes`. -/
abbrev kMaxOutcomes : Nat := 4

structure AllocationResult (F : Type) where
  /-- After Kelly scaling and the cap; zero outside the betting set. -/
  stake : Fin kMaxOutcomes → F
  count : UInt8
  totalStake : F
  /-- The reserve rate `R` of the chosen set. -/
  reserveRate : F
  bets : Nat
  hasBet : Bool
  capped : Bool

variable {F : Type} [DoubleArith F]

/-- `AllocationResult out{}`. -/
def AllocationResult.init : AllocationResult F :=
  { stake := fun _ => 0, count := 0, totalStake := 0, reserveRate := 1, bets := 0, hasBet := false,
    capped := false }

/-! ## 1. The order -/

/-- Expected revenue rate of outcome `i`. -/
def rate (fair odds : List F) (i : Nat) : F := fair.getD i 0 * odds.getD i 0

/-- `key` moves left past the outcomes of a smaller rate. The sorted part is kept right to left,
    as the loop walks it. -/
def insert (r : Nat → F) (key : Nat) : List Nat → List Nat
  | [] => [key]
  | x :: xs => if r x < r key then x :: insert r key xs else key :: x :: xs

/-- The insertion sort of `0 .. n-1`, by rate, descending. -/
def order (r : Nat → F) (n : Nat) : List Nat :=
  ((List.range n).foldl (fun sorted key => insert r key sorted) []).reverse

/-! ## 2. The betting set -/

/-- The loop from `k` down to 1: the first prefix with a reserve whose weakest member still beats
    it, with its reserve rate. -/
def pick (fair odds : List F) (order : List Nat) : Nat → Option (Nat × F)
  | 0 => none
  | k + 1 =>
    let P := sumLoop ((order.take (k + 1)).map fun i => fair.getD i 0)
    let B := sumLoop ((order.take (k + 1)).map fun i => 1 / odds.getD i 0)
    let denom := 1 - B
    -- the set stakes too much: shrink it
    if denom ≤ 0 then pick fair odds order k
    else
      let R := (1 - P) / denom
      if R < rate fair odds (order.getD k 0) then some (k + 1, R)
      else pick fair odds order k

/-! ## 3. The stakes -/

/-- The full-Kelly stake on one outcome, floored at zero. -/
def fullStake (fair odds : List F) (R : F) (i : Nat) : F :=
  let f := fair.getD i 0 - R / odds.getD i 0
  if f < 0 then 0 else f

/-- One round of the staking loop, over the stakes and their running total. -/
def stakeStep (fair odds : List F) (R : F) (acc : (Fin kMaxOutcomes → F) × F) (i : Nat) :
    (Fin kMaxOutcomes → F) × F :=
  (fun j => if j.val = i then fullStake fair odds R i else acc.1 j,
    acc.2 + fullStake fair odds R i)

/-- `for (i = 0; i < n; ++i) stake[i] *= c`. -/
def scaleStakes (n : Nat) (c : F) (stake : Fin kMaxOutcomes → F) : Fin kMaxOutcomes → F :=
  fun i => if i.val < n then stake i * c else stake i

/-- The arguments `allocate` works on; anything else gets the empty result. -/
def validArgs (fair odds : List F) (kellyFraction maxExposure : F) : Bool :=
  if fair.length = 0 || fair.length > kMaxOutcomes || odds.length ≠ fair.length then false
  else if !decide (0 < kellyFraction) || !decide (0 < maxExposure) then false
  else (fair.zip odds).all fun po =>
    !(!Libm.isfinite po.1 || !Libm.isfinite po.2) && !(decide (po.1 < 0) || !decide (1 < po.2))

/-- The stakes on the betting set `set` with reserve rate `R`: full Kelly, the Kelly fraction of
    it, and no more than the cap. -/
def stakeSet (fair odds : List F) (kellyFraction maxExposure : F) (set : List Nat) (R : F) :
    AllocationResult F :=
  let n := fair.length
  let full := set.foldl (stakeStep fair odds R) ((fun _ => 0), 0)
  let stake := scaleStakes n kellyFraction full.1
  let total := full.2 * kellyFraction
  if maxExposure < total then
    { count := n.toUInt8
      stake := scaleStakes n (maxExposure / total) stake
      totalStake := maxExposure
      reserveRate := R
      bets := set.length
      hasBet := decide (0 < maxExposure)
      capped := true }
  else
    { count := n.toUInt8
      stake := stake
      totalStake := total
      reserveRate := R
      bets := set.length
      hasBet := decide (0 < total)
      capped := false }

def allocate (fair odds : List F) (kellyFraction maxExposure : F) : AllocationResult F :=
  if !validArgs fair odds kellyFraction maxExposure then AllocationResult.init
  else
    let n := fair.length
    let order := order (rate fair odds) n
    match pick fair odds order n with
    -- nothing has an edge: stake nothing
    | none => { AllocationResult.init with count := n.toUInt8 }
    | some (bestK, bestR) => stakeSet fair odds kellyFraction maxExposure (order.take bestK) bestR

theorem allocate_of_pick_none {fair odds : List F} {kellyFraction maxExposure : F}
    (hv : validArgs fair odds kellyFraction maxExposure = true)
    (hpick : pick fair odds (order (rate fair odds) fair.length) fair.length = none) :
    allocate fair odds kellyFraction maxExposure =
      { AllocationResult.init with count := fair.length.toUInt8 } := by
  unfold allocate
  rw [if_neg (by rw [hv]; decide)]
  dsimp only
  rw [hpick]

theorem allocate_of_pick_some {fair odds : List F} {kellyFraction maxExposure R : F} {k : Nat}
    (hv : validArgs fair odds kellyFraction maxExposure = true)
    (hpick : pick fair odds (order (rate fair odds) fair.length) fair.length = some (k, R)) :
    allocate fair odds kellyFraction maxExposure =
      stakeSet fair odds kellyFraction maxExposure
        ((order (rate fair odds) fair.length).take k) R := by
  unfold allocate
  rw [if_neg (by rw [hv]; decide)]
  dsimp only
  rw [hpick]

/-! ## 4. Over the reals -/

theorem insert_perm (r : Nat → F) (key : Nat) (sorted : List Nat) :
    (insert r key sorted).Perm (key :: sorted) := by
  fun_induction insert r key sorted with
  | case1 => exact List.Perm.refl _
  | case2 x xs _ ih => exact (ih.cons x).trans (List.Perm.swap key x xs)
  | case3 => exact List.Perm.refl _

/-- The sort permutes the outcomes. -/
theorem order_perm (r : Nat → F) (n : Nat) : (order r n).Perm (List.range n) := by
  have h : ∀ ks sorted : List Nat,
      (ks.foldl (fun sorted key => insert r key sorted) sorted).Perm (sorted ++ ks) := by
    intro ks
    induction ks with
    | nil =>
      intro sorted
      rw [List.append_nil]
      exact List.Perm.refl _
    | cons k ks ih =>
      intro sorted
      refine (ih _).trans (((insert_perm r k sorted).append_right ks).trans ?_)
      exact List.perm_middle.symm
  exact (List.reverse_perm _).trans (h _ [])

/-- The outcomes of a betting set are distinct and below the number of outcomes. -/
theorem take_order_nodup (r : Nat → ℝ) (n k : Nat) : ((order r n).take k).Nodup :=
  ((order_perm r n).nodup_iff.mpr List.nodup_range).sublist (List.take_sublist _ _)

theorem lt_of_mem_take_order {r : Nat → ℝ} {n k i : Nat} (h : i ∈ (order r n).take k) : i < n :=
  List.mem_range.mp ((order_perm r n).subset (List.mem_of_mem_take h))

theorem fullStake_nonneg (fair odds : List ℝ) (R : ℝ) (i : Nat) : 0 ≤ fullStake fair odds R i := by
  unfold fullStake
  dsimp only
  split
  · exact le_refl _
  · next h => exact not_lt.mp h

/-- What the staking loop keeps: stakes are not negative, an outcome not yet met has none, and
    the running total is their sum. -/
structure StakesInv (stake : Fin kMaxOutcomes → ℝ) (total : ℝ) (met : Nat → Prop) : Prop where
  nonneg : ∀ i, 0 ≤ stake i
  unmet : ∀ i : Fin kMaxOutcomes, ¬ met i.val → stake i = 0
  sum : ∑ i, stake i = total

theorem stakesInv_step (fair odds : List ℝ) (R : ℝ) {acc : (Fin kMaxOutcomes → ℝ) × ℝ}
    {met : Nat → Prop} (h : StakesInv acc.1 acc.2 met) {i : Nat} (hi : i < kMaxOutcomes)
    (hnew : ¬ met i) :
    StakesInv (stakeStep fair odds R acc i).1 (stakeStep fair odds R acc i).2
      (fun j => met j ∨ j = i) where
  nonneg j := by
    simp only [stakeStep]
    split
    · exact fullStake_nonneg fair odds R i
    · exact h.nonneg j
  unmet j hj := by
    rw [not_or] at hj
    exact (if_neg hj.2).trans (h.unmet j hj.1)
  sum := by
    have hz : acc.1 ⟨i, hi⟩ = 0 := h.unmet ⟨i, hi⟩ hnew
    have hupd : (stakeStep fair odds R acc i).1 =
        Function.update acc.1 ⟨i, hi⟩ (fullStake fair odds R i) := by
      funext j
      by_cases hj : j = ⟨i, hi⟩
      · subst hj
        simp [stakeStep]
      · have hv : j.val ≠ i := fun e => hj (Fin.ext e)
        rw [Function.update_of_ne hj]
        exact if_neg hv
    rw [hupd, Finset.sum_update_of_mem (Finset.mem_univ _)]
    show _ = acc.2 + fullStake fair odds R i
    have hsplit := Finset.add_sum_erase Finset.univ acc.1 (Finset.mem_univ (⟨i, hi⟩ : Fin 4))
    rw [hz, zero_add] at hsplit
    rw [Finset.sdiff_singleton_eq_erase, hsplit, h.sum, add_comm]

/-- The staking loop over distinct outcomes. -/
theorem stakesInv_foldl (fair odds : List ℝ) (R : ℝ) (is : List Nat) (hnd : is.Nodup)
    (hlt : ∀ i ∈ is, i < kMaxOutcomes) :
    let full := is.foldl (stakeStep fair odds R) ((fun _ => 0 : Fin kMaxOutcomes → ℝ), (0 : ℝ))
    StakesInv full.1 full.2 (· ∈ is) := by
  induction is using List.reverseRecOn with
  | nil => exact ⟨fun _ => le_refl _, fun _ _ => rfl, by simp⟩
  | append_singleton is i ih =>
    rw [List.nodup_append] at hnd
    have hprev := ih hnd.1 fun j hj => hlt j (List.mem_append_left _ hj)
    have hnew : i ∉ is := fun hi => hnd.2.2 i hi i (List.mem_singleton_self i) rfl
    have hstep := stakesInv_step fair odds R hprev (hlt i (by simp)) hnew
    rw [List.foldl_append]
    simpa using hstep

theorem scaleStakes_sum {n : Nat} (c : ℝ) {stake : Fin kMaxOutcomes → ℝ} {total : ℝ}
    {met : Nat → Prop} (h : StakesInv stake total met) (hmet : ∀ i, met i → i < n) (hc : 0 ≤ c) :
    StakesInv (scaleStakes n c stake) (total * c) met := by
  have heq : scaleStakes n c stake = fun i => stake i * c := by
    funext i
    unfold scaleStakes
    by_cases hi : i.val < n
    · rw [if_pos hi]
    · rw [if_neg hi, h.unmet i fun hm => hi (hmet _ hm), zero_mul]
  rw [heq]
  refine ⟨fun i => mul_nonneg (h.nonneg i) hc, fun i hi => ?_, ?_⟩
  · show stake i * c = 0
    rw [h.unmet i hi, zero_mul]
  · rw [← Finset.sum_mul, h.sum]

/-- A bet was found: the stakes are not negative, and sum to at most the cap. -/
structure StakesOk (a : AllocationResult ℝ) (maxExposure : ℝ) : Prop where
  nonneg : ∀ i, 0 ≤ a.stake i
  sum_stake : ∑ i, a.stake i = a.totalStake
  totalStake_le : a.totalStake ≤ maxExposure

theorem pos_of_validArgs {fair odds : List ℝ} {kellyFraction maxExposure : ℝ}
    (h : validArgs fair odds kellyFraction maxExposure = true) :
    fair.length ≤ kMaxOutcomes ∧ 0 < kellyFraction ∧ 0 < maxExposure := by
  unfold validArgs at h
  split at h
  · cases h
  · next hn =>
    split at h
    · cases h
    · next hk =>
      simp only [Bool.or_eq_true, decide_eq_true_eq, not_or, Bool.not_eq_true', decide_eq_false_iff_not,
        not_not] at hn hk
      exact ⟨by omega, hk.1, hk.2⟩

theorem stakesOk_stakeSet {fair odds : List ℝ} {kellyFraction maxExposure : ℝ} {set : List Nat}
    (R : ℝ) (hn : fair.length ≤ kMaxOutcomes) (hk : 0 < kellyFraction) (hm : 0 < maxExposure)
    (hnodup : set.Nodup) (hlt : ∀ i ∈ set, i < fair.length) :
    StakesOk (stakeSet fair odds kellyFraction maxExposure set R) maxExposure := by
  have hfull := stakesInv_foldl fair odds R set hnodup fun i hi => (hlt i hi).trans_le hn
  have hscaled := scaleStakes_sum kellyFraction hfull hlt hk.le
  unfold stakeSet
  dsimp only
  split
  · next hcap =>
    have htotal := hm.trans hcap
    have hcapped := scaleStakes_sum (maxExposure / _) hscaled hlt (div_nonneg hm.le htotal.le)
    exact ⟨hcapped.nonneg, hcapped.sum.trans (mul_div_cancel₀ _ htotal.ne'), le_refl _⟩
  · next hcap => exact ⟨hscaled.nonneg, hscaled.sum, not_lt.mp hcap⟩

/-- **The stakes of `allocate` are not negative and sum to at most the exposure**, wherever its
    arguments are good. -/
theorem stakesOk_allocate (fair odds : List ℝ) (kellyFraction maxExposure : ℝ)
    (hv : validArgs fair odds kellyFraction maxExposure = true) :
    StakesOk (allocate fair odds kellyFraction maxExposure) maxExposure := by
  obtain ⟨hn, hk, hm⟩ := pos_of_validArgs hv
  cases hpick : pick fair odds (order (rate fair odds) fair.length) fair.length with
  | none =>
    rw [allocate_of_pick_none hv hpick]
    exact ⟨fun _ => le_refl _, by simp [AllocationResult.init], hm.le⟩
  | some kR =>
    rw [allocate_of_pick_some hv hpick]
    exact stakesOk_stakeSet kR.2 hn hk hm (take_order_nodup _ _ _)
      fun i hi => lt_of_mem_take_order hi

/-- Arguments that `allocate` turns down get no bet. -/
theorem hasBet_of_not_validArgs {fair odds : List ℝ} {kellyFraction maxExposure : ℝ}
    (hv : validArgs fair odds kellyFraction maxExposure = false) :
    (allocate fair odds kellyFraction maxExposure).hasBet = false := by
  unfold allocate
  rw [hv]
  rfl

theorem validArgs_of_hasBet {fair odds : List ℝ} {kellyFraction maxExposure : ℝ}
    (h : (allocate fair odds kellyFraction maxExposure).hasBet = true) :
    validArgs fair odds kellyFraction maxExposure = true := by
  by_contra hv
  have hno := hasBet_of_not_validArgs (Bool.eq_false_of_not_eq_true hv)
  rw [hno] at h
  exact absurd h Bool.false_ne_true

end Kelly

end OddsEngine
