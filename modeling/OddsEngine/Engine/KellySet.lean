/-
  File:      OddsEngine/Engine/KellySet.lean
  Subject:   The betting set `allocate` chooses, and its stakes, over the reals (engine/Kelly.hpp).

  The sort leaves the rates in descending order (`order_sorted`). A prefix can be bet on with the
  reserve rate `R` if it is a `Betting` set: it leaves a reserve, `R` balances, every member beats
  `R`. The scan finds the longest such prefix (`chosen_spec`); the empty one, with `R = 1`, is where
  nothing has an edge, so one description covers every answer of `allocate` (`staked_allocate`).

  * `allocationOk_allocate` -- what its comments promise of a result, for any probabilities.
-/
import Mathlib.Algebra.BigOperators.Intervals
import Mathlib.Tactic.FieldSimp
import Mathlib.Tactic.Linarith
import OddsEngine.Engine.Kelly

namespace OddsEngine

open Lib

namespace Kelly

/-! ## 1. The order -/

/-- A key is put where the rates, right to left, stay ascending. -/
theorem insert_sorted {r : Nat → ℝ} {key : Nat} {sorted : List Nat}
    (h : sorted.Pairwise fun a b => r a ≤ r b) :
    (insert r key sorted).Pairwise fun a b => r a ≤ r b := by
  fun_induction insert r key sorted with
  | case1 => exact List.pairwise_singleton _ _
  | case2 x xs hlt ih =>
    obtain ⟨hx, hxs⟩ := List.pairwise_cons.mp h
    refine List.pairwise_cons.mpr ⟨fun b hb => ?_, ih hxs⟩
    rcases List.mem_cons.mp ((insert_perm r key xs).subset hb) with rfl | hb
    · exact hlt.le
    · exact hx b hb
  | case3 x xs hle =>
    refine List.pairwise_cons.mpr ⟨fun b hb => ?_, h⟩
    rcases List.mem_cons.mp hb with rfl | hb
    · exact not_lt.mp hle
    · exact (not_lt.mp hle).trans ((List.pairwise_cons.mp h).1 b hb)

/-- **The order is by rate, descending.** -/
theorem order_sorted (r : Nat → ℝ) (n : Nat) : (order r n).Pairwise fun a b => r b ≤ r a := by
  have h : ∀ ks sorted : List Nat, (sorted.Pairwise fun a b => r a ≤ r b) →
      (ks.foldl (fun sorted key => insert r key sorted) sorted).Pairwise fun a b => r a ≤ r b := by
    intro ks
    induction ks with
    | nil => exact fun _ hs => hs
    | cons k ks ih => exact fun _ hs => ih _ (insert_sorted hs)
  exact List.pairwise_reverse.mpr (h _ [] List.Pairwise.nil)

theorem order_length (r : Nat → ℝ) (n : Nat) : (order r n).length = n := by
  rw [(order_perm r n).length_eq, List.length_range]

theorem mem_order {r : Nat → ℝ} {n i : Nat} : i ∈ order r n ↔ i < n := by
  rw [(order_perm r n).mem_iff, List.mem_range]

/-- Nothing outside a prefix has a greater rate than something in it. -/
theorem rate_le_of_take {r : Nat → ℝ} {n k i j : Nat} (hi : i ∈ (order r n).take k) (hj : j < n)
    (hnot : j ∉ (order r n).take k) : r j ≤ r i := by
  have hsplit := order_sorted r n
  rw [← List.take_append_drop k (order r n), List.pairwise_append] at hsplit
  have hdrop : j ∈ (order r n).drop k := by
    have hmem : j ∈ (order r n).take k ++ (order r n).drop k := by
      rw [List.take_append_drop]
      exact mem_order.mpr hj
    exact (List.mem_append.mp hmem).resolve_left hnot
  exact hsplit.2.2 i hi j hdrop

/-! ## 2. The betting set -/

section Set

variable {fair odds : List ℝ}

/-- The outcomes `set` can be bet on with the reserve rate `R`. -/
structure Betting (fair odds : List ℝ) (set : List Nat) (R : ℝ) : Prop where
  /-- A reserve exists. -/
  feasible : (set.map fun i => 1 / odds.getD i 0).sum < 1
  balance : R * (1 - (set.map fun i => 1 / odds.getD i 0).sum) =
    1 - (set.map fun i => fair.getD i 0).sum
  beats : ∀ i ∈ set, R < rate fair odds i

/-- Betting on nothing leaves the whole bankroll. -/
theorem betting_nil (fair odds : List ℝ) : Betting fair odds [] 1 where
  feasible := by simp
  balance := by simp
  beats _ hi := absurd hi List.not_mem_nil

/-- The prefix of length `k + 1` as the scan tests it. -/
theorem betting_take_iff {n k : Nat} (hk : k < n) (R : ℝ) :
    Betting fair odds ((order (rate fair odds) n).take (k + 1)) R ↔
      let set := (order (rate fair odds) n).take (k + 1)
      let denom := 1 - sumLoop (set.map fun i => 1 / odds.getD i 0)
      ¬ denom ≤ 0 ∧ R = (1 - sumLoop (set.map fun i => fair.getD i 0)) / denom ∧
        R < rate fair odds ((order (rate fair odds) n).getD k 0) := by
  have hlen : k < (order (rate fair odds) n).length := by
    rw [order_length]
    exact hk
  have hlast : (order (rate fair odds) n).getD k 0 = (order (rate fair odds) n)[k] :=
    (List.getElem_eq_getD 0).symm
  have htake : (order (rate fair odds) n).take (k + 1) =
      (order (rate fair odds) n).take k ++ [(order (rate fair odds) n)[k]] :=
    List.take_succ_eq_append_getElem hlen
  dsimp only
  rw [sumLoop_eq_sum, sumLoop_eq_sum, hlast, not_le]
  constructor
  · rintro ⟨hfeasible, hbalance, hbeats⟩
    have hpos := sub_pos.mpr hfeasible
    refine ⟨hpos, (eq_div_iff hpos.ne').mpr hbalance, hbeats _ ?_⟩
    rw [htake]
    exact List.mem_append_right _ (List.mem_singleton_self _)
  · rintro ⟨hpos, hR, hweakest⟩
    refine ⟨sub_pos.mp hpos, (eq_div_iff hpos.ne').mp hR, fun i hi => ?_⟩
    -- the last one is the weakest
    rw [htake] at hi
    rcases List.mem_append.mp hi with hi | hi
    · have hsorted := order_sorted (rate fair odds) n
      rw [← List.take_append_drop (k + 1) (order (rate fair odds) n), htake] at hsorted
      have hprefix := (List.pairwise_append.mp hsorted).1
      exact hweakest.trans_le
        ((List.pairwise_append.mp hprefix).2.2 i hi _ (List.mem_singleton_self _))
    · rw [List.mem_singleton.mp hi]
      exact hweakest

/-- What the scan of the prefixes up to length `k` says: the longest that can be bet on, or none. -/
def Scanned (fair odds : List ℝ) (order : List Nat) (k : Nat) : Option (Nat × ℝ) → Prop
  | none => ∀ j, 0 < j → j ≤ k → ∀ R, ¬ Betting fair odds (order.take j) R
  | some (k', R) => 0 < k' ∧ k' ≤ k ∧ Betting fair odds (order.take k') R ∧
      ∀ j, k' < j → j ≤ k → ∀ R', ¬ Betting fair odds (order.take j) R'

/-- A prefix that cannot be bet on changes nothing. -/
theorem Scanned.skip {order : List Nat} {k : Nat} {res : Option (Nat × ℝ)}
    (h : Scanned fair odds order k res) (hno : ∀ R, ¬ Betting fair odds (order.take (k + 1)) R) :
    Scanned fair odds order (k + 1) res := by
  cases res with
  | none =>
    intro j hj hjk
    rcases Nat.lt_or_eq_of_le hjk with hlt | rfl
    · exact h j hj (by omega)
    · exact hno
  | some kR =>
    obtain ⟨hpos, hle, hbet, hlonger⟩ := h
    refine ⟨hpos, by omega, hbet, fun j hj hjk => ?_⟩
    rcases Nat.lt_or_eq_of_le hjk with hlt | rfl
    · exact hlonger j hj (by omega)
    · exact hno

/-- **The scan from `k` down** finds the longest betting prefix. -/
theorem scanned_pick {n k : Nat} (hk : k ≤ n) :
    Scanned fair odds (order (rate fair odds) n) k
      (pick fair odds (order (rate fair odds) n) k) := by
  induction k with
  | zero => exact fun j hj hj0 => absurd hj (by omega)
  | succ k ih =>
    have hrest := ih (Nat.le_of_succ_le hk)
    have hiff := fun R => @betting_take_iff fair odds n k hk R
    dsimp only at hiff
    unfold pick
    dsimp only
    split
    · next hdenom => exact hrest.skip fun R hbet => ((hiff R).mp hbet).1 hdenom
    · next hdenom =>
      split
      · next hweak =>
        exact ⟨Nat.succ_pos k, le_refl _, (hiff _).mpr ⟨hdenom, rfl, hweak⟩,
          fun j hj hjk => absurd hj (by omega)⟩
      · next hweak =>
        refine hrest.skip fun R hbet => ?_
        obtain ⟨_, hR, hlt⟩ := (hiff R).mp hbet
        rw [hR] at hlt
        exact hweak hlt

/-- The length of the chosen prefix and its reserve rate: nothing and 1 where there is none. -/
noncomputable def chosen (fair odds : List ℝ) : Nat × ℝ :=
  (pick fair odds (order (rate fair odds) fair.length) fair.length).getD (0, 1)

/-- The outcomes `allocate` stakes on. -/
noncomputable def chosenSet (fair odds : List ℝ) : List Nat :=
  (order (rate fair odds) fair.length).take (chosen fair odds).1

/-- **The chosen set can be bet on, and no longer prefix can.** -/
theorem chosen_spec (fair odds : List ℝ) :
    (chosen fair odds).1 ≤ fair.length ∧
      Betting fair odds (chosenSet fair odds) (chosen fair odds).2 ∧
      ∀ j, (chosen fair odds).1 < j → j ≤ fair.length → ∀ R,
        ¬ Betting fair odds ((order (rate fair odds) fair.length).take j) R := by
  have hscan := @scanned_pick fair odds fair.length fair.length le_rfl
  unfold chosenSet chosen
  cases hpick : pick fair odds (order (rate fair odds) fair.length) fair.length with
  | none =>
    rw [hpick] at hscan
    exact ⟨Nat.zero_le _, betting_nil fair odds, hscan⟩
  | some kR =>
    rw [hpick] at hscan
    exact hscan.2

theorem length_chosenSet (fair odds : List ℝ) :
    (chosenSet fair odds).length = (chosen fair odds).1 := by
  rw [chosenSet, List.length_take, order_length]
  exact Nat.min_eq_left (chosen_spec fair odds).1

theorem chosenSet_nodup (fair odds : List ℝ) : (chosenSet fair odds).Nodup :=
  take_order_nodup _ _ _

theorem lt_of_mem_chosenSet {i : Nat} (h : i ∈ chosenSet fair odds) : i < fair.length :=
  lt_of_mem_take_order h

/-! ## 3. The arguments -/

/-- The arguments `allocate` works on. -/
structure Accepted (fair odds : List ℝ) (kellyFraction maxExposure : ℝ) : Prop where
  ne_nil : fair ≠ []
  length_le : fair.length ≤ kMaxOutcomes
  length_eq : odds.length = fair.length
  fraction_pos : 0 < kellyFraction
  exposure_pos : 0 < maxExposure
  fair_nonneg : ∀ p ∈ fair, 0 ≤ p
  one_lt_odds : ∀ o ∈ odds, 1 < o

theorem forall_mem_zip_iff (hlen : odds.length = fair.length) :
    (∀ po ∈ fair.zip odds, 0 ≤ po.1 ∧ 1 < po.2) ↔ (∀ p ∈ fair, 0 ≤ p) ∧ ∀ o ∈ odds, 1 < o := by
  constructor
  · intro h
    refine ⟨fun p hp => ?_, fun o ho => ?_⟩
    · rw [← List.map_fst_zip hlen.ge] at hp
      obtain ⟨po, hpo, rfl⟩ := List.mem_map.mp hp
      exact (h po hpo).1
    · rw [← List.map_snd_zip hlen.le] at ho
      obtain ⟨po, hpo, rfl⟩ := List.mem_map.mp ho
      exact (h po hpo).2
  · rintro ⟨hp, ho⟩ po hpo
    obtain ⟨hmem, hmem'⟩ := List.of_mem_zip hpo
    exact ⟨hp _ hmem, ho _ hmem'⟩

/-- Real numbers are finite, so the checks are these. -/
theorem validArgs_iff (fair odds : List ℝ) (kellyFraction maxExposure : ℝ) :
    validArgs fair odds kellyFraction maxExposure = true ↔
      Accepted fair odds kellyFraction maxExposure := by
  unfold validArgs
  split
  · next hbad =>
    simp only [Bool.or_eq_true, decide_eq_true_eq] at hbad
    refine ⟨fun h => absurd h Bool.false_ne_true, fun h => ?_⟩
    rcases hbad with (hnil | hlong) | hne
    · exact absurd (List.length_eq_zero_iff.mp hnil) h.ne_nil
    · exact absurd h.length_le (not_le.mpr hlong)
    · exact absurd h.length_eq hne
  · next hgood =>
    simp only [Bool.or_eq_true, decide_eq_true_eq, not_or, not_not] at hgood
    split
    · next hbad =>
      simp only [Bool.or_eq_true, Bool.not_eq_true', decide_eq_false_iff_not] at hbad
      refine ⟨fun h => absurd h Bool.false_ne_true, fun h => ?_⟩
      rcases hbad with hk | hm
      · exact absurd h.fraction_pos hk
      · exact absurd h.exposure_pos hm
    · next hpos =>
      simp only [Bool.or_eq_true, Bool.not_eq_true', decide_eq_false_iff_not, not_or,
        not_not] at hpos
      have hall : ((fair.zip odds).all fun po =>
          !(!Libm.isfinite po.1 || !Libm.isfinite po.2) &&
            !(decide (po.1 < 0) || !decide (1 < po.2))) = true ↔
          ∀ po ∈ fair.zip odds, 0 ≤ po.1 ∧ 1 < po.2 := by
        simp [List.all_eq_true]
      rw [hall, forall_mem_zip_iff hgood.2]
      exact ⟨fun h => ⟨fun hnil => hgood.1.1 (by rw [hnil]; rfl), not_lt.mp hgood.1.2, hgood.2,
        hpos.1, hpos.2, h.1, h.2⟩, fun h => ⟨h.fair_nonneg, h.one_lt_odds⟩⟩

section Args

variable {kellyFraction maxExposure : ℝ}

theorem Accepted.getD_nonneg (h : Accepted fair odds kellyFraction maxExposure) {i : Nat}
    (hi : i < fair.length) : 0 ≤ fair.getD i 0 := by
  rw [← List.getElem_eq_getD (h := hi)]
  exact h.fair_nonneg _ (List.getElem_mem hi)

theorem Accepted.one_lt_getD (h : Accepted fair odds kellyFraction maxExposure) {i : Nat}
    (hi : i < fair.length) : 1 < odds.getD i 0 := by
  have hi' : i < odds.length := by
    rw [h.length_eq]
    exact hi
  rw [← List.getElem_eq_getD (h := hi')]
  exact h.one_lt_odds _ (List.getElem_mem hi')

theorem Accepted.odds_pos (h : Accepted fair odds kellyFraction maxExposure) {i : Nat}
    (hi : i < fair.length) : 0 < odds.getD i 0 :=
  one_pos.trans (h.one_lt_getD hi)

/-! ## 4. The stakes -/

/-- The staking loop sets the outcomes it meets and leaves the others. -/
theorem foldl_stakeStep_fst (fair odds : List ℝ) (R : ℝ) (set : List Nat)
    (acc : (Fin kMaxOutcomes → ℝ) × ℝ) (j : Fin kMaxOutcomes) :
    (set.foldl (stakeStep fair odds R) acc).1 j =
      if j.val ∈ set then fullStake fair odds R j else acc.1 j := by
  induction set generalizing acc with
  | nil => simp
  | cons i set ih =>
    rw [List.foldl_cons, ih]
    by_cases hj : j.val ∈ set
    · rw [if_pos hj, if_pos (List.mem_cons_of_mem i hj)]
    · rw [if_neg hj]
      by_cases hi : j.val = i
      · rw [if_pos (by rw [hi]; exact List.mem_cons_self), hi]
        exact if_pos hi
      · rw [if_neg fun hmem => (List.mem_cons.mp hmem).elim hi hj]
        exact if_neg hi

theorem foldl_stakeStep_snd (fair odds : List ℝ) (R : ℝ) (set : List Nat)
    (acc : (Fin kMaxOutcomes → ℝ) × ℝ) :
    (set.foldl (stakeStep fair odds R) acc).2 = acc.2 + (set.map (fullStake fair odds R)).sum := by
  induction set generalizing acc with
  | nil => simp
  | cons i set ih =>
    rw [List.foldl_cons, ih, List.map_cons, List.sum_cons]
    exact add_assoc _ _ _

/-- A member of a betting set has a positive stake. -/
theorem Betting.stake_pos {set : List Nat} {R : ℝ} (h : Betting fair odds set R) {i : Nat}
    (hi : i ∈ set) (ho : 0 < odds.getD i 0) : 0 < fair.getD i 0 - R / odds.getD i 0 := by
  have hlt : R / odds.getD i 0 < fair.getD i 0 := (div_lt_iff₀ ho).mpr (h.beats i hi)
  exact sub_pos.mpr hlt

theorem Betting.sum_stakes {set : List Nat} {R : ℝ} (h : Betting fair odds set R) :
    (set.map fun i => fair.getD i 0 - R / odds.getD i 0).sum = 1 - R := by
  have hterm : ∀ is : List Nat, (is.map fun i => fair.getD i 0 - R / odds.getD i 0).sum =
      (is.map fun i => fair.getD i 0).sum - R * (is.map fun i => 1 / odds.getD i 0).sum := by
    intro is
    induction is with
    | nil => simp
    | cons i is ih =>
      simp only [List.map_cons, List.sum_cons, ih]
      ring
  rw [hterm]
  linarith [h.balance]

/-- The reserve rate is below 1 where anything is staked. -/
theorem Betting.reserve_lt {set : List Nat} {R : ℝ} (h : Betting fair odds set R) (hne : set ≠ [])
    (ho : ∀ i ∈ set, 0 < odds.getD i 0) : R < 1 := by
  have hpos := List.sum_pos (set.map fun i => fair.getD i 0 - R / odds.getD i 0)
    (fun x hx => by
      obtain ⟨i, hi, rfl⟩ := List.mem_map.mp hx
      exact h.stake_pos hi (ho i hi))
    (by simpa using hne)
  rw [h.sum_stakes] at hpos
  exact sub_pos.mp hpos

/-- What is left of the full-Kelly stakes after the Kelly fraction and the cap. -/
noncomputable def scale (kellyFraction maxExposure R : ℝ) : ℝ :=
  min kellyFraction (maxExposure / (1 - R))

theorem scale_pos {R : ℝ} (hk : 0 < kellyFraction) (hm : 0 < maxExposure) (hR : R < 1) :
    0 < scale kellyFraction maxExposure R :=
  lt_min hk (div_pos hm (sub_pos.mpr hR))

/-- The answer that stakes on `set` with the reserve rate `R`. -/
structure Staked (fair odds : List ℝ) (kellyFraction maxExposure : ℝ) (set : List Nat) (R : ℝ)
    (a : AllocationResult ℝ) : Prop where
  stake : ∀ i : Fin kMaxOutcomes, a.stake i =
    if i.val ∈ set then scale kellyFraction maxExposure R *
      (fair.getD i 0 - R / odds.getD i 0) else 0
  count : a.count = fair.length.toUInt8
  totalStake : a.totalStake = min (kellyFraction * (1 - R)) maxExposure
  reserveRate : a.reserveRate = R
  bets : a.bets = set.length
  hasBet : a.hasBet = true ↔ set ≠ []
  capped : a.capped = true ↔ maxExposure < kellyFraction * (1 - R)

/-- The staking loop over a betting set, floor and all. -/
theorem fullStake_of_betting {set : List Nat} {R : ℝ} (h : Betting fair odds set R) {i : Nat}
    (hi : i ∈ set) (ho : 0 < odds.getD i 0) :
    fullStake fair odds R i = fair.getD i 0 - R / odds.getD i 0 :=
  if_neg (h.stake_pos hi ho).le.not_gt

theorem foldl_stakeStep_of_betting {set : List Nat} {R : ℝ} (h : Betting fair odds set R)
    (ho : ∀ i ∈ set, 0 < odds.getD i 0) :
    (∀ j : Fin kMaxOutcomes, (set.foldl (stakeStep fair odds R) ((fun _ => 0), 0)).1 j =
      if j.val ∈ set then fair.getD j 0 - R / odds.getD j 0 else 0) ∧
    (set.foldl (stakeStep fair odds R) ((fun _ => 0 : Fin kMaxOutcomes → ℝ), 0)).2 = 1 - R := by
  constructor
  · intro j
    rw [foldl_stakeStep_fst]
    split
    · next hj => exact fullStake_of_betting h hj (ho _ hj)
    · rfl
  · rw [foldl_stakeStep_snd, zero_add, ← h.sum_stakes]
    exact congrArg List.sum (List.map_congr_left fun i hi => fullStake_of_betting h hi (ho i hi))

/-- Scaling reaches every stake, as there is none beyond the outcomes. -/
theorem scaleStakes_eq {n : Nat} (c : ℝ) {stake : Fin kMaxOutcomes → ℝ} {j : Fin kMaxOutcomes}
    (hzero : ¬ j.val < n → stake j = 0) : scaleStakes n c stake j = stake j * c := by
  unfold scaleStakes
  split
  · rfl
  · next hj => rw [hzero hj, zero_mul]

theorem staked_stakeSet {set : List Nat} {R : ℝ} (hacc : Accepted fair odds kellyFraction maxExposure)
    (hbet : Betting fair odds set R) (hne : set ≠ []) (hlt : ∀ i ∈ set, i < fair.length) :
    Staked fair odds kellyFraction maxExposure set R
      (stakeSet fair odds kellyFraction maxExposure set R) := by
  have ho : ∀ i ∈ set, 0 < odds.getD i 0 := fun i hi => hacc.odds_pos (hlt i hi)
  have hR : 0 < 1 - R := sub_pos.mpr (hbet.reserve_lt hne ho)
  have hk := hacc.fraction_pos
  have hm := hacc.exposure_pos
  obtain ⟨hfst, hsnd⟩ := foldl_stakeStep_of_betting hbet ho
  have hbeyond : ∀ j : Fin kMaxOutcomes, ¬ j.val < fair.length → j.val ∉ set :=
    fun j hj hmem => hj (hlt _ hmem)
  have hkelly : ∀ j : Fin kMaxOutcomes, scaleStakes fair.length kellyFraction
      (set.foldl (stakeStep fair odds R) ((fun _ => 0), 0)).1 j =
        if j.val ∈ set then (fair.getD j 0 - R / odds.getD j 0) * kellyFraction else 0 := by
    intro j
    rw [scaleStakes_eq _ fun hj => by rw [hfst, if_neg (hbeyond j hj)], hfst, ite_mul, zero_mul]
  unfold stakeSet
  dsimp only
  rw [hsnd]
  split
  · next hcap =>
    have htotal : 0 < (1 - R) * kellyFraction := mul_pos hR hk
    have hmin : scale kellyFraction maxExposure R = maxExposure / (1 - R) := by
      rw [scale, min_eq_right]
      rw [div_le_iff₀ hR, mul_comm]
      exact hcap.le
    refine ⟨fun j => ?_, rfl, ?_, rfl, rfl, ?_, ?_⟩
    · show scaleStakes _ _ (scaleStakes _ _ _) j = _
      rw [scaleStakes_eq _ fun hj => by rw [hkelly, if_neg (hbeyond j hj)], hkelly, hmin, ite_mul,
        zero_mul]
      refine if_congr Iff.rfl ?_ rfl
      field_simp
    · rw [min_eq_right (by rw [mul_comm]; exact hcap.le)]
    · exact ⟨fun _ => hne, fun _ => decide_eq_true hm⟩
    · exact ⟨fun _ => by rw [mul_comm]; exact hcap, fun _ => rfl⟩
  · next hcap =>
    have hle : kellyFraction * (1 - R) ≤ maxExposure := by
      rw [mul_comm]
      exact not_lt.mp hcap
    have hmin : scale kellyFraction maxExposure R = kellyFraction := by
      rw [scale, min_eq_left]
      exact (le_div_iff₀ hR).mpr hle
    refine ⟨fun j => ?_, rfl, ?_, rfl, rfl, ?_, ?_⟩
    · show scaleStakes _ _ _ j = _
      rw [hkelly, hmin]
      exact if_congr Iff.rfl (mul_comm _ _) rfl
    · rw [min_eq_left hle, mul_comm]
    · exact ⟨fun _ => hne, fun _ => decide_eq_true (mul_pos hR hk)⟩
    · exact ⟨fun h => absurd h Bool.false_ne_true, fun h => absurd h hle.not_gt⟩

theorem chosenSet_ne_nil_iff (fair odds : List ℝ) :
    chosenSet fair odds ≠ [] ↔ (chosen fair odds).1 ≠ 0 := by
  rw [← length_chosenSet, ne_eq, ne_eq, List.length_eq_zero_iff]

/-- **What `allocate` answers to arguments it accepts**: the stakes on the chosen set, which are none
    at all where the set is empty. -/
theorem staked_allocate (hacc : Accepted fair odds kellyFraction maxExposure) :
    Staked fair odds kellyFraction maxExposure (chosenSet fair odds) (chosen fair odds).2
      (allocate fair odds kellyFraction maxExposure) := by
  have hv := (validArgs_iff fair odds kellyFraction maxExposure).mpr hacc
  have hscan := @scanned_pick fair odds fair.length fair.length le_rfl
  cases hpick : pick fair odds (order (rate fair odds) fair.length) fair.length with
  | none =>
    have hchosen : chosen fair odds = (0, 1) := by
      unfold chosen
      rw [hpick]
      rfl
    have hset : chosenSet fair odds = [] := by
      rw [chosenSet, hchosen]
      exact List.take_zero
    rw [allocate_of_pick_none hv hpick, hset, hchosen]
    exact {
      stake := fun i => (if_neg List.not_mem_nil).symm
      count := rfl
      totalStake := by
        rw [sub_self, mul_zero, min_eq_left hacc.exposure_pos.le]
        rfl
      reserveRate := rfl
      bets := rfl
      hasBet := ⟨fun h => absurd h Bool.false_ne_true, fun h => absurd rfl h⟩
      capped := by
        rw [sub_self, mul_zero]
        exact ⟨fun h => absurd h Bool.false_ne_true, fun h => absurd hacc.exposure_pos h.not_gt⟩ }
  | some kR =>
    have hchosen : chosen fair odds = kR := by
      unfold chosen
      rw [hpick]
      rfl
    rw [hpick] at hscan
    have hset : (order (rate fair odds) fair.length).take kR.1 = chosenSet fair odds := by
      rw [chosenSet, hchosen]
    have hne : chosenSet fair odds ≠ [] := by
      rw [chosenSet_ne_nil_iff, hchosen]
      exact hscan.1.ne'
    have hbet := (chosen_spec fair odds).2.1
    rw [allocate_of_pick_some hv hpick, hset, ← hchosen]
    exact staked_stakeSet hacc hbet hne fun i => lt_of_mem_chosenSet

/-! ## 5. What the comments promise -/

/-- A sum over a set of outcomes is one over the array. -/
theorem sum_map_eq_sum_ite {M : Type} [AddCommMonoid M] {set : List Nat} {m : Nat} (g : Nat → M)
    (hnodup : set.Nodup) (hlt : ∀ i ∈ set, i < m) :
    (set.map g).sum = ∑ i : Fin m, if i.val ∈ set then g i else 0 := by
  have hsub : set.toFinset ⊆ Finset.range m := by
    intro i hi
    exact Finset.mem_range.mpr (hlt i (List.mem_toFinset.mp hi))
  rw [← List.sum_toFinset g hnodup, Fin.sum_univ_eq_sum_range (fun i => if i ∈ set then g i else 0),
    ← Finset.sum_subset hsub fun i _ hi => if_neg fun h => hi (List.mem_toFinset.mpr h)]
  exact Finset.sum_congr rfl fun i hi => (if_pos (List.mem_toFinset.mp hi)).symm

/-- An edge makes an outcome a betting set of its own. -/
theorem betting_singleton {i : Nat} (ho : 1 < odds.getD i 0) (hrate : 1 < rate fair odds i) :
    Betting fair odds [i] ((1 - fair.getD i 0) / (1 - 1 / odds.getD i 0)) := by
  have ho0 : 0 < odds.getD i 0 := one_pos.trans ho
  have hdenom : 0 < 1 - 1 / odds.getD i 0 := sub_pos.mpr ((div_lt_one ho0).mpr ho)
  refine ⟨?_, ?_, fun j hj => ?_⟩
  · rw [List.map_singleton, List.sum_singleton]
    exact sub_pos.mp hdenom
  · rw [List.map_singleton, List.sum_singleton, List.map_singleton, List.sum_singleton]
    exact div_mul_cancel₀ _ hdenom.ne'
  rw [List.mem_singleton.mp hj, div_lt_iff₀ hdenom, mul_sub, mul_one, mul_one_div]
  have hpay : rate fair odds i / odds.getD i 0 = fair.getD i 0 := mul_div_cancel_right₀ _ ho0.ne'
  rw [hpay]
  linarith

/-- **There is a bet exactly where some outcome has an edge.** -/
theorem chosenSet_ne_nil_iff_edge (hacc : Accepted fair odds kellyFraction maxExposure) :
    chosenSet fair odds ≠ [] ↔ ∃ i < fair.length, 1 < rate fair odds i := by
  obtain ⟨hle, hbet, hlonger⟩ := chosen_spec fair odds
  have ho : ∀ i ∈ chosenSet fair odds, 0 < odds.getD i 0 :=
    fun i hi => hacc.odds_pos (lt_of_mem_chosenSet hi)
  constructor
  · intro hne
    by_contra hno
    -- without an edge the probabilities are at most the implied ones, and nothing beats 1
    have hsum : ((chosenSet fair odds).map fun i => fair.getD i 0).sum ≤
        ((chosenSet fair odds).map fun i => 1 / odds.getD i 0).sum := by
      refine List.sum_le_sum fun i hi => ?_
      rw [le_div_iff₀ (ho i hi)]
      exact not_lt.mp fun hlt => hno ⟨i, lt_of_mem_chosenSet hi, hlt⟩
    have hR := hbet.reserve_lt hne ho
    have hmul := mul_lt_mul_of_pos_right hR (sub_pos.mpr hbet.feasible)
    rw [hbet.balance, one_mul] at hmul
    linarith
  · rintro ⟨i, hi, hedge⟩ hnil
    have hzero : (chosen fair odds).1 = 0 := by
      rw [← length_chosenSet, hnil]
      rfl
    -- the first outcome has the greatest rate
    have hlen : 0 < (order (rate fair odds) fair.length).length := by
      rw [order_length]
      omega
    have hfirst : (order (rate fair odds) fair.length).take 1 =
        [(order (rate fair odds) fair.length)[0]] := by
      rw [List.take_succ_eq_append_getElem hlen, List.take_zero, List.nil_append]
    have hlt : (order (rate fair odds) fair.length)[0] < fair.length :=
      mem_order.mp (List.getElem_mem hlen)
    have hmax : (1 : ℝ) < rate fair odds (order (rate fair odds) fair.length)[0] := by
      by_cases hmem : i ∈ (order (rate fair odds) fair.length).take 1
      · rw [hfirst] at hmem
        rw [← List.mem_singleton.mp hmem]
        exact hedge
      · refine hedge.trans_le (rate_le_of_take ?_ hi hmem)
        rw [hfirst]
        exact List.mem_singleton_self _
    have hone := betting_singleton (hacc.one_lt_getD hlt) hmax
    rw [← hfirst] at hone
    exact hlonger 1 (by omega) (by omega) _ hone

/-- What holds of every answer to accepted arguments. -/
structure AllocationOk (fair odds : List ℝ) (kellyFraction maxExposure : ℝ)
    (a : AllocationResult ℝ) : Prop where
  hasBet_iff : a.hasBet = true ↔ ∃ i < fair.length, 1 < fair.getD i 0 * odds.getD i 0
  /-- The staked set is upward closed in the revenue rate. -/
  upward : ∀ i j : Fin kMaxOutcomes, 0 < a.stake i → j.val < fair.length →
    fair.getD i 0 * odds.getD i 0 < fair.getD j 0 * odds.getD j 0 → 0 < a.stake j
  bets : a.bets = (Finset.univ.filter fun i => 0 < a.stake i).card
  staked_lt : ∀ i : Fin kMaxOutcomes, 0 < a.stake i → i.val < fair.length
  unstaked : ∀ i, ¬ 0 < a.stake i → a.stake i = 0
  stakes : ∃ lambda > 0, ∀ i : Fin kMaxOutcomes, 0 < a.stake i →
    a.stake i = lambda * (fair.getD i 0 - a.reserveRate / odds.getD i 0)
  /-- The full-Kelly stakes sum to what is not in reserve. -/
  full_total : ∑ i : Fin kMaxOutcomes,
    (if 0 < a.stake i then fair.getD i 0 - a.reserveRate / odds.getD i 0 else 0) = 1 - a.reserveRate
  reserve_lt_iff : a.reserveRate < 1 ↔ a.hasBet = true
  reserve_eq : a.hasBet = false → a.reserveRate = 1
  total_eq_sum : a.totalStake = ∑ i, a.stake i
  total_eq_min : a.totalStake = min (kellyFraction * (1 - a.reserveRate)) maxExposure
  capped_iff : a.capped = true ↔ maxExposure < kellyFraction * (1 - a.reserveRate)

/-- The outcomes with a positive stake are the chosen ones. -/
theorem stake_pos_iff (hacc : Accepted fair odds kellyFraction maxExposure)
    (i : Fin kMaxOutcomes) :
    0 < (allocate fair odds kellyFraction maxExposure).stake i ↔ i.val ∈ chosenSet fair odds := by
  have hbet := (chosen_spec fair odds).2.1
  rw [(staked_allocate hacc).stake]
  split
  · next hi =>
    have ho : ∀ j ∈ chosenSet fair odds, 0 < odds.getD j 0 :=
      fun j hj => hacc.odds_pos (lt_of_mem_chosenSet hj)
    have hR := hbet.reserve_lt (List.ne_nil_of_mem hi) ho
    exact ⟨fun _ => hi, fun _ => mul_pos (scale_pos hacc.fraction_pos hacc.exposure_pos hR)
      (hbet.stake_pos hi (ho _ hi))⟩
  · next hi => exact ⟨fun h => absurd h (lt_irrefl 0), fun h => absurd h hi⟩

theorem allocationOk_allocate (hacc : Accepted fair odds kellyFraction maxExposure) :
    AllocationOk fair odds kellyFraction maxExposure
      (allocate fair odds kellyFraction maxExposure) := by
  obtain ⟨-, hbet, -⟩ := chosen_spec fair odds
  have hs := staked_allocate hacc
  have hpos := stake_pos_iff hacc
  have hok := stakesOk_allocate fair odds kellyFraction maxExposure
    ((validArgs_iff _ _ _ _).mpr hacc)
  have ho : ∀ i ∈ chosenSet fair odds, 0 < odds.getD i 0 :=
    fun i hi => hacc.odds_pos (lt_of_mem_chosenSet hi)
  have hlt : ∀ i ∈ chosenSet fair odds, i < kMaxOutcomes :=
    fun i hi => (lt_of_mem_chosenSet hi).trans_le hacc.length_le
  have hnone : chosenSet fair odds = [] → (chosen fair odds).2 = 1 := by
    intro hnil
    have hb := hbet.balance
    rw [hnil] at hb
    simpa using hb
  exact {
    hasBet_iff := hs.hasBet.trans (chosenSet_ne_nil_iff_edge hacc)
    upward := by
      intro i j hi hj hrate
      rw [hpos] at hi ⊢
      by_contra hnot
      exact absurd hrate (rate_le_of_take hi hj hnot).not_gt
    bets := by
      rw [hs.bets, Finset.card_filter]
      have hone := sum_map_eq_sum_ite (fun _ => 1) (chosenSet_nodup fair odds) hlt
      rw [List.map_const', List.sum_replicate, smul_eq_mul, mul_one] at hone
      rw [hone]
      exact Finset.sum_congr rfl fun i _ => if_congr (hpos i).symm rfl rfl
    staked_lt := fun i hi => lt_of_mem_chosenSet ((hpos i).mp hi)
    unstaked := fun i hi => le_antisymm (not_lt.mp hi) (hok.nonneg i)
    stakes := by
      by_cases hnil : chosenSet fair odds = []
      · refine ⟨1, one_pos, fun i hi => ?_⟩
        rw [hpos, hnil] at hi
        exact absurd hi List.not_mem_nil
      · refine ⟨_, scale_pos hacc.fraction_pos hacc.exposure_pos (hbet.reserve_lt hnil ho),
          fun i hi => ?_⟩
        rw [hs.stake, hs.reserveRate]
        exact if_pos ((hpos i).mp hi)
    full_total := by
      rw [hs.reserveRate, ← hbet.sum_stakes,
        sum_map_eq_sum_ite _ (chosenSet_nodup fair odds) hlt]
      exact Finset.sum_congr rfl fun i _ => if_congr (hpos i) rfl rfl
    reserve_lt_iff := by
      rw [hs.reserveRate, hs.hasBet]
      refine ⟨fun hR hnil => absurd (hnone hnil) hR.ne, fun hne => hbet.reserve_lt hne ho⟩
    reserve_eq := by
      intro hno
      rw [hs.reserveRate]
      refine hnone (not_not.mp fun hne => ?_)
      rw [hs.hasBet.mpr hne] at hno
      exact absurd hno Bool.true_eq_false.mp
    total_eq_sum := hok.sum_stake.symm
    total_eq_min := by rw [hs.totalStake, hs.reserveRate]
    capped_iff := by rw [hs.capped, hs.reserveRate] }

/-- **The contract of `allocate`**, for probabilities of any sum; arguments it does not accept get
    no bet. -/
theorem allocate_contract (fair odds : List ℝ) (kellyFraction maxExposure : ℝ) :
    (Accepted fair odds kellyFraction maxExposure →
      AllocationOk fair odds kellyFraction maxExposure
        (allocate fair odds kellyFraction maxExposure)) ∧
    (¬ Accepted fair odds kellyFraction maxExposure →
      (∀ i, (allocate fair odds kellyFraction maxExposure).stake i = 0) ∧
        (allocate fair odds kellyFraction maxExposure).hasBet = false) := by
  refine ⟨allocationOk_allocate, fun hno => ?_⟩
  have hv : validArgs fair odds kellyFraction maxExposure = false :=
    Bool.eq_false_of_not_eq_true fun h => hno ((validArgs_iff _ _ _ _).mp h)
  unfold allocate
  rw [hv]
  exact ⟨fun _ => rfl, rfl⟩

/-- Two outcomes of a half each, at 2.1. -/
theorem accepted_arbitrage : Accepted [1 / 2, 1 / 2] [21 / 10, 21 / 10] (1 / 4) 1 where
  ne_nil := List.cons_ne_nil _ _
  length_le := Nat.le_add_right 2 2
  length_eq := rfl
  fraction_pos := by norm_num
  exposure_pos := one_pos
  fair_nonneg := by norm_num
  one_lt_odds := by norm_num

theorem allocate_contract_arbitrage : AllocationOk [1 / 2, 1 / 2] [21 / 10, 21 / 10] (1 / 4) 1
    (allocate [1 / 2, 1 / 2] [21 / 10, 21 / 10] (1 / 4) 1) :=
  (allocate_contract _ _ _ _).1 accepted_arbitrage

end Args

end Set

end Kelly

end OddsEngine
