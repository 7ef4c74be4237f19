/-
  File:      OddsEngine/Engine/KellyOptimal.lean
  Subject:   The stakes of `allocate` are the optimal ones, over the reals (engine/Kelly.hpp).

  Where the fair probabilities sum to 1, no outcome outside the chosen set beats the reserve rate
  (`rate_le_reserve`): an outcome that did would leave a reserve with it too, since what the set
  stakes cannot exceed what is left of the probability. So the reserve rate the scan finds is THE
  reserve rate of the outcomes (`isReserve_chosen`), and what is known of that applies:

  * `allocate_optimal` -- full Kelly maximises the expected log wealth;
  * `allocate_mono` -- a smaller fraction or a tighter cap costs growth, and never loses any;
  * `allocate_equivariant` -- the answer does not depend on how the outcomes are numbered.
-/
import OddsEngine.Lib.Reserve
import OddsEngine.Engine.KellySet

namespace OddsEngine

open Lib

namespace Kelly

/-- The first `n` entries of a vector. -/
def entries (n : Nat) (xs : List ℝ) (i : Fin n) : ℝ := xs.getD i 0

/-- The stakes of an answer on `n` outcomes. -/
def AllocationResult.stakes (a : AllocationResult ℝ) (n : Nat) (i : Fin n) : ℝ :=
  if h : i.val < kMaxOutcomes then a.stake ⟨i, h⟩ else 0

theorem sum_entries (xs : List ℝ) : ∑ i, entries xs.length xs i = xs.sum := by
  have hofFn : List.ofFn (entries xs.length xs) = xs := by
    refine List.ext_getElem (List.length_ofFn) fun i hi hi' => ?_
    rw [List.getElem_ofFn, entries]
    exact (List.getElem_eq_getD 0).symm
  rw [← List.sum_ofFn, hofFn]

theorem entries_ofFn {n : Nat} (f : Fin n → ℝ) : entries n (List.ofFn f) = f := by
  funext i
  have hi : i.val < (List.ofFn f).length := by
    rw [List.length_ofFn]
    exact i.isLt
  rw [entries, ← List.getElem_eq_getD (h := hi), List.getElem_ofFn]

section Chosen

variable {fair odds : List ℝ} {kellyFraction maxExposure : ℝ}

/-! ## 1. The reserve rate -/

/-- An outcome that beats the reserve rate extends the betting set, if the probability allows. -/
theorem Betting.extend {set : List Nat} {R : ℝ} (h : Betting fair odds set R) {j : Nat}
    (ho : 0 < odds.getD j 0) (hp : 0 ≤ fair.getD j 0) (hj : R < rate fair odds j)
    (hweakest : ∀ i ∈ set, rate fair odds j ≤ rate fair odds i)
    (hsum : ((set ++ [j]).map fun i => fair.getD i 0).sum ≤ 1) :
    ∃ R', Betting fair odds (set ++ [j]) R' := by
  have hB := sub_pos.mpr h.feasible
  have hpay : rate fair odds j * (1 / odds.getD j 0) = fair.getD j 0 := by
    rw [mul_one_div]
    exact mul_div_cancel_right₀ _ ho.ne'
  rw [List.map_append, List.sum_append, List.map_singleton, List.sum_singleton] at hsum
  have hR : 0 ≤ R := by
    have hmul : 0 ≤ R * (1 - (set.map fun i => 1 / odds.getD i 0).sum) := by
      rw [h.balance]
      linarith
    exact nonneg_of_mul_nonneg_left hmul hB
  -- the probability left is less than what the reserve would pay at the rate of `j`
  have hleft : 1 - (set.map fun i => fair.getD i 0).sum <
      rate fair odds j * (1 - (set.map fun i => 1 / odds.getD i 0).sum) := by
    rw [← h.balance]
    exact mul_lt_mul_of_pos_right hj hB
  have hfeasible : 1 / odds.getD j 0 < 1 - (set.map fun i => 1 / odds.getD i 0).sum := by
    by_contra hnot
    have hmul := mul_le_mul_of_nonneg_left (not_lt.mp hnot) (hR.trans hj.le)
    rw [hpay] at hmul
    linarith
  have hdenom : 0 < 1 - ((set.map fun i => 1 / odds.getD i 0).sum + 1 / odds.getD j 0) := by
    linarith
  refine ⟨(1 - ((set.map fun i => fair.getD i 0).sum + fair.getD j 0)) /
    (1 - ((set.map fun i => 1 / odds.getD i 0).sum + 1 / odds.getD j 0)), ?_, ?_, ?_⟩
  · rw [List.map_append, List.sum_append, List.map_singleton, List.sum_singleton]
    exact sub_pos.mp hdenom
  · rw [List.map_append, List.sum_append, List.map_singleton, List.sum_singleton,
      List.map_append, List.sum_append, List.map_singleton, List.sum_singleton]
    exact div_mul_cancel₀ _ hdenom.ne'
  · have hbeats : (1 - ((set.map fun i => fair.getD i 0).sum + fair.getD j 0)) /
        (1 - ((set.map fun i => 1 / odds.getD i 0).sum + 1 / odds.getD j 0)) <
          rate fair odds j := by
      rw [div_lt_iff₀ hdenom, ← sub_sub, ← sub_sub, mul_sub _ _ (1 / odds.getD j 0), hpay]
      linarith
    intro i hi
    rcases List.mem_append.mp hi with hi | hi
    · exact hbeats.trans_le (hweakest i hi)
    · rw [List.mem_singleton.mp hi]
      exact hbeats

/-- What some of the outcomes have of the probability is at most all of it. -/
theorem sum_set_le (hacc : Accepted fair odds kellyFraction maxExposure) {set : List Nat}
    (hnodup : set.Nodup) (hlt : ∀ i ∈ set, i < fair.length) :
    (set.map fun i => fair.getD i 0).sum ≤ fair.sum := by
  rw [sum_map_eq_sum_ite (fun i => fair.getD i 0) hnodup hlt, ← sum_entries]
  refine Finset.sum_le_sum fun i _ => ?_
  split
  · exact le_refl _
  · exact hacc.getD_nonneg i.isLt

/-- **Outside the chosen set nothing beats the reserve rate**: the scan would have gone on. -/
theorem rate_le_reserve (hacc : Accepted fair odds kellyFraction maxExposure)
    (hsum : fair.sum = 1) {j : Nat} (hj : j < fair.length) (hnot : j ∉ chosenSet fair odds) :
    rate fair odds j ≤ (chosen fair odds).2 := by
  obtain ⟨hle, hbet, hlonger⟩ := chosen_spec fair odds
  by_contra hbeats
  have hk : (chosen fair odds).1 < (order (rate fair odds) fair.length).length := by
    rw [order_length]
    refine lt_of_le_of_ne hle fun heq => hnot ?_
    rw [chosenSet, heq, List.take_of_length_le (order_length _ _).le]
    exact mem_order.mpr hj
  -- the next one in the order
  let next := (order (rate fair odds) fair.length)[(chosen fair odds).1]
  have hnext : next < fair.length := mem_order.mp (List.getElem_mem hk)
  have htake : (order (rate fair odds) fair.length).take ((chosen fair odds).1 + 1) =
      chosenSet fair odds ++ [next] := List.take_succ_eq_append_getElem hk
  have hnodup : (chosenSet fair odds ++ [next]).Nodup := by
    rw [← htake]
    exact take_order_nodup _ _ _
  have hnew : next ∉ chosenSet fair odds := by
    intro hmem
    exact (List.nodup_append.mp hnodup).2.2 next hmem next (List.mem_singleton_self _) rfl
  have hrate : rate fair odds j ≤ rate fair odds next := by
    by_cases hmem : j ∈ chosenSet fair odds ++ [next]
    · rcases List.mem_append.mp hmem with hmem | hmem
      · exact absurd hmem hnot
      · rw [List.mem_singleton.mp hmem]
    · rw [← htake] at hmem
      refine rate_le_of_take ?_ hj hmem
      rw [htake]
      exact List.mem_append_right _ (List.mem_singleton_self _)
  have hlt : ∀ i ∈ chosenSet fair odds ++ [next], i < fair.length := by
    rw [← htake]
    exact fun i hi => lt_of_mem_take_order hi
  obtain ⟨R', hR'⟩ := hbet.extend (hacc.odds_pos hnext) (hacc.getD_nonneg hnext)
    ((not_le.mp hbeats).trans_le hrate) (fun i hi => rate_le_of_take hi hnext hnew)
    ((sum_set_le hacc hnodup hlt).trans hsum.le)
  rw [← htake] at hR'
  exact hlonger _ (Nat.lt_succ_self _) (by rw [order_length] at hk; omega) R' hR'

/-- The chosen outcomes are those that beat the reserve rate. -/
theorem mem_chosenSet_iff (hacc : Accepted fair odds kellyFraction maxExposure)
    (hsum : fair.sum = 1) (i : Fin fair.length) :
    i.val ∈ chosenSet fair odds ↔
      (chosen fair odds).2 < entries fair.length fair i * entries fair.length odds i := by
  constructor
  · exact fun hi => (chosen_spec fair odds).2.1.beats i hi
  · intro hlt
    by_contra hi
    exact (rate_le_reserve hacc hsum i.isLt hi).not_gt hlt

theorem sum_chosenSet (hacc : Accepted fair odds kellyFraction maxExposure) (hsum : fair.sum = 1)
    (g : Nat → ℝ) : ((chosenSet fair odds).map g).sum =
      ∑ i ∈ beating (entries fair.length fair) (entries fair.length odds) (chosen fair odds).2,
        g i := by
  rw [sum_beating _ _ (fun i : Fin fair.length => g i),
    sum_map_eq_sum_ite g (chosenSet_nodup fair odds) fun i => lt_of_mem_chosenSet]
  exact Finset.sum_congr rfl fun i _ => if_congr (mem_chosenSet_iff hacc hsum i) rfl rfl

/-- **The reserve rate of the scan is the reserve rate of the outcomes.** -/
theorem isReserve_chosen (hacc : Accepted fair odds kellyFraction maxExposure)
    (hsum : fair.sum = 1) :
    IsReserve (entries fair.length fair) (entries fair.length odds) (chosen fair odds).2 := by
  obtain ⟨-, hbet, -⟩ := chosen_spec fair odds
  have hq := sum_chosenSet hacc hsum fun i => 1 / odds.getD i 0
  have hp := sum_chosenSet hacc hsum fun i => fair.getD i 0
  exact ⟨hq ▸ hbet.feasible, hq ▸ hp ▸ hbet.balance⟩

/-- The answer the reserve rate `R` of the outcomes determines. -/
structure Determined {n : Nat} (p o : Fin n → ℝ) (kellyFraction maxExposure R : ℝ)
    (a : AllocationResult ℝ) : Prop where
  reserve : IsReserve p o R
  reserveRate : a.reserveRate = R
  stakes : a.stakes n = fun i => scale kellyFraction maxExposure R * reserveStakes p o R i
  totalStake : a.totalStake = min (kellyFraction * (1 - R)) maxExposure
  bets : a.bets = (beating p o R).card
  capped : a.capped = true ↔ maxExposure < kellyFraction * (1 - R)

/-- **What `allocate` answers where the probabilities sum to 1.** -/
theorem determined_allocate {n : Nat} (hn : fair.length = n)
    (hacc : Accepted fair odds kellyFraction maxExposure) (hsum : fair.sum = 1) :
    ∃ R, Determined (entries n fair) (entries n odds) kellyFraction maxExposure R
      (allocate fair odds kellyFraction maxExposure) := by
  subst hn
  have hs := staked_allocate hacc
  refine ⟨(chosen fair odds).2, isReserve_chosen hacc hsum, hs.reserveRate, ?_, hs.totalStake, ?_,
    hs.capped⟩
  · funext i
    rw [AllocationResult.stakes, dif_pos (i.isLt.trans_le hacc.length_le), hs.stake, reserveStakes,
      mul_ite, mul_zero]
    exact if_congr (mem_chosenSet_iff hacc hsum i) rfl rfl
  · have hone := sum_map_eq_sum_ite (fun _ => 1) (chosenSet_nodup fair odds)
      fun i => lt_of_mem_chosenSet
    rw [List.map_const', List.sum_replicate, smul_eq_mul, mul_one] at hone
    rw [hs.bets, hone, beating, Finset.card_filter]
    exact Finset.sum_congr rfl fun i _ => if_congr (mem_chosenSet_iff hacc hsum i) rfl rfl

end Chosen

/-! ## 2. Growth -/

/-- A market of one to four outcomes whose fair probabilities sum to 1. -/
structure FairMarket (fair odds : List ℝ) : Prop where
  ne_nil : fair ≠ []
  length_le : fair.length ≤ kMaxOutcomes
  length_eq : odds.length = fair.length
  fair_nonneg : ∀ p ∈ fair, 0 ≤ p
  sum_eq : fair.sum = 1
  one_lt_odds : ∀ o ∈ odds, 1 < o

/-- The expected log wealth of an answer. -/
noncomputable def logWealth (fair odds : List ℝ) (a : AllocationResult ℝ) : EReal :=
  expectedLog (entries fair.length fair)
    (wealth (entries fair.length odds) (a.stakes fair.length))

section Market

variable {fair odds : List ℝ}

theorem FairMarket.accepted (h : FairMarket fair odds) {kellyFraction maxExposure : ℝ}
    (hk : 0 < kellyFraction) (hm : 0 < maxExposure) :
    Accepted fair odds kellyFraction maxExposure where
  ne_nil := h.ne_nil
  length_le := h.length_le
  length_eq := h.length_eq
  fraction_pos := hk
  exposure_pos := hm
  fair_nonneg := h.fair_nonneg
  one_lt_odds := h.one_lt_odds

theorem FairMarket.entries_nonneg (h : FairMarket fair odds) (i : Fin fair.length) :
    0 ≤ entries fair.length fair i :=
  (h.accepted one_pos one_pos).getD_nonneg i.isLt

theorem FairMarket.entries_pos (h : FairMarket fair odds) (i : Fin fair.length) :
    0 < entries fair.length odds i :=
  (h.accepted one_pos one_pos).odds_pos i.isLt

theorem FairMarket.sum_entries (h : FairMarket fair odds) :
    ∑ i, entries fair.length fair i = 1 :=
  (Kelly.sum_entries fair).trans h.sum_eq

/-- The answers of one market at any fraction and cap go by one reserve rate. -/
theorem FairMarket.determined (h : FairMarket fair odds) :
    ∃ R, ∀ kellyFraction maxExposure : ℝ, 0 < kellyFraction → 0 < maxExposure →
      Determined (entries fair.length fair) (entries fair.length odds) kellyFraction maxExposure R
        (allocate fair odds kellyFraction maxExposure) := by
  obtain ⟨R, hR⟩ := determined_allocate rfl (h.accepted one_pos one_pos) h.sum_eq
  refine ⟨R, fun kellyFraction maxExposure hk hm => ?_⟩
  obtain ⟨R', hR'⟩ := determined_allocate rfl (h.accepted hk hm) h.sum_eq
  rw [hR.reserve.unique h.entries_pos hR'.reserve]
  exact hR'

/-- Full Kelly without a cap is all of the stakes. -/
theorem scale_full {n : Nat} {p o : Fin n → ℝ} {R : ℝ} (hp : ∀ i, 0 ≤ p i) (ho : ∀ i, 0 < o i)
    (hsum : ∑ i, p i = 1) (h : IsReserve p o R) (i : Fin n) :
    scale 1 1 R * reserveStakes p o R i = reserveStakes p o R i := by
  by_cases hi : R < p i * o i
  · have hR : 0 < 1 - R := sub_pos.mpr (h.lt_one ho hi)
    have hone : 1 ≤ 1 / (1 - R) := by
      rw [le_div_iff₀ hR]
      linarith [h.nonneg hp hsum]
    rw [scale, min_eq_left hone, one_mul]
  · rw [reserveStakes, if_neg hi, mul_zero]

/-- **Full Kelly maximises the expected log wealth**, over all stakes that are not negative and do
    not exceed the bankroll. -/
theorem allocate_optimal (h : FairMarket fair odds) :
    (∀ i, 0 ≤ (allocate fair odds 1 1).stakes fair.length i) ∧
    ∑ i, (allocate fair odds 1 1).stakes fair.length i ≤ 1 ∧
    ∀ g : Fin fair.length → ℝ, (∀ i, 0 ≤ g i) → ∑ i, g i ≤ 1 →
      expectedLog (entries fair.length fair) (wealth (entries fair.length odds) g) ≤
        logWealth fair odds (allocate fair odds 1 1) := by
  obtain ⟨R, hdet⟩ := h.determined
  have hR := (hdet 1 1 one_pos one_pos).reserve
  have hstakes : (allocate fair odds 1 1).stakes fair.length =
      reserveStakes (entries fair.length fair) (entries fair.length odds) R := by
    rw [(hdet 1 1 one_pos one_pos).stakes]
    exact funext fun i => scale_full h.entries_nonneg h.entries_pos h.sum_entries hR i
  rw [logWealth, hstakes]
  refine ⟨fun i => reserveStakes_nonneg h.entries_pos R i, ?_, fun g hg hg1 => ?_⟩
  · rw [sum_reserveStakes hR]
    linarith [hR.nonneg h.entries_nonneg h.sum_entries]
  · exact hR.optimal h.entries_nonneg h.entries_pos h.sum_entries hg hg1

theorem fairMarket_arbitrage : FairMarket [1 / 2, 1 / 2] [21 / 10, 21 / 10] where
  ne_nil := List.cons_ne_nil _ _
  length_le := Nat.le_add_right 2 2
  length_eq := rfl
  fair_nonneg := by norm_num
  sum_eq := by norm_num
  one_lt_odds := by norm_num

/-- A quarter on each is no better. -/
theorem allocate_optimal_arbitrage :
    expectedLog (entries 2 [1 / 2, 1 / 2]) (wealth (entries 2 [21 / 10, 21 / 10]) fun _ => 1 / 4) ≤
      logWealth [1 / 2, 1 / 2] [21 / 10, 21 / 10]
        (allocate [1 / 2, 1 / 2] [21 / 10, 21 / 10] 1 1) :=
  (allocate_optimal fairMarket_arbitrage).2.2 (fun _ => 1 / 4) (fun _ => by norm_num)
    (by norm_num [Fin.sum_univ_two])

/-- **Growth is never negative**, and only grows with the Kelly fraction, up to 1, and the cap. -/
theorem allocate_mono (h : FairMarket fair odds)
    {kellyFraction kellyFraction' maxExposure maxExposure' : ℝ} (hk : 0 < kellyFraction)
    (hkk : kellyFraction ≤ kellyFraction') (hk1 : kellyFraction' ≤ 1) (hm : 0 < maxExposure)
    (hmm : maxExposure ≤ maxExposure') :
    0 ≤ logWealth fair odds (allocate fair odds kellyFraction maxExposure) ∧
      logWealth fair odds (allocate fair odds kellyFraction maxExposure) ≤
        logWealth fair odds (allocate fair odds kellyFraction' maxExposure') := by
  obtain ⟨R, hdet⟩ := h.determined
  have hd := hdet kellyFraction maxExposure hk hm
  have hd' := hdet kellyFraction' maxExposure' (hk.trans_le hkk) (hm.trans_le hmm)
  have hR1 : 0 ≤ 1 - R := sub_nonneg.mpr (hd.reserve.le_one h.entries_pos)
  have hscale : scale kellyFraction maxExposure R ≤ scale kellyFraction' maxExposure' R :=
    min_le_min hkk (div_le_div_of_nonneg_right hmm hR1)
  have hscale0 : 0 ≤ scale kellyFraction maxExposure R := le_min hk.le (div_nonneg hm.le hR1)
  have hscale1 : scale kellyFraction' maxExposure' R ≤ 1 := (min_le_left _ _).trans hk1
  have hmono := fun {a b : ℝ} => hd.reserve.scaled_mono (a := a) (b := b) h.entries_nonneg
    h.entries_pos h.sum_entries
  unfold logWealth
  rw [hd.stakes, hd'.stakes]
  refine ⟨?_, hmono hscale0 hscale hscale1⟩
  have hzero := hmono (le_refl 0) hscale0 (hscale.trans hscale1)
  simp only [zero_mul] at hzero
  rw [expectedLog_unstaked] at hzero
  exact hzero

theorem allocate_mono_arbitrage :
    0 ≤ logWealth [1 / 2, 1 / 2] [21 / 10, 21 / 10]
        (allocate [1 / 2, 1 / 2] [21 / 10, 21 / 10] (1 / 4) (1 / 10)) ∧
      logWealth [1 / 2, 1 / 2] [21 / 10, 21 / 10]
          (allocate [1 / 2, 1 / 2] [21 / 10, 21 / 10] (1 / 4) (1 / 10)) ≤
        logWealth [1 / 2, 1 / 2] [21 / 10, 21 / 10]
          (allocate [1 / 2, 1 / 2] [21 / 10, 21 / 10] (1 / 2) 1) :=
  allocate_mono fairMarket_arbitrage (by norm_num) (by norm_num) (by norm_num) (by norm_num)
    (by norm_num)

end Market

/-! ## 3. Another numbering -/

/-- Which outcomes are staked is up to their rates. -/
theorem Determined.stakes_pos_iff {n : Nat} {p o : Fin n → ℝ} {kellyFraction maxExposure R : ℝ}
    {a : AllocationResult ℝ} (h : Determined p o kellyFraction maxExposure R a)
    (ho : ∀ i, 0 < o i) (hk : 0 < kellyFraction) (hm : 0 < maxExposure) (i : Fin n) :
    0 < a.stakes n i ↔ 0 < scale kellyFraction maxExposure R ∧ R < p i * o i := by
  have hR1 : 0 ≤ 1 - R := sub_nonneg.mpr (h.reserve.le_one ho)
  have hscale0 : 0 ≤ scale kellyFraction maxExposure R := le_min hk.le (div_nonneg hm.le hR1)
  have hstake0 := reserveStakes_nonneg (p := p) ho R i
  rw [h.stakes, ← reserveStakes_pos_iff ho]
  exact ⟨fun hpos => ⟨hscale0.lt_of_ne' (left_ne_zero_of_mul hpos.ne'),
    hstake0.lt_of_ne' (right_ne_zero_of_mul hpos.ne')⟩, fun hpos => mul_pos hpos.1 hpos.2⟩

/-- More than four outcomes are turned down. -/
theorem allocate_of_long {fair odds : List ℝ} {kellyFraction maxExposure : ℝ}
    (h : ¬ fair.length ≤ kMaxOutcomes) :
    allocate fair odds kellyFraction maxExposure = AllocationResult.init := by
  have hv : validArgs fair odds kellyFraction maxExposure = false :=
    Bool.eq_false_of_not_eq_true fun hv => h (pos_of_validArgs hv).1
  unfold allocate
  rw [hv]
  rfl

theorem stakes_init {n : Nat} (i : Fin n) :
    (AllocationResult.init : AllocationResult ℝ).stakes n i = 0 := by
  unfold AllocationResult.stakes
  split <;> rfl

/-- `a'` is the answer `a` with the outcomes renumbered. -/
structure Renumbered {n : Nat} (σ : Equiv.Perm (Fin n)) (a a' : AllocationResult ℝ) : Prop where
  stakes : ∀ i, a'.stakes n i = a.stakes n (σ i)
  reserveRate : a'.reserveRate = a.reserveRate
  totalStake : a'.totalStake = a.totalStake
  bets : a'.bets = a.bets
  capped : a'.capped = a.capped

/-- **The numbering of the outcomes does not matter**, and neither does the order in which the sort
    leaves outcomes of one rate. -/
theorem allocate_equivariant {n : Nat} {fair odds : Fin n → ℝ} {kellyFraction maxExposure : ℝ}
    (hfair : ∀ i, 0 ≤ fair i) (hsum : ∑ i, fair i = 1) (hodds : ∀ i, 1 < odds i)
    (hk : 0 < kellyFraction) (hm : 0 < maxExposure) (σ : Equiv.Perm (Fin n)) :
    Renumbered σ (allocate (List.ofFn fair) (List.ofFn odds) kellyFraction maxExposure)
        (allocate (List.ofFn (fair ∘ σ)) (List.ofFn (odds ∘ σ)) kellyFraction maxExposure) ∧
      ∀ i j, fair i * odds i = fair j * odds j →
        (0 < (allocate (List.ofFn fair) (List.ofFn odds) kellyFraction maxExposure).stakes n i ↔
          0 < (allocate (List.ofFn fair) (List.ofFn odds) kellyFraction maxExposure).stakes n j) := by
  have hodds0 : ∀ i, 0 < odds i := fun i => one_pos.trans (hodds i)
  by_cases hn : n ≤ kMaxOutcomes
  · have hne : n ≠ 0 := by
      rintro rfl
      simp at hsum
    have haccepted : ∀ p o : Fin n → ℝ, (∀ i, 0 ≤ p i) → (∀ i, 1 < o i) →
        Accepted (List.ofFn p) (List.ofFn o) kellyFraction maxExposure := by
      intro p o hp ho
      refine ⟨fun hnil => hne (List.ofFn_eq_nil_iff.mp hnil), ?_, ?_, hk, hm,
        List.forall_mem_ofFn_iff.mpr hp, List.forall_mem_ofFn_iff.mpr ho⟩
      · rw [List.length_ofFn]
        exact hn
      · rw [List.length_ofFn, List.length_ofFn]
    have hsum' : ∑ i, (fair ∘ σ) i = 1 := (Equiv.sum_comp σ fair).trans hsum
    obtain ⟨R, hd⟩ := determined_allocate (n := n) List.length_ofFn (haccepted fair odds hfair hodds)
      (List.sum_ofFn.trans hsum)
    obtain ⟨R', hd'⟩ := determined_allocate (n := n) List.length_ofFn
      (haccepted (fair ∘ σ) (odds ∘ σ) (fun i => hfair _) fun i => hodds _)
      (List.sum_ofFn.trans hsum')
    rw [entries_ofFn, entries_ofFn] at hd hd'
    obtain rfl : R' = R :=
      hd'.reserve.unique (fun i => hodds0 (σ i)) (isReserve_comp σ hd.reserve)
    refine ⟨⟨fun i => ?_, ?_, ?_, ?_, ?_⟩, fun i j hij => ?_⟩
    · rw [hd'.stakes, hd.stakes]
      rfl
    · rw [hd'.reserveRate, hd.reserveRate]
    · rw [hd'.totalStake, hd.totalStake]
    · rw [hd'.bets, hd.bets, card_beating_comp]
    · exact Bool.eq_iff_iff.mpr (hd'.capped.trans hd.capped.symm)
    · rw [hd.stakes_pos_iff hodds0 hk hm, hd.stakes_pos_iff hodds0 hk hm, hij]
  · have hinit : ∀ p o : Fin n → ℝ, allocate (List.ofFn p) (List.ofFn o) kellyFraction maxExposure =
        AllocationResult.init :=
      fun p o => allocate_of_long (by rw [List.length_ofFn]; exact hn)
    rw [hinit fair odds, hinit (fair ∘ σ) (odds ∘ σ)]
    refine ⟨⟨fun i => ?_, rfl, rfl, rfl, rfl⟩, fun i j _ => ?_⟩
    · rw [stakes_init, stakes_init]
    · rw [stakes_init, stakes_init]

theorem allocate_equivariant_swap :
    (allocate (List.ofFn (![2 / 5, 3 / 5] ∘ Equiv.swap (0 : Fin 2) 1))
        (List.ofFn (![3, 2] ∘ Equiv.swap (0 : Fin 2) 1)) (1 / 4) (1 : ℝ)).stakes 2 0 =
      (allocate (List.ofFn ![2 / 5, 3 / 5]) (List.ofFn ![3, 2]) (1 / 4) (1 : ℝ)).stakes 2 1 :=
  (allocate_equivariant (Fin.forall_fin_two.mpr (by norm_num)) (by norm_num [Fin.sum_univ_two])
    (Fin.forall_fin_two.mpr (by norm_num)) (by norm_num) one_pos (Equiv.swap (0 : Fin 2) 1)).1.stakes 0

end Kelly

end OddsEngine
