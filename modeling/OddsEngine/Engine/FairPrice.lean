/-
  File:      OddsEngine/Engine/FairPrice.lean
  Subject:   What a fair price is, over the reals (engine/Consensus.hpp under engine/main.cpp).

  The average of distributions is a distribution: the accumulator keeps positive entries whose sum
  is the weight so far, to within the same tolerance (`Mean`), from the first contributing book on.
  The gate in front of it lets nothing else in (`normalized_quoteInput`), so every fair price
  of every table that no record of more than four outcomes touched is one
  (`fairPrice_of_reachable`), and the books that are stale or whose devig is not `Ok` have no part
  in it.
-/
import Mathlib.Algebra.BigOperators.Field
import OddsEngine.Engine.DevigReal
import OddsEngine.Engine.RejectedRecords

namespace OddsEngine

open Lib

/-! ## 1. The mean of distributions -/

namespace Consensus

/-- The sum of the first `n` entries. -/
noncomputable def mass (p : ProbVector ℝ) (n : Nat) : ℝ :=
  ∑ i : Fin kMaxOutcomes, if i.val < n then p i else 0

/-- Books of `n` outcomes have been added: the entries are positive, and sum to the weight. -/
structure Mean (out : ConsensusResult ℝ) (n : Nat) : Prop where
  count : out.count.toNat = n
  weight_pos : 0 < out.totalWeight
  pos : ∀ i : Fin kMaxOutcomes, i.val < n → 0 < out.prob i
  sum : |mass out.prob n - out.totalWeight| < 1e-13 * out.totalWeight

/-- A book adds its weight times its mass. -/
theorem mass_addBook (out : ConsensusResult ℝ) (b : BookInput ℝ) :
    mass (addBook out b).prob b.count.toNat =
      mass out.prob b.count.toNat + b.weight * mass b.prob b.count.toNat := by
  have hterm : ∀ i : Fin kMaxOutcomes,
      (if i.val < b.count.toNat then (addBook out b).prob i else 0) =
        (if i.val < b.count.toNat then out.prob i else 0) +
          b.weight * (if i.val < b.count.toNat then b.prob i else 0) := by
    intro i
    by_cases hi : i.val < b.count.toNat
    · simp only [addBook, hi, if_true]
    · simp only [hi, if_false, mul_zero, add_zero]
  unfold mass
  rw [Finset.sum_congr rfl fun i _ => hterm i, Finset.sum_add_distrib, ← Finset.mul_sum]

/-- One distribution added keeps the mean, also as the first. -/
theorem mean_addBook {out : ConsensusResult ℝ} {b : BookInput ℝ}
    (hcount : b.count = out.count) (hweight : 0 ≤ out.totalWeight)
    (hpos : ∀ i : Fin kMaxOutcomes, i.val < b.count.toNat → 0 ≤ out.prob i)
    (hsum : |mass out.prob b.count.toNat - out.totalWeight| ≤ 1e-13 * out.totalWeight)
    (hb : IsDistribution b.prob b.count.toNat) (hw : 0 < b.weight) :
    Mean (addBook out b) b.count.toNat where
  count := congrArg UInt8.toNat hcount.symm
  weight_pos := by
    show 0 < out.totalWeight + b.weight
    linarith
  pos i hi := by
    have hterm : 0 < b.weight * b.prob i := mul_pos hw (hb.pos i hi)
    have hold : 0 ≤ out.prob i := hpos i hi
    show 0 < if i.val < b.count.toNat then out.prob i + b.weight * b.prob i else out.prob i
    rw [if_pos hi]
    linarith
  sum := by
    have hmass : |mass b.prob b.count.toNat - 1| < 1e-13 := hb.sum
    have hscaled : |b.weight * (mass b.prob b.count.toNat - 1)| < 1e-13 * b.weight := by
      rw [abs_mul, abs_of_pos hw, mul_comm]
      exact mul_lt_mul_of_pos_right hmass hw
    show |_ - (out.totalWeight + b.weight)| < 1e-13 * (out.totalWeight + b.weight)
    rw [mass_addBook]
    calc |mass out.prob b.count.toNat + b.weight * mass b.prob b.count.toNat -
          (out.totalWeight + b.weight)|
        = |(mass out.prob b.count.toNat - out.totalWeight) +
            b.weight * (mass b.prob b.count.toNat - 1)| := by ring_nf
      _ ≤ |mass out.prob b.count.toNat - out.totalWeight| +
            |b.weight * (mass b.prob b.count.toNat - 1)| := abs_add_le _ _
      _ < 1e-13 * out.totalWeight + 1e-13 * b.weight := by linarith
      _ = 1e-13 * (out.totalWeight + b.weight) := by ring

/-- A book that counts is a distribution. -/
def Normalized (b : BookInput ℝ) : Prop :=
  Counts b = true → IsDistribution b.prob b.count.toNat

theorem weight_pos_of_counts {b : BookInput ℝ} (h : Counts b = true) : 0 < b.weight := by
  unfold Counts at h
  simp only [Bool.not_or, Bool.not_not, Bool.and_eq_true, Bool.not_eq_true',
    decide_eq_false_iff_not, not_le] at h
  exact h.2

/-- One round of the loop keeps the mean. -/
theorem mean_fairStep {out : ConsensusResult ℝ} {b : BookInput ℝ} {n : Nat}
    (h : out.booksUsed ≠ 0 ∧ Mean out n) (hb : Normalized b) :
    (fairStep out b).booksUsed ≠ 0 ∧ Mean (fairStep out b) n := by
  obtain ⟨hused, hmean⟩ := h
  by_cases hc : Counts b = true
  · by_cases heq : b.count = out.count
    · have hn : b.count.toNat = n := (congrArg UInt8.toNat heq).trans hmean.count
      rw [fairStep_of_match out b hc hused heq]
      subst hn
      exact ⟨Nat.succ_ne_zero _, mean_addBook heq hmean.weight_pos.le
        (fun i hi => (hmean.pos i hi).le) hmean.sum.le (hb hc) (weight_pos_of_counts hc)⟩
    · rw [fairStep_of_mismatch out b hused heq]
      exact ⟨hused, hmean⟩
  · rw [fairStep_of_not_counts out b (Bool.eq_false_of_not_eq_true hc)]
    exact ⟨hused, hmean⟩

/-- The first book that counts starts the mean. -/
theorem mean_first {b : BookInput ℝ} (hc : Counts b = true) (hb : Normalized b) :
    (fairStep ConsensusResult.init b).booksUsed ≠ 0 ∧
      Mean (fairStep ConsensusResult.init b) b.count.toNat := by
  have hstart : mass (start b.count : ConsensusResult ℝ).prob b.count.toNat = 0 := by
    unfold mass
    exact Finset.sum_eq_zero fun i _ => ite_self _
  have hzero : (start b.count : ConsensusResult ℝ).totalWeight = 0 := rfl
  rw [fairStep_init b hc]
  refine ⟨Nat.succ_ne_zero _, mean_addBook rfl hzero.ge (fun _ _ => le_refl _) ?_ (hb hc)
    (weight_pos_of_counts hc)⟩
  rw [hstart, hzero]
  norm_num

/-- What the loop keeps: no book has counted yet, or the books so far have a mean. -/
def MeanSoFar (out : ConsensusResult ℝ) : Prop :=
  out = ConsensusResult.init ∨
    ∃ n, 2 ≤ n ∧ n ≤ kMaxOutcomes ∧ out.booksUsed ≠ 0 ∧ Mean out n

theorem meanSoFar_fairStep {out : ConsensusResult ℝ} {b : BookInput ℝ} (h : MeanSoFar out)
    (hb : Normalized b) : MeanSoFar (fairStep out b) := by
  rcases h with rfl | ⟨n, h2, h4, hmean⟩
  · by_cases hc : Counts b = true
    · have hdist := hb hc
      exact Or.inr ⟨_, hdist.two_le, hdist.le_max, mean_first hc hb⟩
    · rw [fairStep_of_not_counts _ b (Bool.eq_false_of_not_eq_true hc)]
      exact Or.inl rfl
  · exact Or.inr ⟨n, h2, h4, mean_fairStep hmean hb⟩

theorem meanSoFar_foldl {books : List (BookInput ℝ)} (h : ∀ b ∈ books, Normalized b)
    {out : ConsensusResult ℝ} (hout : MeanSoFar out) : MeanSoFar (books.foldl fairStep out) := by
  induction books generalizing out with
  | nil => exact hout
  | cons b books ih =>
    exact ih (fun x hx => h x (List.mem_cons_of_mem b hx))
      (meanSoFar_fairStep hout (h b List.mem_cons_self))

/-- Dividing a mean by its weight makes it a distribution. -/
theorem isDistribution_of_mean {out : ConsensusResult ℝ} {n : Nat} (h2 : 2 ≤ n)
    (h4 : n ≤ kMaxOutcomes) (h : Mean out n) :
    IsDistribution (fun i => if i.val < n then out.prob i / out.totalWeight else out.prob i) n where
  two_le := h2
  le_max := h4
  pos i hi := by
    show 0 < if i.val < n then out.prob i / out.totalWeight else out.prob i
    rw [if_pos hi]
    exact div_pos (h.pos i hi) h.weight_pos
  sum := by
    have hterm : ∀ i : Fin kMaxOutcomes,
        (if i.val < n then
            (if i.val < n then out.prob i / out.totalWeight else out.prob i) else 0) =
          (if i.val < n then out.prob i else 0) / out.totalWeight := by
      intro i
      by_cases hi : i.val < n
      · simp only [hi, if_true]
      · simp only [hi, if_false, zero_div]
    have hmass : (∑ i : Fin kMaxOutcomes, (if i.val < n then
        (if i.val < n then out.prob i / out.totalWeight else out.prob i) else 0)) =
        mass out.prob n / out.totalWeight := by
      unfold mass
      rw [Finset.sum_congr rfl fun i _ => hterm i, Finset.sum_div]
    have hW : out.totalWeight ≠ 0 := h.weight_pos.ne'
    rw [hmass, div_sub_one hW, abs_div, abs_of_pos h.weight_pos, div_lt_iff₀ h.weight_pos]
    exact h.sum

/-- **The price of books that are distributions is a distribution.** -/
theorem isDistribution_fairPrice {books : List (BookInput ℝ)} (h : ∀ b ∈ books, Normalized b)
    (hfair : (fairPrice books).hasFairPrice = true) :
    IsDistribution (fairPrice books).prob (fairPrice books).count.toNat := by
  have hfold := meanSoFar_foldl h (Or.inl rfl)
  unfold fairPrice at hfair ⊢
  dsimp only at hfair ⊢
  rcases hfold with hinit | ⟨n, h2, h4, _, hmean⟩
  · rw [if_pos (by rw [hinit]; exact le_refl (0 : ℝ))] at hfair
    exact absurd hfair Bool.false_ne_true
  · rw [if_neg (not_le.mpr hmean.weight_pos)]
    have hn := hmean.count
    subst hn
    exact isDistribution_of_mean h2 h4 hmean

/-- The price of one book alone is what that book says. -/
theorem fairPrice_singleton {b : BookInput ℝ} (hc : Counts b = true) :
    (fairPrice [b]).hasFairPrice = true ∧ (fairPrice [b]).count = b.count ∧
      ∀ i : Fin kMaxOutcomes, i.val < b.count.toNat → (fairPrice [b]).prob i = b.prob i := by
  have hw : 0 < b.weight := weight_pos_of_counts hc
  have htotal : ¬ (addBook (start b.count) b).totalWeight ≤ 0 := by
    show ¬ (0 : ℝ) + b.weight ≤ 0
    linarith
  unfold fairPrice
  rw [List.foldl_cons, List.foldl_nil, fairStep_init b hc]
  dsimp only
  rw [if_neg htotal]
  refine ⟨rfl, rfl, fun i hi => ?_⟩
  have hsum : (addBook (start b.count) b).prob i = 0 + b.weight * b.prob i := if_pos hi
  show (if i.val < b.count.toNat then (addBook (start b.count) b).prob i / (0 + b.weight) else _) = _
  rw [if_pos hi, hsum, zero_add, zero_add, mul_div_cancel_left₀ _ hw.ne']

/-- The books that do not count could as well not be there. -/
theorem fairPrice_filter {F : Type} [DoubleArith F] (books : List (BookInput F)) :
    fairPrice (books.filter Counts) = fairPrice books := by
  have hfold : ∀ out : ConsensusResult F,
      (books.filter Counts).foldl fairStep out = books.foldl fairStep out := by
    induction books with
    | nil => exact fun _ => rfl
    | cons b books ih =>
      intro out
      by_cases hc : Counts b = true
      · rw [List.filter_cons_of_pos hc, List.foldl_cons, List.foldl_cons, ih]
      · rw [List.filter_cons_of_neg hc, List.foldl_cons,
          fairStep_of_not_counts out b (Bool.eq_false_of_not_eq_true hc), ih]
  unfold fairPrice
  rw [hfold]

end Consensus

/-! ## 2. What the gate lets in -/

/-- A quote the consensus may use is a distribution over the outcomes it states. -/
theorem normalized_quoteInput {method : DevigMethod} {q : Quote}
    (hq : q.outcomeCount.toNat ≤ kMaxOutcomes) :
    Consensus.Normalized (quoteInput method q : BookInput ℝ) := by
  intro hc
  by_cases hu : Usable ℝ method q
  · have hdist := Devig.isDistribution_runDevig hu
    rw [length_quoteOdds hq, ← quoteInput_count hu hq] at hdist
    refine hdist.congr fun i hi => ?_
    unfold quoteInput at hi ⊢
    rw [if_pos hu] at hi ⊢
    exact if_pos hi
  · unfold quoteInput at hc
    rw [if_neg hu] at hc
    exact absurd hc Bool.false_ne_true

section Market

variable {F : Type} [DoubleArith F] (cfg : LiveConfig F) (table : Table) (shape : Shape)
  (m : Fin shape.markets) (ts : UInt64)

/-- The books of the market with a quote that is not stale and whose devig is `Ok`. -/
def okBooks : List (Fin shape.books) :=
  (List.finRange shape.books).filter fun b =>
    decide (Fresh cfg table (shape.slot m b) ts) &&
      (runDevig cfg.devigMethod (quoteOdds (table.get (shape.slot m b)) : List F)).status == .ok

/-- A market's price is made of these books, and of no others. -/
theorem marketFair_eq_okBooks [Consensus.UnitWeights F] :
    marketFair cfg table shape m ts = Consensus.fairPrice ((okBooks cfg table shape m ts).map
      fun b => quoteInput cfg.devigMethod (table.get (shape.slot m b))) := by
  have hcounts : ∀ b, Consensus.Counts (bookInput cfg table (shape.slot m b) ts) =
      (decide (Fresh cfg table (shape.slot m b) ts) && (runDevig cfg.devigMethod
        (quoteOdds (table.get (shape.slot m b)) : List F)).status == .ok) := by
    intro b
    rw [Bool.eq_iff_iff, Consensus.counts_iff (unitBook_bookInput cfg table ts _),
      available_bookInput, Bool.and_eq_true, decide_eq_true_iff, beq_iff_eq]
    exact and_congr_right fun _ => usable_runDevig_iff _ _
  have hfilter : (marketInputs cfg table shape m ts).filter Consensus.Counts =
      (okBooks cfg table shape m ts).map fun b => bookInput cfg table (shape.slot m b) ts := by
    unfold marketInputs okBooks
    rw [List.filter_map]
    exact congrArg _ (List.filter_congr fun b _ => hcounts b)
  unfold marketFair
  rw [← Consensus.fairPrice_filter, hfilter]
  refine congrArg _ (List.map_congr_left fun b hb => ?_)
  have hok := (List.mem_filter.mp hb).2
  rw [Bool.and_eq_true, decide_eq_true_iff] at hok
  unfold bookInput
  rw [if_pos hok.1]

end Market

/-- The price of a market is a distribution, where there is one. -/
theorem isDistribution_marketFair (cfg : LiveConfig ℝ) {table : Table} (shape : Shape)
    (m : Fin shape.markets) (ts : UInt64) (hok : CountsOk table)
    (hfair : (marketFair cfg table shape m ts).hasFairPrice = true) :
    IsDistribution (marketFair cfg table shape m ts).prob
      (marketFair cfg table shape m ts).count.toNat := by
  refine Consensus.isDistribution_fairPrice (fun input hin => ?_) hfair
  obtain ⟨b, _, rfl⟩ := List.mem_map.mp hin
  unfold bookInput
  split
  · exact normalized_quoteInput (hok _)
  · exact fun hc => absurd hc Bool.false_ne_true

/-- **Every fair price is a distribution**, whatever records of at most four outcomes the table was
    built from, whatever the configuration and the time: two to four positive entries that sum to 1
    within 1e-13. It is the consensus of the books that are not stale and whose devig is `Ok`; the
    others have no part in it. -/
theorem fairPrice_of_reachable (calls : List (OddsUpdate × UInt64))
    (hcount : ∀ c ∈ calls, c.1.outcomeCount.toNat ≤ kMaxOutcomes) (cfg : LiveConfig ℝ)
    (betlog : Bool) (shape : Shape) (m : Fin shape.markets) (ts : UInt64) :
    let table := BookTable.after 1024 16 calls
    ∃ fair bets, priceMarket cfg betlog table shape m ts = .ok (fair, bets) ∧
      (fair.hasFairPrice = true → IsDistribution fair.prob fair.count.toNat) ∧
      fair = Consensus.fairPrice ((okBooks cfg table shape m ts).map
        fun b => quoteInput cfg.devigMethod (table.get (shape.slot m b))) := by
  intro table
  have hok : CountsOk table := countsOk_applyAll hcount countsOk_empty
  exact ⟨_, _, priceMarket_eq cfg betlog table shape (hok.marketInBounds cfg shape m ts),
    isDistribution_marketFair cfg shape m ts hok, marketFair_eq_okBooks cfg table shape m ts⟩

/-- One book that quotes 1.9 on both sides: there is a price, and it is a distribution. -/
theorem fairPrice_of_reachable_evenQuote :
    let table : Table := BookTable.after 1024 16 [(evenQuote, 0)]
    ∃ fair bets,
      priceMarket plainOptions.initial.cfg true table oneBook ⟨0, by decide⟩ 100000000 =
        .ok (fair, bets) ∧
      fair.hasFairPrice = true ∧ IsDistribution fair.prob fair.count.toNat := by
  intro table
  obtain ⟨fair, bets, hprice, hdist, _⟩ := fairPrice_of_reachable [(evenQuote, 0)] (by decide)
    plainOptions.initial.cfg true oneBook ⟨0, by decide⟩ 100000000
  have hfair : fair.hasFairPrice = true := by
    have hok : CountsOk table := countsOk_applyAll (by decide) countsOk_empty
    have heq := priceMarket_eq plainOptions.initial.cfg true table oneBook
      (hok.marketInBounds plainOptions.initial.cfg oneBook ⟨0, by decide⟩ 100000000)
    have hsame := (Prod.mk.inj (Except.ok.inj (hprice.symm.trans heq))).1
    have htable : table = [evenQuote].foldl BookTable.receive {} := rfl
    have hslot : oneBook.slot ⟨0, by decide⟩ ⟨0, by decide⟩ = (0, 0) := rfl
    rw [hsame, hasFairPrice_marketFair_iff, htable]
    refine ⟨⟨0, by decide⟩, ?_⟩
    rw [hslot, get_evenQuote]
    exact ⟨fresh_evenQuote, usable_evenQuote⟩
  exact ⟨fair, bets, hprice, hfair, hdist hfair⟩

end OddsEngine
