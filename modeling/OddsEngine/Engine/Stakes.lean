/-
  File:      OddsEngine/Engine/Stakes.lean
  Subject:   The bets a run logs, over the reals (`process_tick`, engine/main.cpp).

  Each tick prices and sizes every market under one configuration, the one its `service()` left.
  What it logs for a market is `MarketBetsOk`: positive stakes that sum to at most the cap, taken at
  the highest odds over the books that are not stale, at outcomes of the price
  (`marketBetsOk_marketBets`, and for whole runs `bets_of_run`). Where these odds leave room for a
  profit whatever happens, it does log something (`marketBets_ne_nil`).

  A market that logs nothing stakes nothing, and nothing is more than a negative cap
  (`not_sum_le_exposure`): the command line takes any number for `--max-exposure`.
-/
import Mathlib.Algebra.BigOperators.Group.List.Lemmas
import Mathlib.Algebra.Order.BigOperators.Group.List
import OddsEngine.Engine.DevigShares
import OddsEngine.Engine.KellySet
import OddsEngine.Engine.UnusableQuotes

namespace OddsEngine

open Lib

/-- What the bets on one market at one tick keep, under the configuration `cfg`. -/
structure MarketBetsOk (cfg : LiveConfig ℝ) (table : Table) (shape : Shape) (m : Fin shape.markets)
    (ts : UInt64) (fair : ConsensusResult ℝ) (bets : List (BetRecord ℝ)) : Prop where
  stake_pos : ∀ r ∈ bets, 0 < r.stake
  /-- A market that logs a bet at all stays within the cap. -/
  sum_stakes_le : bets ≠ [] → (bets.map BetRecord.stake).sum ≤ cfg.maxExposure
  outcome_lt : ∀ r ∈ bets, r.outcome.toNat < fair.count.toNat
  bettable : ∀ r ∈ bets, kMinOddsMilli ≤ r.oddsMilliTaken
  /-- The odds taken are the highest of the books that are not stale and quote the outcome. -/
  odds_max : ∀ r ∈ bets, ∃ i : Fin kMaxOutcomes, i.val = r.outcome.toNat ∧
    (∃ b, Fresh cfg table (shape.slot m b) ts ∧ Quotes table shape m b i ∧
      (table.get (shape.slot m b)).oddsMilli i = r.oddsMilliTaken) ∧
    ∀ b, Fresh cfg table (shape.slot m b) ts → Quotes table shape m b i →
      (table.get (shape.slot m b)).oddsMilli i ≤ r.oddsMilliTaken

theorem marketBetsOk_nil (cfg : LiveConfig ℝ) (table : Table) (shape : Shape)
    (m : Fin shape.markets) (ts : UInt64) (fair : ConsensusResult ℝ) :
    MarketBetsOk cfg table shape m ts fair [] where
  stake_pos _ hr := absurd hr List.not_mem_nil
  sum_stakes_le h := absurd rfl h
  outcome_lt _ hr := absurd hr List.not_mem_nil
  bettable _ hr := absurd hr List.not_mem_nil
  odds_max _ hr := absurd hr List.not_mem_nil

/-! ## 1. One market -/

/-- The outcomes without a stake add nothing to the total logged. -/
theorem sum_stakedRecords (ts : UInt64) (market : UInt16) (fair : ConsensusResult ℝ)
    (best : BestOdds) {stake : Fin Kelly.kMaxOutcomes → ℝ} (hpos : ∀ i, 0 ≤ stake i) :
    ((stakedRecords ts market fair best stake).map BetRecord.stake).sum =
      (((List.finRange kMaxOutcomes).take fair.count.toNat).map stake).sum := by
  unfold stakedRecords
  induction (List.finRange kMaxOutcomes).take fair.count.toNat with
  | nil => rfl
  | cons i is ih =>
    rw [List.flatMap_cons, List.map_append, List.sum_append, List.map_cons, List.sum_cons, ih]
    congr 1
    by_cases hs : stake i ≤ 0
    · rw [if_pos hs]
      exact le_antisymm (hpos i) hs
    · rw [if_neg hs]
      exact List.sum_singleton

/-- What is logged is at most what is staked over all outcomes. -/
theorem sum_stakedRecords_le (ts : UInt64) (market : UInt16) (fair : ConsensusResult ℝ)
    (best : BestOdds) {stake : Fin Kelly.kMaxOutcomes → ℝ} (hpos : ∀ i, 0 ≤ stake i) :
    ((stakedRecords ts market fair best stake).map BetRecord.stake).sum ≤ ∑ i, stake i := by
  have hsub : (((List.finRange kMaxOutcomes).take fair.count.toNat).map stake).Sublist
      ((List.finRange kMaxOutcomes).map stake) := (List.take_sublist _ _).map stake
  have hle := hsub.sum_le_sum fun x hx => by
    obtain ⟨i, _, rfl⟩ := List.mem_map.mp hx
    exact hpos i
  rw [sum_stakedRecords ts market fair best hpos, Fin.sum_univ_def]
  exact hle

/-- The first `n` entries. -/
theorem mem_take_ofFn {α : Type} {f : Fin kMaxOutcomes → α} {n : Nat} {x : α} :
    x ∈ (List.ofFn f).take n ↔ ∃ i : Fin kMaxOutcomes, i.val < n ∧ f i = x := by
  rw [List.ofFn_eq_map, ← List.map_take, List.mem_map]
  exact exists_congr fun i => and_congr_left fun _ => mem_take_finRange i

theorem length_take_ofFn {α : Type} (f : Fin kMaxOutcomes → α) {n : Nat} (hn : n ≤ kMaxOutcomes) :
    ((List.ofFn f).take n).length = n := by
  rw [List.length_take, List.length_ofFn]
  exact min_eq_left hn

theorem getD_take_ofFn {α : Type} (f : Fin kMaxOutcomes → α) {n : Nat} {i : Fin kMaxOutcomes}
    (hi : i.val < n) (d : α) : ((List.ofFn f).take n).getD i.val d = f i := by
  have hlt : i.val < kMaxOutcomes := i.isLt
  rw [List.getD_eq_getElem?_getD, List.getElem?_take_of_lt hi, List.getElem?_ofFn, dif_pos hlt]
  rfl

/-- Every outcome is quoted exactly where each one's best odds are bettable. -/
theorem allQuoted_iff {best : BestOdds} {n : Nat} :
    allQuoted best n = true ↔ ∀ i : Fin kMaxOutcomes, i.val < n → kMinOddsMilli ≤ best i := by
  unfold allQuoted
  rw [List.all_eq_true]
  constructor
  · intro h i hi
    have hone := h _ (mem_take_ofFn.mpr ⟨i, hi, rfl⟩)
    rw [Bool.not_eq_true', decide_eq_false_iff_not] at hone
    exact not_lt.mp hone
  · intro h o ho
    obtain ⟨i, hi, rfl⟩ := mem_take_ofFn.mp ho
    rw [Bool.not_eq_true', decide_eq_false_iff_not]
    exact not_lt.mpr (h i hi)

section Market

variable (cfg : LiveConfig ℝ) (table : Table) (shape : Shape) (m : Fin shape.markets) (ts : UInt64)

/-- The records of a price and its best odds. -/
theorem marketBetsOk_stakedRecords {fair : ConsensusResult ℝ} {best : BestOdds}
    (hbest : IsBest table shape m (fun b => Fresh cfg table (shape.slot m b) ts) best)
    (hquoted : allQuoted best fair.count.toNat = true)
    (hv : Kelly.validArgs (span fair.prob fair.count.toNat)
      (((List.ofFn best).take fair.count.toNat).map decimalOdds) cfg.kellyFraction
      cfg.maxExposure = true) :
    MarketBetsOk cfg table shape m ts fair
      (stakedRecords ts m.val.toUInt16 fair best (allocation cfg fair best).stake) := by
  have hstakes : Kelly.StakesOk (allocation cfg fair best) cfg.maxExposure :=
    Kelly.stakesOk_allocate _ _ _ _ hv
  have houtcome : ∀ i : Fin kMaxOutcomes, (i.val.toUInt8).toNat = i.val := by decide
  refine ⟨?_, ?_, ?_, ?_, ?_⟩
  · intro r hr
    obtain ⟨i, _, hs, rfl⟩ := mem_stakedRecords_iff.mp hr
    exact not_le.mp hs
  · intro _
    calc _ ≤ ∑ i, (allocation cfg fair best).stake i :=
          sum_stakedRecords_le _ _ _ _ hstakes.nonneg
      _ = (allocation cfg fair best).totalStake := hstakes.sum_stake
      _ ≤ cfg.maxExposure := hstakes.totalStake_le
  · intro r hr
    obtain ⟨i, hi, _, rfl⟩ := mem_stakedRecords_iff.mp hr
    show (i.val.toUInt8).toNat < _
    rw [houtcome i]
    exact hi
  · intro r hr
    obtain ⟨i, hi, _, rfl⟩ := mem_stakedRecords_iff.mp hr
    exact allQuoted_iff.mp hquoted i hi
  · intro r hr
    obtain ⟨i, hi, _, rfl⟩ := mem_stakedRecords_iff.mp hr
    refine ⟨i, (houtcome i).symm, ?_, fun b hf hq => hbest.upper i b hf hq⟩
    rcases hbest.attained i with h0 | hattained
    · -- odds of 0 are not bettable
      have hle : kMinOddsMilli ≤ best i := allQuoted_iff.mp hquoted i hi
      rw [h0] at hle
      exact absurd hle (by decide)
    · exact hattained

/-- **One market of one tick.** -/
theorem marketBetsOk_marketBets (betlog : Bool) :
    MarketBetsOk cfg table shape m ts (marketFair cfg table shape m ts)
      (marketBets cfg betlog table shape m ts) := by
  unfold marketBets betsOn sizedRecords
  split
  · split
    · next h =>
      rw [Bool.and_eq_true] at h
      exact marketBetsOk_stakedRecords cfg table shape m ts
        (isBest_marketBest cfg table shape m ts) h.1 (Kelly.validArgs_of_hasBet h.2)
    · exact marketBetsOk_nil cfg table shape m ts _
  · exact marketBetsOk_nil cfg table shape m ts _

end Market

/-! ## 2. An arbitrage -/

section Arbitrage

variable {cfg : LiveConfig ℝ} {table : Table} {shape : Shape} {m : Fin shape.markets} {ts : UInt64}

theorem one_lt_decimalOdds {o : UInt32} (ho : kMinOddsMilli ≤ o) : (1 : ℝ) < decimalOdds o := by
  have hnat : 1001 ≤ o.toNat := UInt32.le_iff_toNat_le.mp ho
  have hcast : (1001 : ℝ) ≤ (o.toNat : ℝ) := by exact_mod_cast hnat
  show (1 : ℝ) < (o.toNat : ℝ) / 1000
  rw [one_lt_div (by norm_num)]
  linarith

/-- What the best odds of the first `n` outcomes imply. -/
noncomputable def impliedBest (best : BestOdds) (n : Nat) : ℝ :=
  ∑ i : Fin kMaxOutcomes, if i.val < n then 1 / decimalOdds (best i) else 0

/-- Where the best odds imply less than the price adds up to, some outcome has an edge. -/
theorem exists_edge {p : ProbVector ℝ} {best : BestOdds} {n : Nat} (hdist : IsDistribution p n)
    (hbest : ∀ i : Fin kMaxOutcomes, i.val < n → kMinOddsMilli ≤ best i)
    (himplied : impliedBest best n ≤ 1 - 1e-13) :
    ∃ i : Fin kMaxOutcomes, i.val < n ∧ 1 < p i * decimalOdds (best i) := by
  by_contra hno
  have hle : (∑ i : Fin kMaxOutcomes, if i.val < n then p i else 0) ≤ impliedBest best n := by
    refine Finset.sum_le_sum fun i _ => ?_
    split
    · next hi =>
      have ho : (0 : ℝ) < decimalOdds (best i) := one_pos.trans (one_lt_decimalOdds (hbest i hi))
      rw [le_div_iff₀ ho]
      exact not_lt.mp fun hedge => hno ⟨i, hi, hedge⟩
    · exact le_refl _
  have hsum := (abs_lt.mp hdist.sum).1
  linarith

/-- The price and the best odds of a market are arguments `allocate` accepts. -/
theorem accepted_allocation {fair : ConsensusResult ℝ} {best : BestOdds}
    (hk : 0 < cfg.kellyFraction) (hm : 0 < cfg.maxExposure)
    (hdist : IsDistribution fair.prob fair.count.toNat)
    (hbest : ∀ i : Fin kMaxOutcomes, i.val < fair.count.toNat → kMinOddsMilli ≤ best i) :
    Kelly.Accepted (span fair.prob fair.count.toNat)
      (((List.ofFn best).take fair.count.toNat).map decimalOdds) cfg.kellyFraction
      cfg.maxExposure := by
  have hlen : (span fair.prob fair.count.toNat).length = fair.count.toNat :=
    length_take_ofFn _ hdist.le_max
  refine ⟨?_, hlen.trans_le hdist.le_max, ?_, hk, hm, ?_, ?_⟩
  · have h2 := hdist.two_le
    exact List.ne_nil_of_length_pos (by omega)
  · rw [hlen, List.length_map, length_take_ofFn _ hdist.le_max]
  · intro q hq
    obtain ⟨i, hi, rfl⟩ := mem_take_ofFn.mp hq
    exact (hdist.pos i hi).le
  · intro o ho
    obtain ⟨x, hx, rfl⟩ := List.mem_map.mp ho
    obtain ⟨i, hi, rfl⟩ := mem_take_ofFn.mp hx
    exact one_lt_decimalOdds (hbest i hi)

/-- **An arbitrage is bet on**: where the best odds imply at most 1 - 1e-13 the market logs a bet,
    whatever the devig. -/
theorem marketBets_ne_nil (hcounts : CountsOk table) (hk : 0 < cfg.kellyFraction)
    (hm : 0 < cfg.maxExposure)
    (hfair : (marketFair cfg table shape m ts).hasFairPrice = true)
    (hbest : ∀ i : Fin kMaxOutcomes, i.val < (marketFair cfg table shape m ts).count.toNat →
      kMinOddsMilli ≤ marketBest cfg table shape m ts i)
    (himplied : impliedBest (marketBest cfg table shape m ts)
      (marketFair cfg table shape m ts).count.toNat ≤ 1 - 1e-13) :
    marketBets cfg true table shape m ts ≠ [] := by
  have hdist := isDistribution_marketFair cfg shape m ts hcounts hfair
  have hacc := accepted_allocation hk hm hdist hbest
  have hlen : (span (marketFair cfg table shape m ts).prob
      (marketFair cfg table shape m ts).count.toNat).length =
      (marketFair cfg table shape m ts).count.toNat := length_take_ofFn _ hdist.le_max
  -- the edge makes a bet, and the bet is a record
  obtain ⟨i, hi, hedge⟩ := exists_edge hdist hbest himplied
  have hne := (Kelly.chosenSet_ne_nil_iff_edge hacc).mpr ⟨i, by rw [hlen]; exact hi, by
    rw [Kelly.rate, span, getD_take_ofFn _ hi, List.map_take, List.map_ofFn, getD_take_ofFn _ hi]
    exact hedge⟩
  have hbet : (allocation cfg (marketFair cfg table shape m ts)
      (marketBest cfg table shape m ts)).hasBet = true :=
    (Kelly.staked_allocate hacc).hasBet.mpr hne
  obtain ⟨j, hj⟩ := List.exists_mem_of_ne_nil _ hne
  have hjlt := Kelly.lt_of_mem_chosenSet hj
  rw [hlen] at hjlt
  have hstake := (Kelly.stake_pos_iff hacc ⟨j, hjlt.trans_le hdist.le_max⟩).mpr hj
  have hquoted : allQuoted (marketBest cfg table shape m ts)
      (marketFair cfg table shape m ts).count.toNat = true := allQuoted_iff.mpr hbest
  have hmem : betRecord ts m.val.toUInt16 (marketFair cfg table shape m ts)
      (marketBest cfg table shape m ts) (allocation cfg (marketFair cfg table shape m ts)
        (marketBest cfg table shape m ts)).stake ⟨j, hjlt.trans_le hdist.le_max⟩ ∈
      marketBets cfg true table shape m ts := by
    unfold marketBets betsOn sizedRecords
    rw [hfair, hquoted, hbet]
    exact mem_stakedRecords_iff.mpr ⟨_, hjlt, not_le.mpr hstake, rfl⟩
  exact List.ne_nil_of_mem hmem

end Arbitrage

/-! ## 3. Whole runs -/

/-- **The bets of a run.** Whatever records of at most four outcomes come in, whatever the
    configuration to start with and whenever commands change it: the run comes to its end; it
    priced and sized tick by tick, all markets of a tick under the one configuration in force after
    that tick's `service()`; and what a tick logs for a market is `MarketBetsOk` under that
    configuration. -/
theorem bets_of_run (opt : Options ℝ) (service : Nat → Service) (shape : Shape)
    (rs : List OddsUpdate) (hcount : ∀ u ∈ rs, u.outcomeCount.toNat ≤ kMaxOutcomes) :
    (∃ st, run opt service shape rs = .ok st ∧
      st.prices = (ticksUnder opt service rs).flatMap
        (fun c => tickPrices c.1 shape c.2.1 c.2.2) ∧
      st.bets = (ticksUnder opt service rs).flatMap
        (fun c => tickBets c.1 (!opt.betsOut.isEmpty) shape c.2.1 c.2.2)) ∧
    ∀ c ∈ ticksUnder opt service rs, ∀ m : Fin shape.markets, ∃ fair bets,
      priceMarket c.1 (!opt.betsOut.isEmpty) c.2.2 shape m c.2.1 = .ok (fair, bets) ∧
      MarketBetsOk c.1 c.2.2 shape m c.2.1 fair bets := by
  have hok := countsOk_ticksOf hcount
  refine ⟨run_results opt service shape hok, fun c hc m => ?_⟩
  have htick : CountsOk c.2.2 := by
    obtain ⟨k, p, hp, rfl⟩ := exists_of_mem_ticksUnder hc
    exact hok p hp
  exact ⟨_, _, priceMarket_eq c.1 _ c.2.2 shape (htick.marketInBounds c.1 shape m c.2.1),
    marketBetsOk_marketBets c.1 c.2.2 shape m c.2.1 _⟩

/-- The same, with a bet log. -/
noncomputable def loggedOptions : Options ℝ := { plainOptions with betsOut := ascii "bets" }

/-- ... and a dashboard; the devig is `power` to start with. -/
noncomputable def stakingOptions : Options ℝ :=
  { loggedOptions with wsPort := 8080, devigMethod := .power }

def devigCommand : Bytes :=
  ascii "\x7b\"cmd\":\"set\",\"key\":\"devig\",\"value\":\"multiplicative\"\x7d"

/-- The second tick's `service()` finds a command. -/
def commandedService (k : Nat) : Service :=
  { texts := if k = 1 then [devigCommand] else [], pushDue := false }

/-- 1.5 against 2.6. -/
def homeQuote : OddsUpdate :=
  { seqNo := 1, outcomeCount := 2, oddsMilli := fun i => if i.val = 0 then 1500 else 2600 }

/-- Another book's 2.6 against 1.5. -/
def awayQuote : OddsUpdate :=
  { bookId := 1, seqNo := 1, outcomeCount := 2,
    oddsMilli := fun i => if i.val = 0 then 2600 else 1500 }

/-- Both, and the first one's again a tick later. -/
def crossingQuotes : List OddsUpdate :=
  [homeQuote, awayQuote, { homeQuote with seqNo := 2, simTimestampNs := 100000000 }]

def crossingTable : Table := crossingQuotes.foldl BookTable.receive {}

noncomputable def commandedConfig : LiveConfig ℝ :=
  { stakingOptions.initial.cfg with devigMethod := .multiplicative, changes := 1 }

theorem applyCommand_devigCommand :
    (applyCommand devigCommand stakingOptions.initial.cfg false).2 = commandedConfig := by
  have hcmd : Ws.jsonString devigCommand (ascii "cmd") = some (ascii "set") := by decide
  have hkey : Ws.jsonString devigCommand (ascii "key") = some (ascii "devig") := by decide
  have hvalue : Ws.jsonString devigCommand (ascii "value") = some (ascii "multiplicative") := by
    decide
  have hmethod : parseDevig (ascii "multiplicative") = some .multiplicative := by decide
  unfold applyCommand
  rw [hcmd, hkey, hvalue]
  dsimp only
  rw [if_neg (fun h => h rfl), if_neg Bool.false_ne_true, if_pos rfl, hmethod]
  rfl

/-- The second tick sees both books, and runs under the configuration the command left. -/
theorem mem_ticksUnder_crossing : (commandedConfig, 100000000, crossingTable) ∈
    ticksUnder stakingOptions commandedService crossingQuotes := by
  have hcfg : configAfter stakingOptions commandedService 2 = commandedConfig :=
    applyCommand_devigCommand
  rw [← hcfg]
  exact List.mem_cons_of_mem _ (List.mem_singleton.mpr rfl)

theorem fresh_crossing (b : Fin twoBooks.books) :
    Fresh commandedConfig crossingTable (twoBooks.slot 0 b) 100000000 := by
  show BookTable.isStale _ _ _ (3000 * 1000000) = false
  revert b
  decide

theorem outcomeCount_crossing (b : Fin twoBooks.books) :
    (crossingTable.get (twoBooks.slot 0 b)).outcomeCount = 2 := by
  revert b
  decide

theorem marketBest_crossing : marketBest commandedConfig crossingTable twoBooks 0 100000000 =
    fun i => if i.val < 2 then 2600 else 0 := by
  show bestStep commandedConfig crossingTable (twoBooks.slot 0 1) 100000000
    (bestStep commandedConfig crossingTable (twoBooks.slot 0 0) 100000000 fun _ => 0) = _
  unfold bestStep
  rw [if_pos (fresh_crossing 1), if_pos (fresh_crossing 0)]
  decide

theorem countsOk_crossing : CountsOk crossingTable :=
  countsOk_receive (countsOk_receive (countsOk_receive countsOk_empty (by decide)) (by decide))
    (by decide)

theorem usable_crossing : Usable ℝ .multiplicative (crossingTable.get (twoBooks.slot 0 0)) := by
  have hodds : (quoteOdds (crossingTable.get (twoBooks.slot 0 0)) : List ℝ) =
      [1500, 2600].map decimalOdds := rfl
  have hwire := Devig.wireOdds_uneven
  unfold Usable
  rw [hodds]
  exact (Devig.usable_multiplicative_iff _).mpr ⟨hwire.valid, not_le.mpr hwire.margin⟩

theorem hasFairPrice_crossing :
    (marketFair commandedConfig crossingTable twoBooks 0 100000000).hasFairPrice = true :=
  (hasFairPrice_marketFair_iff _ _ _ _ _).mpr ⟨0, fresh_crossing 0, usable_crossing⟩

theorem count_crossing :
    (marketFair commandedConfig crossingTable twoBooks 0 100000000).count.toNat = 2 := by
  refine le_antisymm (Consensus.fairPrice_count_le fun input hin => ?_)
    (isDistribution_marketFair _ _ _ _ countsOk_crossing hasFairPrice_crossing).two_le
  obtain ⟨b, _, rfl⟩ := List.mem_map.mp hin
  unfold bookInput
  rw [if_pos (fresh_crossing b)]
  by_cases hu : Usable ℝ commandedConfig.devigMethod (crossingTable.get (twoBooks.slot 0 b))
  · rw [quoteInput_count hu (countsOk_crossing _), outcomeCount_crossing b]
    decide
  · unfold quoteInput
    rw [if_neg hu]
    decide

/-- Each book's long side against the other's: the second tick bets. -/
theorem marketBets_crossing :
    marketBets commandedConfig true crossingTable twoBooks 0 100000000 ≠ [] := by
  have hodds : (decimalOdds 2600 : ℝ) = 2600 / 1000 := by
    have hnat : (2600 : UInt32).toNat = 2600 := rfl
    rw [Devig.decimalOdds_eq, hnat, Nat.cast_ofNat]
  refine marketBets_ne_nil countsOk_crossing ?_ ?_ hasFairPrice_crossing ?_ ?_
  · show (0 : ℝ) < 1 / 4
    norm_num
  · show (0 : ℝ) < 1 / 20
    norm_num
  · rw [count_crossing, marketBest_crossing]
    intro i hi
    have hlong : kMinOddsMilli ≤ 2600 := by decide
    exact hlong.trans_eq (if_pos hi).symm
  · rw [count_crossing, marketBest_crossing, impliedBest, Fin.sum_univ_four]
    simp [hodds]
    norm_num

/-- Two books whose long sides together make an arbitrage, and a command in between: the second
    tick stakes under the configuration the command left. -/
theorem bets_of_run_commanded :
    ∃ st, run stakingOptions commandedService twoBooks crossingQuotes = .ok st ∧
      ∃ c ∈ ticksUnder stakingOptions commandedService crossingQuotes,
        c.1.devigMethod ≠ stakingOptions.devigMethod ∧
        ∃ fair bets, priceMarket c.1 true c.2.2 twoBooks 0 c.2.1 = .ok (fair, bets) ∧
          MarketBetsOk c.1 c.2.2 twoBooks 0 c.2.1 fair bets ∧ bets ≠ [] ∧ bets ⊆ st.bets := by
  obtain ⟨⟨st, hrun, _, hbets⟩, htick⟩ := bets_of_run stakingOptions commandedService twoBooks
    crossingQuotes (by decide)
  obtain ⟨fair, bets, hprice, hok⟩ := htick _ mem_ticksUnder_crossing 0
  have heq := priceMarket_eq commandedConfig true crossingTable twoBooks
    (countsOk_crossing.marketInBounds commandedConfig twoBooks 0 100000000)
  obtain ⟨rfl, rfl⟩ := Prod.mk.inj (Except.ok.inj (hprice.symm.trans heq))
  refine ⟨st, hrun, _, mem_ticksUnder_crossing, DevigMethod.noConfusion, _, _, hprice, hok,
    marketBets_crossing, fun r hr => ?_⟩
  rw [hbets]
  exact List.mem_flatMap.mpr ⟨_, mem_ticksUnder_crossing,
    List.mem_flatMap.mpr ⟨0, List.mem_finRange 0, hr⟩⟩

/-! ## 4. A negative cap -/

/-- ... and a cap below zero. -/
noncomputable def cappedOptions : Options ℝ := { loggedOptions with maxExposure := -1 }

/-- Nothing is bet under a cap below zero, and the sum of no stakes is above it. -/
theorem not_sum_le_exposure : ∃ c ∈ ticksUnder cappedOptions noService [evenQuote], ∃ fair bets,
    priceMarket c.1 true c.2.2 oneBook ⟨0, by decide⟩ c.2.1 = .ok (fair, bets) ∧
      ¬ (bets.map BetRecord.stake).sum ≤ c.1.maxExposure := by
  let table : Table := BookTable.receive {} evenQuote
  have hok : CountsOk table := countsOk_receive countsOk_empty (by decide)
  have hbounds := hok.marketInBounds cappedOptions.initial.cfg oneBook ⟨0, by decide⟩ 0
  refine ⟨(cappedOptions.initial.cfg, 0, table), List.mem_singleton.mpr rfl, _, _,
    priceMarket_eq _ true table oneBook hbounds, ?_⟩
  have hnil : marketBets cappedOptions.initial.cfg true table oneBook ⟨0, by decide⟩ 0 = [] := by
    unfold marketBets betsOn sizedRecords
    split
    · split
      · next h =>
        rw [Bool.and_eq_true] at h
        have hcap := (Kelly.pos_of_validArgs (Kelly.validArgs_of_hasBet h.2)).2.2
        have hneg : (0 : ℝ) < -1 := hcap
        linarith
      · rfl
    · rfl
  rw [hnil]
  show ¬ (0 : ℝ) ≤ -1
  norm_num

end OddsEngine
