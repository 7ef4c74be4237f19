/-
  File:      OddsEngine/Engine/Market.lean
  Subject:   One market at one tick: the books walked, the price, the bets (the market loop of
             `process_tick`, engine/main.cpp).

  The loops here subscript arrays of four with an `outcome_count` that came off the wire, so they
  are written with checked accesses. `processBook_eq` says what one book does where its count is
  at most four, `processBook_fault` what it does where it is not; `priceMarket_eq` puts a whole
  market together: the inputs to the consensus are `bookInput` of each book, and the best odds are
  the running maximum over the books that are not stale.
-/
import OddsEngine.Engine.BookTable
import OddsEngine.Engine.Command
import OddsEngine.Engine.Consensus
import OddsEngine.Engine.Kelly
import OddsEngine.Lib.Checked

namespace OddsEngine

open Lib

abbrev Table := BookTable 1024 16

/-- A real, bettable quote. -/
def kMinOddsMilli : UInt32 := 1001

/-- A session's shape, as `run` admits it. -/
structure Shape where
  markets : Nat
  books : Nat
  markets_le : markets ≤ 1024
  books_le : books ≤ 16

/-- The slot of a market and a book of the session. -/
def Shape.slot (shape : Shape) (m : Fin shape.markets) (b : Fin shape.books) :
    Fin 1024 × Fin 16 :=
  (m.castLE shape.markets_le, b.castLE shape.books_le)

structure BetRecord (F : Type) where
  simTimestampNs : UInt64
  marketId : UInt16
  outcome : UInt8
  stake : F
  oddsMilliTaken : UInt32
  fairProb : F

/-- The highest odds met so far, per outcome. -/
abbrev BestOdds := Fin kMaxOutcomes → UInt32

variable {F : Type} [DoubleArith F]

/-- `odds_milli / 1000.0`. -/
def decimalOdds (o : UInt32) : F := (o.toNat : F) / 1000

/-! ## 1. One book -/

/-- `for (i = 0; i < n && i < kMaxOutcomes; ++i)`: the best odds raised to this quote's. -/
def bestLoop (q : Quote) (best : BestOdds) : Except OutOfBounds BestOdds :=
  forRange (min q.outcomeCount.toNat kMaxOutcomes)
    (fun best i => do
      let o ← rd q.oddsMilli i
      let cur ← rd best i
      if cur < o then wr best i o else return best)
    best

/-- `for (i = 0; i < n; ++i) odds[i] = q.odds_milli[i] / 1000.0`: bounded by the wire's count. -/
def oddsLoop (q : Quote) : Except OutOfBounds (ProbVector F) :=
  forRange q.outcomeCount.toNat
    (fun odds i => do
      let o ← rd q.oddsMilli i
      wr odds i (decimalOdds o))
    (fun _ => 0)

/-- `std::span(a.data(), n)`. -/
def span (a : ProbVector F) (n : Nat) : List F := (List.ofFn a).take n

/-- One round of the loop over the books. -/
def processBook (cfg : LiveConfig F) (table : Table) (s : Fin 1024 × Fin 16) (ts : UInt64)
    (best : BestOdds) : Except OutOfBounds (BookInput F × BestOdds) :=
  if table.isStale s ts (cfg.staleMs * 1000000) then return (BookInput.init, best)
  else do
    let q := table.get s
    let best ← bestLoop q best
    let odds ← oddsLoop q
    let r := runDevig cfg.devigMethod (span odds q.outcomeCount.toNat)
    if !r.usableAsDistribution then return (BookInput.init, best)
    else
      return ({ count := r.count
                prob := fun i => if i.val < r.count.toNat then r.prob i else 0
                weight := 1
                available := true }, best)

/-- The odds a quote states. -/
def quoteOdds (q : Quote) : List F :=
  ((List.ofFn q.oddsMilli).take q.outcomeCount.toNat).map decimalOdds

/-- The best odds, raised to the quote's for the outcomes it quotes. -/
def raiseBest (q : Quote) (best : BestOdds) : BestOdds := fun i =>
  if i.val < q.outcomeCount.toNat then (if best i < q.oddsMilli i then q.oddsMilli i else best i)
  else best i

/-- The devig can make a distribution of the quote. -/
def Usable (F : Type) [DoubleArith F] (method : DevigMethod) (q : Quote) : Prop :=
  (runDevig method (quoteOdds q : List F)).usableAsDistribution = true

instance (F : Type) [DoubleArith F] (method : DevigMethod) (q : Quote) :
    Decidable (Usable F method q) :=
  inferInstanceAs (Decidable (_ = _))

/-- What a quote is worth to the consensus. -/
def quoteInput (method : DevigMethod) (q : Quote) : BookInput F :=
  if Usable F method q then
    let r : DevigResult F := runDevig method (quoteOdds q)
    { count := r.count
      prob := fun i => if i.val < r.count.toNat then r.prob i else 0
      weight := 1
      available := true }
  else BookInput.init

theorem bestLoop_eq (q : Quote) (best : BestOdds) : bestLoop q best = .ok (raiseBest q best) := by
  unfold bestLoop
  rw [forRange_pointwise (fun i cur => if cur < q.oddsMilli i then q.oddsMilli i else cur) _ _
    (min_le_right _ _)]
  · congr 1
    funext i
    have hi : i.val < min q.outcomeCount.toNat kMaxOutcomes ↔ i.val < q.outcomeCount.toNat := by
      have : i.val < kMaxOutcomes := i.isLt
      exact ⟨fun h => h.trans_le (min_le_left _ _), fun h => lt_min h this⟩
    unfold upTo raiseBest
    simp only [hi]
  · intro best i hi
    rw [rd_of_lt _ hi]
    show (rd best i >>= fun cur => _) = _
    rw [rd_of_lt _ hi]
    show (if _ then _ else _) = _
    by_cases h : best ⟨i, hi⟩ < q.oddsMilli ⟨i, hi⟩
    · rw [if_pos h, wr_of_lt _ hi, if_pos h]
    · rw [if_neg h, if_neg h, Function.update_eq_self]
      rfl

theorem oddsLoop_body (q : Quote) (odds : ProbVector F) (i : Nat) (hi : i < kMaxOutcomes) :
    (rd q.oddsMilli i >>= fun o => wr odds i (decimalOdds o)) =
      .ok (Function.update odds ⟨i, hi⟩ (decimalOdds (q.oddsMilli ⟨i, hi⟩))) := by
  rw [rd_of_lt _ hi]
  exact wr_of_lt _ hi _

/-- The odds of a quote of at most four outcomes, as the devig sees them. -/
theorem oddsLoop_eq (q : Quote) (h : q.outcomeCount.toNat ≤ kMaxOutcomes) :
    ∃ odds : ProbVector F, oddsLoop q = .ok odds ∧
      span odds q.outcomeCount.toNat = quoteOdds q := by
  refine ⟨_, forRange_pointwise (fun i _ => decimalOdds (q.oddsMilli i)) _
    (fun odds i hi => oddsLoop_body q odds i hi) h _, ?_⟩
  unfold span quoteOdds
  refine List.ext_getElem (by simp) fun i h1 h2 => ?_
  have hi : i < q.outcomeCount.toNat := (List.length_take_le _ _).trans_lt' h1
  simp only [List.getElem_take, List.getElem_map, List.getElem_ofFn, upTo]
  exact if_pos hi

/-- A quote of more than four outcomes takes the loop past the end of the array. -/
theorem oddsLoop_fault (q : Quote) (h : kMaxOutcomes < q.outcomeCount.toNat) :
    (oddsLoop q : Except OutOfBounds (ProbVector F)) = .error ⟨kMaxOutcomes, kMaxOutcomes⟩ := by
  refine forRange_fault _ (fun i _ => decimalOdds (q.oddsMilli i))
    (fun odds i hi => oddsLoop_body q odds i hi) (fun odds => ?_) h _
  rw [rd_of_not_lt _ (lt_irrefl _)]
  rfl

section Book

variable (cfg : LiveConfig F) (table : Table) (s : Fin 1024 × Fin 16) (ts : UInt64)

/-- The quote of slot `s` is used at `ts`. -/
def Fresh : Prop := table.isStale s ts (cfg.staleMs * 1000000) = false

instance : Decidable (Fresh cfg table s ts) := inferInstanceAs (Decidable (_ = _))

/-- Book `s` as the consensus sees it. -/
def bookInput : BookInput F :=
  if Fresh cfg table s ts then quoteInput cfg.devigMethod (table.get s) else BookInput.init

/-- The best odds after book `s`. -/
def bestStep (best : BestOdds) : BestOdds :=
  if Fresh cfg table s ts then raiseBest (table.get s) best else best

/-- What the book loop may do at slot `s`: the quote is stale, or it states at most four
    outcomes. -/
def InBounds : Prop :=
  Fresh cfg table s ts → (table.get s).outcomeCount.toNat ≤ kMaxOutcomes

theorem processBook_eq (h : InBounds cfg table s ts) (best : BestOdds) :
    processBook cfg table s ts best =
      .ok (bookInput cfg table s ts, bestStep cfg table s ts best) := by
  unfold processBook bookInput bestStep
  by_cases hf : Fresh cfg table s ts
  · obtain ⟨odds, hodds, hspan⟩ : ∃ odds : ProbVector F, _ := oddsLoop_eq (table.get s) (h hf)
    rw [if_pos hf, if_pos hf, if_neg (by rw [hf]; decide)]
    show (bestLoop (table.get s) best >>= fun best => oddsLoop (table.get s) >>= fun odds => _) = _
    rw [bestLoop_eq]
    show (oddsLoop (table.get s) >>= fun odds => _) = _
    rw [hodds]
    show (if _ then _ else _) = _
    rw [hspan]
    unfold quoteInput
    by_cases hu : Usable F cfg.devigMethod (table.get s)
    · have hr : (runDevig cfg.devigMethod
          (quoteOdds (table.get s) : List F)).usableAsDistribution = true := hu
      rw [if_neg (by rw [hr]; decide), if_pos hu]
      rfl
    · have hr : (runDevig cfg.devigMethod
          (quoteOdds (table.get s) : List F)).usableAsDistribution = false :=
        Bool.eq_false_of_not_eq_true hu
      rw [if_pos (by rw [hr]; rfl), if_neg hu]
      rfl
  · rw [if_neg hf, if_neg hf, if_pos (by simpa [Fresh] using hf)]
    rfl

/-- **A fresh quote of more than four outcomes writes past the end of `odds`.** -/
theorem processBook_fault (h : ¬ InBounds cfg table s ts) (best : BestOdds) :
    processBook cfg table s ts best = .error ⟨kMaxOutcomes, kMaxOutcomes⟩ := by
  unfold InBounds at h
  push Not at h
  unfold processBook
  rw [if_neg (by rw [h.1]; decide)]
  show (bestLoop (table.get s) best >>= fun best => oddsLoop (table.get s) >>= fun odds => _) = _
  rw [bestLoop_eq]
  show (oddsLoop (table.get s) >>= fun odds => _) = _
  rw [oddsLoop_fault _ h.2]
  rfl

end Book

/-! ## 2. One market -/

/-- The loop over the books of market `m`: the inputs to the consensus, and the best odds. -/
def priceBooks (cfg : LiveConfig F) (table : Table) (shape : Shape) (m : Fin shape.markets)
    (ts : UInt64) : Except OutOfBounds (List (BookInput F) × BestOdds) :=
  (List.finRange shape.books).foldlM
    (fun acc b => do
      let (input, best) ← processBook cfg table (shape.slot m b) ts acc.2
      return (acc.1 ++ [input], best))
    ([], fun _ => 0)

/-- The `have_all` loop: the best odds as decimals, or `none` where some outcome has no bettable
    quote. -/
def bestDecimals (best : BestOdds) (n : Nat) : Except OutOfBounds (Option (List F)) :=
  forRange n
    (fun dec i =>
      match dec with
      | none => return none
      | some dec => do
        let o ← rd best i
        if o < kMinOddsMilli then return none else return some (dec ++ [decimalOdds o]))
    (some [])

/-- The logging loop: one record per outcome with a stake. -/
def logStakes (ts : UInt64) (market : UInt16) (fair : ConsensusResult F) (best : BestOdds)
    (stake : Fin Kelly.kMaxOutcomes → F) : Except OutOfBounds (List (BetRecord F)) :=
  forRange fair.count.toNat
    (fun bets i => do
      let s ← rd stake i
      if s ≤ 0 then return bets
      else do
        let o ← rd best i
        let p ← rd fair.prob i
        return bets ++ [{ simTimestampNs := ts, marketId := market, outcome := i.toUInt8,
                          stake := s, oddsMilliTaken := o, fairProb := p }])
    []

/-- Sizing, once there is a fair price. -/
def sizeBets (cfg : LiveConfig F) (ts : UInt64) (market : UInt16) (fair : ConsensusResult F)
    (best : BestOdds) : Except OutOfBounds (List (BetRecord F)) := do
  match ← bestDecimals best fair.count.toNat with
  | none => return []
  | some bestDec =>
    let alloc := Kelly.allocate (span fair.prob fair.count.toNat) bestDec cfg.kellyFraction
      cfg.maxExposure
    if alloc.hasBet then logStakes ts market fair best alloc.stake else return []

/-- One market at `ts`: its price, and the bets on it where a bet log is asked for. -/
def priceMarket (cfg : LiveConfig F) (betlog : Bool) (table : Table) (shape : Shape)
    (m : Fin shape.markets) (ts : UInt64) :
    Except OutOfBounds (ConsensusResult F × List (BetRecord F)) := do
  let (inputs, best) ← priceBooks cfg table shape m ts
  let fair := Consensus.fairPrice inputs
  if !fair.hasFairPrice then return (fair, [])
  else if betlog then do
    let bets ← sizeBets cfg ts m.val.toUInt16 fair best
    return (fair, bets)
  else return (fair, [])

/-! ## 3. What a market comes to -/

/-- The `n` first entries of `a` are bettable. -/
def allQuoted (best : BestOdds) (n : Nat) : Bool :=
  ((List.ofFn best).take n).all fun o => !decide (o < kMinOddsMilli)

theorem bestDecimals_eq (best : BestOdds) {n : Nat} (hn : n ≤ kMaxOutcomes) :
    (bestDecimals best n : Except OutOfBounds (Option (List F))) = .ok
      (if allQuoted best n then some (((List.ofFn best).take n).map decimalOdds) else none) := by
  unfold bestDecimals allQuoted
  induction n with
  | zero => rfl
  | succ n ih =>
    have hlt : n < kMaxOutcomes := hn
    have hget : (List.ofFn best)[n]? = some (best ⟨n, hlt⟩) := by
      rw [List.getElem?_ofFn, dif_pos hlt]
    rw [forRange_succ, ih (by omega), List.take_add_one, hget, Option.toList_some,
      List.all_append, List.map_append]
    by_cases hall : (((List.ofFn best).take n).all fun o => !decide (o < kMinOddsMilli)) = true
    · rw [if_pos hall, hall]
      show (rd best n >>= fun o => _) = _
      rw [rd_of_lt best hlt]
      by_cases ho : best ⟨n, hlt⟩ < kMinOddsMilli
      · simp [ho, bind, Except.bind, pure, Except.pure]
      · simp [ho, bind, Except.bind, pure, Except.pure]
    · rw [if_neg hall, if_neg fun h => hall (Bool.and_eq_true_iff.mp h).1]
      rfl

/-- The record of outcome `i`. -/
def betRecord (ts : UInt64) (market : UInt16) (fair : ConsensusResult F) (best : BestOdds)
    (stake : Fin Kelly.kMaxOutcomes → F) (i : Fin kMaxOutcomes) : BetRecord F :=
  { simTimestampNs := ts, marketId := market, outcome := i.val.toUInt8, stake := stake i,
    oddsMilliTaken := best i, fairProb := fair.prob i }

/-- The records of a market: one per outcome of the price with a stake. -/
def stakedRecords (ts : UInt64) (market : UInt16) (fair : ConsensusResult F) (best : BestOdds)
    (stake : Fin Kelly.kMaxOutcomes → F) : List (BetRecord F) :=
  ((List.finRange kMaxOutcomes).take fair.count.toNat).flatMap fun i =>
    if stake i ≤ 0 then [] else [betRecord ts market fair best stake i]

theorem logStakes_eq (ts : UInt64) (market : UInt16) (fair : ConsensusResult F) (best : BestOdds)
    (stake : Fin Kelly.kMaxOutcomes → F) (h : fair.count.toNat ≤ kMaxOutcomes) :
    logStakes ts market fair best stake = .ok (stakedRecords ts market fair best stake) := by
  unfold logStakes stakedRecords
  rw [forRange_appends (fun i : Fin kMaxOutcomes =>
    if stake i ≤ 0 then [] else [betRecord ts market fair best stake i]) _ _ h]
  · rfl
  · intro bets i hi
    rw [rd_of_lt stake hi]
    show (if stake ⟨i, hi⟩ ≤ 0 then _ else _) = _
    by_cases hs : stake ⟨i, hi⟩ ≤ 0
    · rw [if_pos hs, if_pos hs, List.append_nil]
      rfl
    · rw [if_neg hs, if_neg hs, rd_of_lt best hi]
      show (rd fair.prob i >>= fun p => _) = _
      rw [rd_of_lt fair.prob hi]
      rfl

theorem mem_take_finRange {k n : Nat} (i : Fin k) : i ∈ (List.finRange k).take n ↔ i.val < n := by
  rw [List.mem_take_iff_getElem]
  constructor
  · rintro ⟨j, hj, rfl⟩
    rw [List.getElem_finRange]
    exact (lt_min_iff.mp hj).1
  · intro hi
    refine ⟨i.val, ?_, ?_⟩
    · rw [List.length_finRange]
      exact lt_min hi i.isLt
    · rw [List.getElem_finRange]
      rfl

/-- There is a record for each outcome of the price with a stake, and no other. -/
theorem mem_stakedRecords_iff {ts : UInt64} {market : UInt16} {fair : ConsensusResult F}
    {best : BestOdds} {stake : Fin Kelly.kMaxOutcomes → F} {r : BetRecord F} :
    r ∈ stakedRecords ts market fair best stake ↔
      ∃ i : Fin kMaxOutcomes, i.val < fair.count.toNat ∧ ¬ stake i ≤ 0 ∧
        r = betRecord ts market fair best stake i := by
  unfold stakedRecords
  rw [List.mem_flatMap]
  refine exists_congr fun i => ?_
  rw [mem_take_finRange]
  refine and_congr_right fun _ => ?_
  by_cases hs : stake i ≤ 0
  · rw [if_pos hs]
    exact ⟨fun h => absurd h List.not_mem_nil, fun h => absurd hs h.1⟩
  · rw [if_neg hs, List.mem_singleton]
    exact ⟨fun h => ⟨hs, h⟩, fun h => h.2⟩
/-- The allocation asked for at a price and the best odds. -/
def allocation (cfg : LiveConfig F) (fair : ConsensusResult F) (best : BestOdds) :
    Kelly.AllocationResult F :=
  Kelly.allocate (span fair.prob fair.count.toNat)
    (((List.ofFn best).take fair.count.toNat).map decimalOdds) cfg.kellyFraction cfg.maxExposure

/-- The records of a market that has a price. -/
def sizedRecords (cfg : LiveConfig F) (ts : UInt64) (market : UInt16) (fair : ConsensusResult F)
    (best : BestOdds) : List (BetRecord F) :=
  if allQuoted best fair.count.toNat && (allocation cfg fair best).hasBet then
    stakedRecords ts market fair best (allocation cfg fair best).stake
  else []

theorem sizeBets_eq (cfg : LiveConfig F) (ts : UInt64) (market : UInt16) (fair : ConsensusResult F)
    (best : BestOdds) (h : fair.count.toNat ≤ kMaxOutcomes) :
    sizeBets cfg ts market fair best = .ok (sizedRecords cfg ts market fair best) := by
  unfold sizeBets sizedRecords
  rw [bestDecimals_eq best h]
  cases allQuoted best fair.count.toNat with
  | false => rfl
  | true =>
    show (if (allocation cfg fair best).hasBet then
      logStakes ts market fair best (allocation cfg fair best).stake else return []) = _
    rw [logStakes_eq ts market fair best _ h]
    cases (allocation cfg fair best).hasBet with
    | false => rfl
    | true => rfl

/-- The bets on a price at the best odds, where a bet log is asked for. -/
def betsOn (cfg : LiveConfig F) (betlog : Bool) (ts : UInt64) (market : UInt16)
    (fair : ConsensusResult F) (best : BestOdds) : List (BetRecord F) :=
  if betlog && fair.hasFairPrice then sizedRecords cfg ts market fair best else []

section Market

variable (cfg : LiveConfig F) (betlog : Bool) (table : Table) (shape : Shape)
  (m : Fin shape.markets) (ts : UInt64)

/-- The inputs to the consensus. -/
def marketInputs : List (BookInput F) :=
  (List.finRange shape.books).map fun b => bookInput cfg table (shape.slot m b) ts

/-- The best odds over the books that are not stale. -/
def marketBest : BestOdds :=
  (List.finRange shape.books).foldl (fun best b => bestStep cfg table (shape.slot m b) ts best)
    (fun _ => 0)

def marketFair : ConsensusResult F := Consensus.fairPrice (marketInputs cfg table shape m ts)

/-- The bets of a market. -/
def marketBets : List (BetRecord F) :=
  betsOn cfg betlog ts m.val.toUInt16 (marketFair cfg table shape m ts)
    (marketBest cfg table shape m ts)

/-- No book of the market takes the loops out of bounds. -/
def MarketInBounds : Prop := ∀ b, InBounds cfg table (shape.slot m b) ts

theorem quoteInput_count_le (method : DevigMethod) (q : Quote) :
    (quoteInput method q : BookInput F).count.toNat ≤ kMaxOutcomes := by
  unfold quoteInput
  split
  · exact (countOk_runDevig method _).le
  · exact Nat.zero_le _

theorem length_quoteOdds {q : Quote} (hq : q.outcomeCount.toNat ≤ kMaxOutcomes) :
    (quoteOdds q : List F).length = q.outcomeCount.toNat := by
  unfold quoteOdds
  rw [List.length_map, List.length_take, List.length_ofFn]
  exact min_eq_left hq

/-- A usable quote of at most four outcomes is one of all its outcomes. -/
theorem quoteInput_count {method : DevigMethod} {q : Quote} (hu : Usable F method q)
    (hq : q.outcomeCount.toNat ≤ kMaxOutcomes) :
    (quoteInput method q : BookInput F).count = q.outcomeCount := by
  obtain ⟨_, hcount⟩ := (countOk_runDevig method (quoteOdds q : List F)).of_usable hu
  unfold quoteInput
  rw [if_pos hu]
  show (runDevig method (quoteOdds q : List F)).count = q.outcomeCount
  rw [hcount, length_quoteOdds hq]
  exact UInt8.ofNat_toNat

theorem marketFair_count_le : (marketFair cfg table shape m ts).count.toNat ≤ kMaxOutcomes := by
  refine Consensus.fairPrice_count_le fun input hin => ?_
  obtain ⟨b, _, rfl⟩ := List.mem_map.mp hin
  unfold bookInput
  split
  · exact quoteInput_count_le _ _
  · exact Nat.zero_le _

/-- The inputs of `process_tick` are unavailable or of weight 1. -/
theorem unitBook_bookInput (s : Fin 1024 × Fin 16) :
    Consensus.UnitBook (bookInput cfg table s ts) := by
  unfold bookInput quoteInput
  split
  · split
    · exact fun _ => rfl
    · exact fun h => absurd h Bool.false_ne_true
  · exact fun h => absurd h Bool.false_ne_true

theorem available_bookInput (s : Fin 1024 × Fin 16) :
    (bookInput cfg table s ts).available = true ↔
      Fresh cfg table s ts ∧ Usable F cfg.devigMethod (table.get s) := by
  unfold bookInput quoteInput
  split
  · next hf =>
    split
    · next hu => exact ⟨fun _ => ⟨hf, hu⟩, fun _ => rfl⟩
    · next hu => exact ⟨fun h => absurd h Bool.false_ne_true, fun h => absurd h.2 hu⟩
  · next hf => exact ⟨fun h => absurd h Bool.false_ne_true, fun h => absurd h.1 hf⟩

/-- There is a price exactly where some book has a fresh quote the devig can use. -/
theorem hasFairPrice_marketFair_iff [Consensus.UnitWeights F] :
    (marketFair cfg table shape m ts).hasFairPrice = true ↔
      ∃ b, Fresh cfg table (shape.slot m b) ts ∧
        Usable F cfg.devigMethod (table.get (shape.slot m b)) := by
  unfold marketFair marketInputs
  rw [Consensus.hasFairPrice_iff]
  · constructor
    · rintro ⟨input, hin, ha⟩
      obtain ⟨b, _, rfl⟩ := List.mem_map.mp hin
      exact ⟨b, (available_bookInput cfg table ts _).mp ha⟩
    · rintro ⟨b, hb⟩
      exact ⟨_, List.mem_map.mpr ⟨b, List.mem_finRange b, rfl⟩,
        (available_bookInput cfg table ts _).mpr hb⟩
  · intro input hin
    obtain ⟨b, _, rfl⟩ := List.mem_map.mp hin
    exact unitBook_bookInput cfg table ts _

variable {m ts} in
theorem priceBooks_eq (h : MarketInBounds cfg table shape m ts) :
    priceBooks cfg table shape m ts =
      .ok (marketInputs cfg table shape m ts, marketBest cfg table shape m ts) := by
  have hfold : ∀ (bs : List (Fin shape.books)) (acc : List (BookInput F) × BestOdds),
      bs.foldl (fun acc b => (acc.1 ++ [bookInput cfg table (shape.slot m b) ts],
        bestStep cfg table (shape.slot m b) ts acc.2)) acc =
      (acc.1 ++ bs.map (fun b => bookInput cfg table (shape.slot m b) ts),
        bs.foldl (fun best b => bestStep cfg table (shape.slot m b) ts best) acc.2) := by
    intro bs
    induction bs with
    | nil => simp
    | cons b bs ih =>
      intro acc
      rw [List.foldl_cons, ih]
      simp
  unfold priceBooks
  rw [foldlM_ok (fun acc b => (acc.1 ++ [bookInput cfg table (shape.slot m b) ts],
    bestStep cfg table (shape.slot m b) ts acc.2)), hfold]
  · rfl
  · intro acc b _
    rw [processBook_eq cfg table (shape.slot m b) ts (h b)]
    rfl

variable {m ts} in
/-- A fresh quote of more than four outcomes anywhere in the market stops it. -/
theorem priceMarket_fault (h : ¬ MarketInBounds cfg table shape m ts) :
    priceMarket cfg betlog table shape m ts = .error ⟨kMaxOutcomes, kMaxOutcomes⟩ := by
  obtain ⟨b, hb⟩ := Classical.not_forall.mp h
  unfold priceMarket priceBooks
  rw [foldlM_error ⟨kMaxOutcomes, kMaxOutcomes⟩]
  · rfl
  · intro acc b' _
    by_cases hb' : InBounds cfg table (shape.slot m b') ts
    · rw [processBook_eq _ _ _ _ hb']
      exact Or.inl ⟨_, rfl⟩
    · rw [processBook_fault _ _ _ _ hb']
      exact Or.inr rfl
  · refine ⟨b, List.mem_finRange b, fun acc => ?_⟩
    rw [processBook_fault _ _ _ _ hb]
    rfl

variable {m ts} in
/-- **One market, where its books stay in bounds**: the consensus of the books' inputs, and the
    bets on the best odds of the books that are not stale. -/
theorem priceMarket_eq (h : MarketInBounds cfg table shape m ts) :
    priceMarket cfg betlog table shape m ts =
      .ok (marketFair cfg table shape m ts, marketBets cfg betlog table shape m ts) := by
  unfold priceMarket
  rw [priceBooks_eq cfg table shape h]
  show (if !(marketFair cfg table shape m ts).hasFairPrice then
      return (marketFair cfg table shape m ts, [])
    else _) = _
  unfold marketBets betsOn
  cases (marketFair cfg table shape m ts).hasFairPrice with
  | false => rw [Bool.and_false]; rfl
  | true =>
    cases betlog with
    | false => rfl
    | true =>
      show (sizeBets cfg ts m.val.toUInt16 (marketFair cfg table shape m ts) _ >>= fun bets => _) = _
      rw [sizeBets_eq _ _ _ _ _ (marketFair_count_le cfg table shape m ts)]
      rfl

/-! ## 4. The best odds -/

/-- Book `b` quotes outcome `i`: the index is below its outcome count. -/
def Quotes (b : Fin shape.books) (i : Fin kMaxOutcomes) : Prop :=
  i.val < (table.get (shape.slot m b)).outcomeCount.toNat

instance (b : Fin shape.books) (i : Fin kMaxOutcomes) : Decidable (Quotes table shape m b i) :=
  inferInstanceAs (Decidable (_ < _))

/-- `best` holds, for each outcome, the highest odds of the books of `P` that quote it, and 0
    where none does. -/
structure IsBest (P : Fin shape.books → Prop) (best : BestOdds) : Prop where
  upper : ∀ i b, P b → Quotes table shape m b i → (table.get (shape.slot m b)).oddsMilli i ≤ best i
  attained : ∀ i, best i = 0 ∨
    ∃ b, P b ∧ Quotes table shape m b i ∧ (table.get (shape.slot m b)).oddsMilli i = best i

variable {table shape m} in
theorem IsBest.unique {P : Fin shape.books → Prop} {best best' : BestOdds}
    (h : IsBest table shape m P best) (h' : IsBest table shape m P best') : best = best' := by
  have hle : ∀ {x y : BestOdds}, IsBest table shape m P x → IsBest table shape m P y →
      ∀ i, x i ≤ y i := by
    intro x y hx hy i
    rcases hx.attained i with h0 | ⟨b, hb, hq, ho⟩
    · rw [h0]
      exact UInt32.zero_le
    · exact ho ▸ hy.upper i b hb hq
  exact funext fun i => le_antisymm (hle h h' i) (hle h' h i)

omit [DoubleArith F] in
/-- One book raises the best odds where it is fresh and quotes. -/
theorem bestStep_apply (b : Fin shape.books) (best : BestOdds) (i : Fin kMaxOutcomes) :
    bestStep cfg table (shape.slot m b) ts best i =
      if Fresh cfg table (shape.slot m b) ts ∧ Quotes table shape m b i then
        max (best i) ((table.get (shape.slot m b)).oddsMilli i)
      else best i := by
  unfold bestStep raiseBest Quotes
  by_cases hf : Fresh cfg table (shape.slot m b) ts
  · by_cases hq : i.val < (table.get (shape.slot m b)).outcomeCount.toNat
    · simp only [hf, hq, if_true, and_self]
      by_cases hlt : best i < (table.get (shape.slot m b)).oddsMilli i
      · rw [if_pos hlt, max_eq_right hlt.le]
      · rw [if_neg hlt, max_eq_left (not_lt.mp hlt)]
    · simp only [hf, hq, if_true, if_false, and_false]
  · simp only [hf, if_false, false_and]

omit [DoubleArith F] in
/-- **The best odds are the highest over the books that are not stale.** -/
theorem isBest_marketBest :
    IsBest table shape m (fun b => Fresh cfg table (shape.slot m b) ts)
      (marketBest cfg table shape m ts) := by
  have hfold : ∀ bs : List (Fin shape.books),
      let best := bs.foldl (fun best b => bestStep cfg table (shape.slot m b) ts best)
        (fun _ => 0 : BestOdds)
      ∀ i, (∀ b ∈ bs, Fresh cfg table (shape.slot m b) ts → Quotes table shape m b i →
          (table.get (shape.slot m b)).oddsMilli i ≤ best i) ∧
        (best i = 0 ∨ ∃ b, Fresh cfg table (shape.slot m b) ts ∧ Quotes table shape m b i ∧
          (table.get (shape.slot m b)).oddsMilli i = best i) := by
    intro bs
    induction bs using List.reverseRecOn with
    | nil => exact fun i => ⟨fun b hb => absurd hb List.not_mem_nil, Or.inl rfl⟩
    | append_singleton bs c ih =>
      intro best i
      obtain ⟨hup, hat⟩ := ih i
      have hlast : best = bestStep cfg table (shape.slot m c) ts
          (bs.foldl (fun best b => bestStep cfg table (shape.slot m b) ts best) fun _ => 0) :=
        List.foldl_append
      have hbest := congrFun hlast i
      rw [bestStep_apply] at hbest
      by_cases hc : Fresh cfg table (shape.slot m c) ts ∧ Quotes table shape m c i
      · rw [if_pos hc] at hbest
        rw [hbest]
        refine ⟨fun b hb hf hq => ?_, ?_⟩
        · rcases List.mem_append.mp hb with hb | hb
          · exact (hup b hb hf hq).trans (le_max_left _ _)
          · rw [List.mem_singleton.mp hb]
            exact le_max_right _ _
        · rcases max_choice ((bs.foldl (fun best b => bestStep cfg table (shape.slot m b) ts best)
            (fun _ => 0 : BestOdds)) i) ((table.get (shape.slot m c)).oddsMilli i) with h | h
          · rw [h]
            exact hat
          · rw [h]
            exact Or.inr ⟨c, hc.1, hc.2, rfl⟩
      · rw [if_neg hc] at hbest
        rw [hbest]
        refine ⟨fun b hb hf hq => ?_, hat⟩
        rcases List.mem_append.mp hb with hb | hb
        · exact hup b hb hf hq
        · rw [List.mem_singleton.mp hb] at hf hq
          exact absurd ⟨hf, hq⟩ hc
  exact ⟨fun i b hf hq => ((hfold _) i).1 b (List.mem_finRange b) hf hq, fun i => ((hfold _) i).2⟩

end Market

end OddsEngine
