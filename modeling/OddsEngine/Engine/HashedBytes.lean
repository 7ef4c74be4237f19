/-
  File:      OddsEngine/Engine/HashedBytes.lean
  Subject:   The bytes a `--hash` run feeds its digest (process_tick, engine/main.cpp).

  Of every fair price the digest gets the market's number, the outcome count and the probabilities,
  byte for byte; a market without a price leaves nothing, and neither does the end of a tick.

  * `hash_of_run_ok` -- the digest's state is that of the bytes `fedBytes`, in the order the prices
    were computed;
  * `fedBytes_eq_iff` -- the bytes tell the prices apart: two runs feed the same bytes exactly if
    they compute the same markets, counts and probabilities in the same order;
  * `shifted_unnoticed` -- the tick is not among them: two runs that price the same thing a tick
    apart feed the same bytes.
-/
import OddsEngine.Engine.RejectedRecords
import OddsEngine.Lib.Delimited
import OddsEngine.Lib.Frames

namespace OddsEngine

open Lib InformationTheory

/-! ## 1. The words of the encoding -/

/-- What is hashed of a price: the market, the count, the bits of as many probabilities as the
    count says, four at most. -/
structure HashedPrice where
  marketId : UInt16
  count : UInt8
  probs : List UInt64
  sized : probs.length = min count.toNat kMaxOutcomes
  deriving DecidableEq

/-- `mix_u16`, `mix_bytes`, and a `mix_double` for each probability. -/
def HashedPrice.bytes (e : HashedPrice) : Bytes :=
  u16 e.marketId ++ e.count :: e.probs.flatMap u64

theorem u16_injective {x y : UInt16} (h : u16 x = u16 y) : x = y := by
  have hread := getU16_u16 x []
  rw [h, getU16_u16] at hread
  exact (congrArg Prod.fst hread).symm

theorem u64_injective {x y : UInt64} (h : u64 x = u64 y) : x = y := by
  have hread := getU64_u64 x []
  rw [h, getU64_u64] at hread
  exact (congrArg Prod.fst hread).symm

/-- Machine words of 64 bits in a row are read in one way. -/
theorem uniquelyDecodable_u64 : UniquelyDecodable (Set.range u64) := by
  refine PrefixFree.uniquelyDecodable (prefixFree_of_length (n := 8) ?_) ?_
  · rintro _ ⟨x, rfl⟩
    exact u64_length x
  · rintro ⟨x, hx⟩
    have hlen := u64_length x
    rw [hx] at hlen
    cases hlen

namespace HashedPrice

/-- The count says where a word ends, so the first word of a string is determined. -/
theorem eq_of_bytes_append {e e' : HashedPrice} {x y : Bytes}
    (heq : e.bytes ++ x = e'.bytes ++ y) : e = e' := by
  unfold bytes at heq
  rw [List.append_assoc, List.append_assoc] at heq
  obtain ⟨hmarket, hrest⟩ := List.append_inj heq (by rw [u16_length, u16_length])
  rw [List.cons_append, List.cons_append] at hrest
  obtain ⟨hcount, hrest⟩ := List.cons.inj hrest
  have hlen : e.probs.length = e'.probs.length := by rw [e.sized, e'.sized, hcount]
  obtain ⟨hprobs, -⟩ := List.append_inj hrest (by
    rw [length_flatMap_of_length u64_length, length_flatMap_of_length u64_length, hlen])
  have hwords := (flatMap_eq_iff_of_decodable uniquelyDecodable_u64 _ _).mp hprobs
  have hbits := List.map_injective_iff.mpr (fun _ _ => u64_injective) hwords
  cases e
  cases e'
  rw [mk.injEq]
  exact ⟨u16_injective hmarket, hcount, hbits⟩

theorem bytes_injective : Function.Injective bytes := fun _ _ h =>
  eq_of_bytes_append (congrArg (· ++ []) h)

theorem bytes_ne_nil (e : HashedPrice) : e.bytes ≠ [] := by
  intro h
  have hlen := congrArg List.length h
  unfold bytes at hlen
  rw [List.length_append, List.length_cons, List.length_nil] at hlen
  omega

theorem uniquelyDecodable : UniquelyDecodable (Set.range bytes) := by
  refine PrefixFree.uniquelyDecodable ?_ ?_
  · rintro _ ⟨e, rfl⟩ _ ⟨e', rfl⟩ x y heq
    exact congrArg bytes (eq_of_bytes_append heq)
  · rintro ⟨e, he⟩
    exact bytes_ne_nil e he

end HashedPrice

/-! ## 2. What a run feeds -/

variable {F : Type} [DoubleArith F] [Convert F]

/-- What is hashed of a computed price. -/
def Price.hashed (p : Price F) : HashedPrice where
  marketId := p.marketId
  count := p.fair.count
  probs := (span p.fair.prob p.fair.count.toNat).map Convert.bits
  sized := by
    unfold span
    rw [List.length_map, List.length_take, List.length_ofFn]

/-- The bytes of a run's prices, in the order they were computed. -/
def fedBytes (ps : List (Price F)) : Bytes := (ps.map Price.hashed).flatMap HashedPrice.bytes

omit [DoubleArith F] in
/-- The bytes tell the prices apart, but for the tick they belong to. -/
theorem fedBytes_inj (ps qs : List (Price F)) :
    fedBytes ps = fedBytes qs ↔ ps.map Price.hashed = qs.map Price.hashed := by
  refine (flatMap_eq_iff_of_decodable HashedPrice.uniquelyDecodable _ _).trans ?_
  exact (List.map_injective_iff.mpr HashedPrice.bytes_injective).eq_iff

omit [DoubleArith F] in
/-- One price into the digest, as its bytes. -/
theorem mixPrice_eq (state : UInt64) (p : Price F) :
    mixPrice state p.marketId p.fair = ReplayHash.mixBytes state p.hashed.bytes := by
  have hprobs : ∀ (xs : List F) (s : UInt64),
      xs.foldl (fun s x => ReplayHash.mixU64 s (Convert.bits x)) s =
        ReplayHash.mixBytes s ((xs.map Convert.bits).flatMap u64) := by
    intro xs
    induction xs with
    | nil => exact fun _ => rfl
    | cons x xs ih =>
      intro s
      rw [List.foldl_cons, ih, List.map_cons, List.flatMap_cons, ReplayHash.mixBytes_append]
      rfl
  unfold mixPrice HashedPrice.bytes
  rw [hprobs]
  show ReplayHash.mixBytes (ReplayHash.mixBytes (ReplayHash.mixBytes state (u16 p.marketId))
    [p.fair.count]) _ = _
  rw [← ReplayHash.mixBytes_append, ← ReplayHash.mixBytes_append]
  rfl

/-- The digest stands where the prices computed so far have taken it. -/
def Hashed (st : EngineState F) : Prop :=
  st.hash = ReplayHash.mixBytes ReplayHash.kOffsetBasis (fedBytes st.prices)

omit [DoubleArith F] in
/-- One market: a price goes into the list and into the digest, or into neither. -/
theorem hashed_recordMarket {opt : Options F} (hhash : opt.hash = true) (ts : UInt64) (push : Bool)
    (m : Nat) {st : EngineState F} (h : Hashed st) (fair : ConsensusResult F)
    (bets : List (BetRecord F)) : Hashed (recordMarket opt ts push m st fair bets) := by
  unfold recordMarket
  split
  · exact h
  · have hmix := mixPrice_eq st.hash
      ({ simTimestampNs := ts, marketId := m.toUInt16, fair := fair } : Price F)
    unfold Hashed at h ⊢
    dsimp only at hmix ⊢
    rw [hmix, h, ← ReplayHash.mixBytes_append]
    unfold fedBytes
    rw [List.map_append, List.flatMap_append, List.map_cons, List.map_nil, List.flatMap_cons,
      List.flatMap_nil, List.append_nil]

/-- The dashboard's share of a tick touches neither. -/
theorem hashed_beginTick (opt : Options F) (service : Nat → Service) (ts : UInt64)
    {st : EngineState F} (h : Hashed st) : Hashed (beginTick opt service ts st).1 := by
  unfold beginTick
  split
  · exact h
  · dsimp only
    split
    · exact h
    · exact h

omit [DoubleArith F] in
theorem hashed_endTick (push : Bool) {st : EngineState F} (h : Hashed st) :
    Hashed (endTick push st) := by
  unfold endTick
  split
  · exact h
  · exact h

/-- One tick. -/
theorem hashed_tickState {opt : Options F} (hhash : opt.hash = true) (service : Nat → Service)
    (shape : Shape) (ts : UInt64) (table : Table) {st : EngineState F} (h : Hashed st) :
    Hashed (tickState opt service shape ts table st) := by
  have hmarkets : ∀ (ms : List (Fin shape.markets)) (push : Bool) (st : EngineState F), Hashed st →
      Hashed (ms.foldl (fun st m => recordMarket opt ts push m.val st
        (marketFair st.cfg table shape m ts)
        (marketBets st.cfg (!opt.betsOut.isEmpty) table shape m ts)) st) := by
    intro ms push
    induction ms with
    | nil => exact fun _ h => h
    | cons m ms ih => exact fun st h => ih _ (hashed_recordMarket hhash ts push m.val h _ _)
  exact hashed_endTick _ (hmarkets _ _ _ (hashed_beginTick opt service ts h))

/-- **The digest of a run is that of its prices' bytes**, in the order they were computed. -/
theorem hash_of_run_ok {opt : Options F} {service : Nat → Service} {shape : Shape}
    {rs : List OddsUpdate} {st : EngineState F} (hhash : opt.hash = true)
    (h : run opt service shape rs = .ok st) :
    st.hash = ReplayHash.mixBytes ReplayHash.kOffsetBasis (fedBytes st.prices) := by
  have hticks : ∀ (cs : List (UInt64 × Table)) (st : EngineState F), Hashed st →
      Hashed (cs.foldl (fun st c => tickState opt service shape c.1 c.2 st) st) := by
    intro cs
    induction cs with
    | nil => exact fun _ h => h
    | cons c cs ih => exact fun st h => ih _ (hashed_tickState hhash service shape c.1 c.2 h)
  rw [eq_of_run_ok h]
  exact hticks (ticksOf rs) opt.initial rfl

/-! ## 3. What goes unnoticed -/

/-- A step of the fair-price trajectory: the tick, and what was priced. -/
def Price.entry (p : Price F) : UInt64 × HashedPrice := (p.tick, p.hashed)

/-- **Two `--hash` runs feed the same bytes exactly if they price the same**: the same markets,
    counts and probabilities, in the same order; and what each feeds is all its digest depends
    on. -/
theorem fedBytes_eq_iff {optA optB : Options F} {serviceA serviceB : Nat → Service}
    {shapeA shapeB : Shape} {rsA rsB : List OddsUpdate} {stA stB : EngineState F}
    (hashA : optA.hash = true) (hashB : optB.hash = true)
    (runA : run optA serviceA shapeA rsA = .ok stA) (runB : run optB serviceB shapeB rsB = .ok stB) :
    stA.hash = ReplayHash.mixBytes ReplayHash.kOffsetBasis (fedBytes stA.prices) ∧
      stB.hash = ReplayHash.mixBytes ReplayHash.kOffsetBasis (fedBytes stB.prices) ∧
      (fedBytes stA.prices = fedBytes stB.prices ↔
        stA.prices.map Price.hashed = stB.prices.map Price.hashed) :=
  ⟨hash_of_run_ok hashA runA, hash_of_run_ok hashB runB, fedBytes_inj _ _⟩

/-- The options of `plainOptions`, with `--hash`. -/
noncomputable def digestOptions : Options ℝ := { plainOptions with hash := true }

/-- The quote of `evenQuote`, at the time `ts`. -/
def quoteAt (ts : UInt64) : OddsUpdate := { evenQuote with simTimestampNs := ts }

/-- What the quote comes to, whenever it is priced. -/
noncomputable def evenFair : ConsensusResult ℝ :=
  Consensus.fairPrice [quoteInput .multiplicative (Quote.ofUpdate evenQuote 0)]

/-- A session of that one quote is one price, at the quote's time. -/
theorem run_quoteAt (ts : UInt64) :
    ∃ st, run digestOptions noService oneBook [quoteAt ts] = .ok st ∧
      st.prices = [{ simTimestampNs := ts, marketId := 0, fair := evenFair }] := by
  have hcounts : ∀ c ∈ ticksOf [quoteAt ts], CountsOk c.2 :=
    countsOk_ticksOf fun u hu => by
      rw [List.mem_singleton.mp hu]
      show (2 : UInt8).toNat ≤ kMaxOutcomes
      decide
  obtain ⟨st, hrun, hprices, -⟩ := run_results digestOptions noService oneBook hcounts
  have hfresh : Fresh digestOptions.initial.cfg (BookTable.receive ({} : Table) (quoteAt ts)) (0, 0)
      ts := by
    show (if (1 : UInt64) = kEmptySeq then true else if ts ≤ ts then false else _) = false
    rw [if_neg (by decide), if_pos le_rfl]
  have hfair : marketFair digestOptions.initial.cfg (BookTable.receive ({} : Table) (quoteAt ts))
      oneBook ⟨0, by decide⟩ ts = evenFair := by
    show Consensus.fairPrice [bookInput digestOptions.initial.cfg _ (0, 0) ts] = evenFair
    unfold bookInput evenFair
    rw [if_pos hfresh]
    rfl
  have hhas : evenFair.hasFairPrice = true := by
    rw [← hfair, hasFairPrice_marketFair_iff]
    have husable : Usable ℝ .multiplicative (Quote.ofUpdate evenQuote ts) := by
      have hodds : (quoteOdds (Quote.ofUpdate evenQuote ts) : List ℝ) =
          quoteOdds (Quote.ofUpdate evenQuote 0) := rfl
      unfold Usable
      rw [hodds]
      exact usable_evenQuote
    have hquote : (BookTable.receive ({} : Table) (quoteAt ts)).get (0, 0) =
        Quote.ofUpdate evenQuote ts := rfl
    refine ⟨⟨0, by decide⟩, hfresh, ?_⟩
    show Usable ℝ .multiplicative (BookTable.get _ (0, 0))
    rw [hquote]
    exact husable
  refine ⟨st, hrun, ?_⟩
  rw [hprices]
  show marketPrices digestOptions.initial.cfg oneBook ts _ ⟨0, by decide⟩ ++ [] ++ [] = _
  unfold marketPrices
  rw [hfair, if_pos hhas]
  rfl

/-- The same quote in two sessions, a tick apart: the bytes are the same. -/
theorem shifted_unnoticed :
    ∃ stA stB, run digestOptions noService oneBook [quoteAt 0] = .ok stA ∧
      run digestOptions noService oneBook [quoteAt kTickIntervalNs] = .ok stB ∧
      stA.prices.map Price.entry ≠ stB.prices.map Price.entry ∧
      fedBytes stA.prices = fedBytes stB.prices := by
  obtain ⟨stA, hrunA, hpricesA⟩ := run_quoteAt 0
  obtain ⟨stB, hrunB, hpricesB⟩ := run_quoteAt kTickIntervalNs
  refine ⟨stA, stB, hrunA, hrunB, ?_, ?_⟩
  · rw [hpricesA, hpricesB]
    intro h
    have htick := congrArg Prod.fst (List.cons.inj h).1
    exact absurd htick (by decide)
  · rw [hpricesA, hpricesB]
    rfl

/-- Those two sessions' bytes, by the equivalence. -/
theorem fedBytes_eq_iff_shifted :
    ∃ stA stB, run digestOptions noService oneBook [quoteAt 0] = .ok stA ∧
      run digestOptions noService oneBook [quoteAt kTickIntervalNs] = .ok stB ∧
      stA.hash = ReplayHash.mixBytes ReplayHash.kOffsetBasis (fedBytes stA.prices) ∧
      stB.hash = ReplayHash.mixBytes ReplayHash.kOffsetBasis (fedBytes stB.prices) ∧
      (fedBytes stA.prices = fedBytes stB.prices ↔
        stA.prices.map Price.hashed = stB.prices.map Price.hashed) := by
  obtain ⟨stA, hrunA, -⟩ := run_quoteAt 0
  obtain ⟨stB, hrunB, -⟩ := run_quoteAt kTickIntervalNs
  exact ⟨stA, stB, hrunA, hrunB, fedBytes_eq_iff rfl rfl hrunA hrunB⟩

end OddsEngine
