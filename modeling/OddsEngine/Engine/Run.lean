/-
  File:      OddsEngine/Engine/Run.lean
  Subject:   The engine's run over a source (`run`, engine/main.cpp).

  The record loop looks one record back: a record whose timestamp differs from the last one's
  closes a tick, and the end of the stream closes the last. `recordLoop` is that loop, over any
  effect and any way to price a tick; `processTick` is the engine's.

  * `recordLoop_eq_cuts` -- the loop prices exactly the CUTS of the stream, in order, each with
    the table as it stood there;
  * `processTick_of_inBounds`, `processTick_of_outOfBounds` -- where every market stays in bounds,
    one tick is the dashboard's share (`beginTick`), then the markets one after the other, then the
    push; where one does not, the tick misses an access;
  * `results_of_run_ok` -- the prices and bets of a run are those of its ticks, one after the other.

  Standard output (the summary lines) is not modelled; nothing reads it back.
-/
import OddsEngine.Engine.Market
import OddsEngine.Engine.ReplayHash
import OddsEngine.Engine.TableHistory
import OddsEngine.Lib.Cuts

namespace OddsEngine

open Lib

/-! ## 1. The record loop -/

section Loop

variable {M : Type → Type} [Monad M] {σ : Type}
  (tick : UInt64 → Table → σ → M σ)

/-- What the record loop keeps between two records. -/
structure LoopState (σ : Type) where
  haveTick : Bool
  curTs : UInt64
  table : Table
  st : σ

/-- One record. The tick it closes is priced before the record reaches the table. -/
def recordStep (s : LoopState σ) (u : OddsUpdate) : M (LoopState σ) := do
  let st ← if s.haveTick && decide (u.simTimestampNs ≠ s.curTs) then tick s.curTs s.table s.st
    else pure s.st
  return { haveTick := true, curTs := u.simTimestampNs, table := s.table.receive u, st := st }

/-- The loop over the records a source delivers, and the last tick after it. -/
def recordLoop (rs : List OddsUpdate) (st : σ) : M σ := do
  let s ← rs.foldlM (recordStep tick)
    { haveTick := false, curTs := 0, table := {}, st := st }
  if s.haveTick then tick s.curTs s.table s.st else pure s.st

/-- The ticks of a stream: each timestamp handed to `process_tick`, and the table it sees. -/
def ticksOf (rs : List OddsUpdate) : List (UInt64 × Table) :=
  cuts OddsUpdate.simTimestampNs BookTable.receive {} rs

/-- Past the first record, the rest of the loop prices the cuts of the stream from there. -/
theorem foldlM_recordStep [LawfulMonad M] (a : OddsUpdate) (rs : List OddsUpdate) (t : Table)
    (st : σ) :
    (do
      let s ← rs.foldlM (recordStep tick)
        { haveTick := true, curTs := a.simTimestampNs, table := t.receive a, st := st }
      if s.haveTick then tick s.curTs s.table s.st else pure s.st) =
    (cuts OddsUpdate.simTimestampNs BookTable.receive t (a :: rs)).foldlM
      (fun st c => tick c.1 c.2 st) st := by
  induction rs generalizing a t st with
  | nil => simp
  | cons b rs ih =>
    rw [List.foldlM_cons, cuts_cons_cons, List.foldlM_append]
    by_cases hab : a.simTimestampNs = b.simTimestampNs
    · have hstep : recordStep tick
          { haveTick := true, curTs := a.simTimestampNs, table := t.receive a, st := st } b =
          pure { haveTick := true, curTs := b.simTimestampNs, table := (t.receive a).receive b,
                 st := st } := by
        simp [recordStep, hab]
      rw [hstep, seam_of_eq _ hab, pure_bind, ih b (t.receive a) st]
      simp
    · have hba : b.simTimestampNs ≠ a.simTimestampNs := fun e => hab e.symm
      have hstep : recordStep tick
          { haveTick := true, curTs := a.simTimestampNs, table := t.receive a, st := st } b =
          (do
            let st ← tick a.simTimestampNs (t.receive a) st
            pure { haveTick := true, curTs := b.simTimestampNs,
                   table := (t.receive a).receive b, st := st }) := by
        simp [recordStep, hba]
      rw [hstep, seam_of_ne _ hab]
      simp only [List.foldlM_cons, List.foldlM_nil, bind_assoc, pure_bind]
      exact congrArg _ (funext fun st' => ih b (t.receive a) st')

/-- **The record loop prices the cuts of the stream**, in order, and nothing else. -/
theorem recordLoop_eq_cuts [LawfulMonad M] (rs : List OddsUpdate) (st : σ) :
    recordLoop tick rs st = (ticksOf rs).foldlM (fun st c => tick c.1 c.2 st) st := by
  cases rs with
  | nil => simp [recordLoop, ticksOf]
  | cons a rs =>
    have hstep : recordStep tick { haveTick := false, curTs := 0, table := {}, st := st } a =
        pure { haveTick := true, curTs := a.simTimestampNs,
               table := BookTable.receive {} a, st := st } := by
      simp [recordStep]
    unfold recordLoop
    rw [List.foldlM_cons, hstep, pure_bind]
    exact foldlM_recordStep tick a rs {} st

end Loop

/-! ## 2. One tick -/

structure Options (F : Type) where
  /-- 0: no dashboard. -/
  wsPort : UInt16
  /-- Markets per dashboard push. -/
  wsMarkets : UInt32
  /-- Empty: no bet log. -/
  betsOut : Bytes
  hash : Bool
  staleMs : UInt64
  kellyFraction : F
  maxExposure : F
  devigMethod : DevigMethod

/-- What one call of `service()` and the clock read after it come to: the texts clients sent,
    and whether a push is due. -/
structure Service where
  texts : List Bytes
  pushDue : Bool

/-- A fair price computed. -/
structure Price (F : Type) where
  simTimestampNs : UInt64
  marketId : UInt16
  fair : ConsensusResult F

/-- The tick number a price belongs to. -/
def Price.tick {F : Type} (p : Price F) : UInt64 := p.simTimestampNs / kTickIntervalNs

structure EngineState (F : Type) where
  cfg : LiveConfig F
  /-- The digest's state. -/
  hash : UInt64 := ReplayHash.kOffsetBasis
  consensusCount : UInt64 := 0
  noPriceCount : UInt64 := 0
  betsPlaced : UInt64 := 0
  wsPushes : UInt64 := 0
  wsJson : Bytes := []
  wsFirst : Bool := true
  /-- Calls of `service()` so far. -/
  serviceCalls : Nat := 0
  /-- The fair prices computed, in order. -/
  prices : List (Price F) := []
  /-- The records the bet log accepted, in order. -/
  bets : List (BetRecord F) := []
  /-- The texts broadcast, in order. -/
  pushes : List Bytes := []

variable {F : Type} [DoubleArith F] [Convert F]

/-- The part of a push that one market adds. -/
def marketJson (m : Nat) (fair : ConsensusResult F) : Bytes :=
  let probs := (span fair.prob fair.count.toNat).map (Convert.fixed 6)
  snprintf 192 (ascii "\x7b\"i\":" ++ decimal m ++ ascii ",\"p\":[" ++
    (ascii ",").intercalate probs ++ ascii "],\"b\":" ++ decimal fair.booksUsed ++ ascii "\x7d")

/-- The head of a push: the tick, and the configuration in force. -/
def tickJson (tick : UInt64) (cfg : LiveConfig F) : Bytes :=
  ascii "\x7b\"t\":" ++ decimal tick.toNat ++
    snprintf 192 (ascii ",\"c\":\x7b\"stale_ms\":" ++ decimal cfg.staleMs.toNat ++
      ascii ",\"kelly\":" ++ Convert.fixed 4 cfg.kellyFraction ++
      ascii ",\"exposure\":" ++ Convert.fixed 4 cfg.maxExposure ++
      ascii ",\"devig\":\"" ++ devigName cfg.devigMethod ++ ascii "\"\x7d") ++
    ascii ",\"m\":["

/-- A price into the digest: the market, the count, the probabilities' bytes. -/
def mixPrice (state : UInt64) (m : UInt16) (fair : ConsensusResult F) : UInt64 :=
  (span fair.prob fair.count.toNat).foldl
    (fun s p => ReplayHash.mixU64 s (Convert.bits p))
    (ReplayHash.mixBytes (ReplayHash.mixU16 state m) [fair.count])

/-- A market's result, entered into the engine's state. -/
def recordMarket (opt : Options F) (ts : UInt64) (push : Bool) (m : Nat) (st : EngineState F)
    (fair : ConsensusResult F) (bets : List (BetRecord F)) : EngineState F :=
  if !fair.hasFairPrice then { st with noPriceCount := st.noPriceCount + 1 }
  else
    let shown := push && decide (m < opt.wsMarkets.toNat)
    { st with
      consensusCount := st.consensusCount + 1
      prices := st.prices ++ [{ simTimestampNs := ts, marketId := m.toUInt16, fair := fair }]
      bets := st.bets ++ bets
      betsPlaced := st.betsPlaced + bets.length.toUInt64
      wsJson := if shown then
          st.wsJson ++ (if st.wsFirst then [] else ascii ",") ++ marketJson m fair
        else st.wsJson
      wsFirst := if shown then false else st.wsFirst
      hash := if opt.hash then mixPrice st.hash m.toUInt16 fair else st.hash }

/-- One round of the market loop, under the configuration the state holds. -/
def processMarket (opt : Options F) (table : Table) (shape : Shape) (ts : UInt64) (push : Bool)
    (st : EngineState F) (m : Fin shape.markets) : Except OutOfBounds (EngineState F) := do
  let (fair, bets) ← priceMarket st.cfg (!opt.betsOut.isEmpty) table shape m ts
  return recordMarket opt ts push m.val st fair bets

/-- The dashboard's share of a tick, before the markets: `service()` applies the commands that
    arrived; a push that is due is begun. -/
def beginTick (opt : Options F) (service : Nat → Service) (ts : UInt64) (st : EngineState F) :
    EngineState F × Bool :=
  if opt.wsPort = 0 then ({ st with wsFirst := true }, false)
  else
    let call := service st.serviceCalls
    let cfg := dispatchPending call.texts st.cfg opt.hash
    let st := { st with cfg := cfg, serviceCalls := st.serviceCalls + 1, wsFirst := true }
    if call.pushDue then ({ st with wsJson := tickJson (ts / kTickIntervalNs) cfg }, true)
    else (st, false)

/-- A push begun is broadcast. -/
def endTick (push : Bool) (st : EngineState F) : EngineState F :=
  if push then
    let text := st.wsJson ++ ascii "]\x7d"
    { st with wsJson := text, pushes := st.pushes ++ [text], wsPushes := st.wsPushes + 1 }
  else st

def processTick (opt : Options F) (service : Nat → Service) (shape : Shape) (ts : UInt64)
    (table : Table) (st : EngineState F) : Except OutOfBounds (EngineState F) := do
  let (st, push) := beginTick opt service ts st
  let st ← (List.finRange shape.markets).foldlM (processMarket opt table shape ts push) st
  return endTick push st

/-! ## 3. The run -/

/-- The header checks. -/
def admitShape (h : SessionHeader) : Except Bytes Shape :=
  if hm : h.markets.toNat > 1024 then
    .error (ascii "session has " ++ decimal h.markets.toNat ++
      ascii " markets, engine table holds 1024")
  else if hb : h.books.toNat > 16 then
    .error (ascii "session has " ++ decimal h.books.toNat ++
      ascii " books, engine table holds 16")
  else
    .ok { markets := h.markets.toNat, books := h.books.toNat, markets_le := Nat.not_lt.mp hm,
          books_le := Nat.not_lt.mp hb }

/-- The configuration a run starts with. -/
def Options.initial (opt : Options F) : EngineState F :=
  { cfg := { staleMs := opt.staleMs, kellyFraction := opt.kellyFraction,
             maxExposure := opt.maxExposure, devigMethod := opt.devigMethod, changes := 0 } }

/-- A run over the records `rs` of a source of shape `shape`. -/
def run (opt : Options F) (service : Nat → Service) (shape : Shape) (rs : List OddsUpdate) :
    Except OutOfBounds (EngineState F) :=
  recordLoop (processTick opt service shape) rs opt.initial

/-! ## 4. Runs that stay in bounds -/

/-- No quote of the table states more than four outcomes. -/
def CountsOk (table : Table) : Prop :=
  ∀ s, (table.get s).outcomeCount.toNat ≤ kMaxOutcomes

theorem countsOk_empty : CountsOk {} := fun _ => Nat.zero_le _

/-- A record of at most four outcomes keeps the table so; a rejected record always does. -/
theorem countsOk_apply {table : Table} (h : CountsOk table) {u : OddsUpdate} (nowNs : UInt64)
    (hu : u.outcomeCount.toNat ≤ kMaxOutcomes) : CountsOk (table.apply u nowNs).1 := by
  intro s
  rcases BookTable.apply_cases table u nowNs with
    ⟨_, e⟩ | ⟨_, _, _, _, e⟩ | ⟨s', _, _, e⟩
  · rw [e]
    exact h s
  · rw [e]
    exact h s
  · rw [e]
    by_cases hs : s = s'
    · subst hs
      simpa [BookTable.get, Quote.ofUpdate] using hu
    · have hget : (Function.update table.table s' (Quote.ofUpdate u nowNs)) s =
          table.table s := Function.update_of_ne hs _ _
      show ((Function.update table.table s' _) s).outcomeCount.toNat ≤ _
      rw [hget]
      exact h s

theorem countsOk_receive {table : Table} (h : CountsOk table) {u : OddsUpdate}
    (hu : u.outcomeCount.toNat ≤ kMaxOutcomes) : CountsOk (table.receive u) :=
  countsOk_apply h _ hu

/-- No sequence of records of at most four outcomes leads to a longer quote. -/
theorem countsOk_applyAll {calls : List (OddsUpdate × UInt64)}
    (h : ∀ c ∈ calls, c.1.outcomeCount.toNat ≤ kMaxOutcomes) {table : Table}
    (ht : CountsOk table) : CountsOk (table.applyAll calls) := by
  induction calls generalizing table with
  | nil => exact ht
  | cons c calls ih =>
    exact ih (fun d hd => h d (List.mem_cons_of_mem c hd))
      (countsOk_apply ht c.2 (h c List.mem_cons_self))

theorem countsOk_foldl {rs : List OddsUpdate}
    (h : ∀ u ∈ rs, u.outcomeCount.toNat ≤ kMaxOutcomes) {table : Table} (ht : CountsOk table) :
    CountsOk (rs.foldl BookTable.receive table) := by
  induction rs generalizing table with
  | nil => exact ht
  | cons u rs ih =>
    exact ih (fun v hv => h v (List.mem_cons_of_mem u hv))
      (countsOk_receive ht (h u List.mem_cons_self))

theorem countsOk_ticksOf {rs : List OddsUpdate}
    (h : ∀ u ∈ rs, u.outcomeCount.toNat ≤ kMaxOutcomes) : ∀ c ∈ ticksOf rs, CountsOk c.2 := by
  intro c hc
  obtain ⟨p, q, hpq, hfold⟩ := mem_cuts _ _ hc
  rw [hfold]
  exact countsOk_foldl (fun u hu => h u (hpq ▸ List.mem_append_left q hu)) countsOk_empty

/-- No market takes the loops of a tick out of bounds. -/
def TickInBounds (cfg : LiveConfig F) (shape : Shape) (ts : UInt64) (table : Table) : Prop :=
  ∀ m, MarketInBounds cfg table shape m ts

omit [DoubleArith F] [Convert F] in
theorem CountsOk.marketInBounds {table : Table} (h : CountsOk table) (cfg : LiveConfig F)
    (shape : Shape) (m : Fin shape.markets) (ts : UInt64) : MarketInBounds cfg table shape m ts :=
  fun b _ => h (shape.slot m b)

omit [DoubleArith F] [Convert F] in
theorem CountsOk.tickInBounds {table : Table} (h : CountsOk table) (cfg : LiveConfig F)
    (shape : Shape) (ts : UInt64) : TickInBounds cfg shape ts table :=
  fun m => h.marketInBounds cfg shape m ts

/-- `processTick`, where no access can miss. -/
def tickState (opt : Options F) (service : Nat → Service) (shape : Shape) (ts : UInt64)
    (table : Table) (st : EngineState F) : EngineState F :=
  let begun := beginTick opt service ts st
  endTick begun.2 ((List.finRange shape.markets).foldl
    (fun st m => recordMarket opt ts begun.2 m.val st (marketFair st.cfg table shape m ts)
      (marketBets st.cfg (!opt.betsOut.isEmpty) table shape m ts)) begun.1)

omit [DoubleArith F] in
theorem recordMarket_cfg (opt : Options F) (ts : UInt64) (push : Bool) (m : Nat)
    (st : EngineState F) (fair : ConsensusResult F) (bets : List (BetRecord F)) :
    (recordMarket opt ts push m st fair bets).cfg = st.cfg := by
  unfold recordMarket
  split
  · rfl
  · rfl

/-- The market loop of a tick comes to its end where all markets stay in bounds, and faults at
    index four where one does not. -/
theorem foldlM_processMarket (opt : Options F) (table : Table) (shape : Shape) (ts : UInt64)
    (push : Bool) (st : EngineState F) :
    (TickInBounds st.cfg shape ts table →
      (List.finRange shape.markets).foldlM (processMarket opt table shape ts push) st =
        .ok ((List.finRange shape.markets).foldl
          (fun st m => recordMarket opt ts push m.val st (marketFair st.cfg table shape m ts)
            (marketBets st.cfg (!opt.betsOut.isEmpty) table shape m ts)) st)) ∧
      (¬ TickInBounds st.cfg shape ts table →
        (List.finRange shape.markets).foldlM (processMarket opt table shape ts push) st =
          .error ⟨kMaxOutcomes, kMaxOutcomes⟩) := by
  have hfold := @foldlM_guarded _ _ _ (processMarket opt table shape ts push)
    (fun st m => recordMarket opt ts push m.val st (marketFair st.cfg table shape m ts)
      (marketBets st.cfg (!opt.betsOut.isEmpty) table shape m ts))
    ⟨kMaxOutcomes, kMaxOutcomes⟩ (fun st' => st'.cfg = st.cfg)
    (fun m => MarketInBounds st.cfg table shape m ts) (List.finRange shape.markets)
    (by
      intro st' hcfg m _ hm
      rw [← hcfg] at hm
      unfold processMarket
      rw [priceMarket_eq _ _ _ _ hm]
      rfl)
    (by
      intro st' hcfg m _ hm
      rw [← hcfg] at hm
      unfold processMarket
      rw [priceMarket_fault _ _ _ _ hm]
      rfl)
    (fun st' hcfg m => (recordMarket_cfg opt ts push m.val st' _ _).trans hcfg) st rfl
  refine ⟨fun h => hfold.1 fun m _ => h m, fun h => hfold.2 ?_⟩
  obtain ⟨m, hm⟩ := Classical.not_forall.mp h
  exact ⟨m, List.mem_finRange m, hm⟩

theorem processTick_of_inBounds {opt : Options F} {service : Nat → Service} {shape : Shape}
    {ts : UInt64} {table : Table} {st : EngineState F}
    (h : TickInBounds (beginTick opt service ts st).1.cfg shape ts table) :
    processTick opt service shape ts table st = .ok (tickState opt service shape ts table st) := by
  unfold processTick tickState
  show (List.foldlM _ (beginTick opt service ts st).1 (List.finRange shape.markets) >>=
    fun st => pure (endTick _ st)) = _
  rw [(foldlM_processMarket opt table shape ts _ _).1 h]
  rfl

theorem processTick_of_outOfBounds {opt : Options F} {service : Nat → Service} {shape : Shape}
    {ts : UInt64} {table : Table} {st : EngineState F}
    (h : ¬ TickInBounds (beginTick opt service ts st).1.cfg shape ts table) :
    processTick opt service shape ts table st = .error ⟨kMaxOutcomes, kMaxOutcomes⟩ := by
  unfold processTick
  show (List.foldlM _ (beginTick opt service ts st).1 (List.finRange shape.markets) >>=
    fun st => pure (endTick _ st)) = _
  rw [(foldlM_processMarket opt table shape ts _ _).2 h]
  rfl

theorem processTick_cases (opt : Options F) (service : Nat → Service) (shape : Shape) (ts : UInt64)
    (table : Table) (st : EngineState F) :
    processTick opt service shape ts table st = .ok (tickState opt service shape ts table st) ∨
      processTick opt service shape ts table st = .error ⟨kMaxOutcomes, kMaxOutcomes⟩ := by
  by_cases h : TickInBounds (beginTick opt service ts st).1.cfg shape ts table
  · exact Or.inl (processTick_of_inBounds h)
  · exact Or.inr (processTick_of_outOfBounds h)

/-- A run that comes to its end went tick by tick. -/
theorem eq_of_run_ok {opt : Options F} {service : Nat → Service} {shape : Shape}
    {rs : List OddsUpdate} {st : EngineState F} (h : run opt service shape rs = .ok st) :
    st = (ticksOf rs).foldl (fun st c => tickState opt service shape c.1 c.2 st) opt.initial := by
  unfold run at h
  rw [recordLoop_eq_cuts] at h
  rcases foldlM_cases (fun st (c : UInt64 × Table) (_ : c ∈ ticksOf rs) =>
    processTick_cases opt service shape c.1 c.2 st) opt.initial with hok | herr
  · rw [hok] at h
    exact (Except.ok.inj h).symm
  · rw [herr] at h
    cases h

/-- **A run whose ticks see no quote of more than four outcomes misses no access.** -/
theorem run_eq (opt : Options F) (service : Nat → Service) (shape : Shape) {rs : List OddsUpdate}
    (h : ∀ c ∈ ticksOf rs, CountsOk c.2) :
    run opt service shape rs =
      .ok ((ticksOf rs).foldl (fun st c => tickState opt service shape c.1 c.2 st) opt.initial) := by
  unfold run
  rw [recordLoop_eq_cuts]
  exact foldlM_ok _ (fun st c hc =>
    processTick_of_inBounds ((h c hc).tickInBounds _ shape c.1)) _

/-! ## 5. What a run computes -/

section Outputs

variable (cfg : LiveConfig F) (betlog : Bool) (shape : Shape) (ts : UInt64) (table : Table)

/-- The fair price of one market, where there is one. -/
def marketPrices (m : Fin shape.markets) : List (Price F) :=
  if (marketFair cfg table shape m ts).hasFairPrice then
    [{ simTimestampNs := ts, marketId := m.val.toUInt16, fair := marketFair cfg table shape m ts }]
  else []

/-- The fair prices of one tick. -/
def tickPrices : List (Price F) :=
  (List.finRange shape.markets).flatMap (marketPrices cfg shape ts table)

/-- The bets of one tick. -/
def tickBets : List (BetRecord F) :=
  (List.finRange shape.markets).flatMap fun m => marketBets cfg betlog table shape m ts

end Outputs

/-- What a stretch of a run adds to the engine's results. -/
structure Adds (st st' : EngineState F) (prices : List (Price F)) (bets : List (BetRecord F)) :
    Prop where
  cfg : st'.cfg = st.cfg
  calls : st'.serviceCalls = st.serviceCalls
  prices : st'.prices = st.prices ++ prices
  bets : st'.bets = st.bets ++ bets

omit [DoubleArith F] [Convert F] in
theorem Adds.trans {st st' st'' : EngineState F} {p p' : List (Price F)} {b b' : List (BetRecord F)}
    (h : Adds st st' p b) (h' : Adds st' st'' p' b') : Adds st st'' (p ++ p') (b ++ b') where
  cfg := h'.cfg.trans h.cfg
  calls := h'.calls.trans h.calls
  prices := by rw [h'.prices, h.prices, List.append_assoc]
  bets := by rw [h'.bets, h.bets, List.append_assoc]

omit [Convert F] in
theorem marketBets_of_no_price {cfg : LiveConfig F} {betlog : Bool} {table : Table} {shape : Shape}
    {m : Fin shape.markets} {ts : UInt64}
    (h : (marketFair cfg table shape m ts).hasFairPrice = false) :
    marketBets cfg betlog table shape m ts = [] := by
  unfold marketBets betsOn
  rw [h, Bool.and_false]
  rfl

/-- One market adds its price and its bets. -/
theorem adds_recordMarket (opt : Options F) (shape : Shape) (ts : UInt64) (table : Table)
    (push : Bool) (m : Fin shape.markets) (st : EngineState F) :
    Adds st (recordMarket opt ts push m.val st (marketFair st.cfg table shape m ts)
        (marketBets st.cfg (!opt.betsOut.isEmpty) table shape m ts))
      (marketPrices st.cfg shape ts table m)
      (marketBets st.cfg (!opt.betsOut.isEmpty) table shape m ts) := by
  unfold recordMarket marketPrices
  cases hfair : (marketFair st.cfg table shape m ts).hasFairPrice with
  | false =>
    rw [marketBets_of_no_price hfair]
    exact ⟨rfl, rfl, (List.append_nil _).symm, (List.append_nil _).symm⟩
  | true => exact ⟨rfl, rfl, rfl, rfl⟩

/-- The markets of a tick add their prices and bets, all under the configuration they find. -/
theorem adds_markets (opt : Options F) (shape : Shape) (ts : UInt64) (table : Table) (push : Bool)
    (ms : List (Fin shape.markets)) (st : EngineState F) :
    Adds st
      (ms.foldl (fun st m => recordMarket opt ts push m.val st (marketFair st.cfg table shape m ts)
        (marketBets st.cfg (!opt.betsOut.isEmpty) table shape m ts)) st)
      (ms.flatMap (marketPrices st.cfg shape ts table))
      (ms.flatMap fun m => marketBets st.cfg (!opt.betsOut.isEmpty) table shape m ts) := by
  induction ms generalizing st with
  | nil => exact ⟨rfl, rfl, (List.append_nil _).symm, (List.append_nil _).symm⟩
  | cons m ms ih =>
    have hm := adds_recordMarket opt shape ts table push m st
    have hms := ih (recordMarket opt ts push m.val st (marketFair st.cfg table shape m ts)
      (marketBets st.cfg (!opt.betsOut.isEmpty) table shape m ts))
    rw [hm.cfg] at hms
    exact hm.trans hms

/-- The configuration after `k` calls of `service()`. -/
def configAfter (opt : Options F) (service : Nat → Service) : Nat → LiveConfig F
  | 0 => (Options.initial opt).cfg
  | k + 1 =>
    if opt.wsPort = 0 then configAfter opt service k
    else dispatchPending (service k).texts (configAfter opt service k) opt.hash

/-- Where a run stands after `k` ticks. -/
structure AtTick (opt : Options F) (service : Nat → Service) (k : Nat) (st : EngineState F) :
    Prop where
  cfg : st.cfg = configAfter opt service k
  calls : opt.wsPort ≠ 0 → st.serviceCalls = k

/-- `service()` takes the configuration to the next one, and touches no result. -/
theorem beginTick_atTick (opt : Options F) (service : Nat → Service) (ts : UInt64) {k : Nat}
    {st : EngineState F} (h : AtTick opt service k st) :
    let st' := (beginTick opt service ts st).1
    AtTick opt service (k + 1) st' ∧ st'.prices = st.prices ∧ st'.bets = st.bets := by
  unfold beginTick
  by_cases hws : opt.wsPort = 0
  · have hcfg : configAfter opt service (k + 1) = configAfter opt service k := if_pos hws
    rw [if_pos hws]
    exact ⟨⟨h.cfg.trans hcfg.symm, fun hn => absurd hws hn⟩, rfl, rfl⟩
  · have hcfg : configAfter opt service (k + 1) =
        dispatchPending (service st.serviceCalls).texts st.cfg opt.hash := by
      rw [h.calls hws, h.cfg]
      exact if_neg hws
    have hcalls : st.serviceCalls + 1 = k + 1 := by rw [h.calls hws]
    rw [if_neg hws]
    dsimp only
    split
    · exact ⟨⟨hcfg.symm, fun _ => hcalls⟩, rfl, rfl⟩
    · exact ⟨⟨hcfg.symm, fun _ => hcalls⟩, rfl, rfl⟩

omit [DoubleArith F] [Convert F] in
/-- Broadcasting touches no result. -/
theorem adds_endTick (push : Bool) (st : EngineState F) : Adds st (endTick push st) [] [] := by
  cases push with
  | false => exact ⟨rfl, rfl, (List.append_nil _).symm, (List.append_nil _).symm⟩
  | true => exact ⟨rfl, rfl, (List.append_nil _).symm, (List.append_nil _).symm⟩

/-- **One tick runs under one configuration**, the one after its `service()`: it adds the prices
    and the bets of that configuration. -/
theorem tick_adds (opt : Options F) (service : Nat → Service) (shape : Shape) (ts : UInt64)
    (table : Table) {k : Nat} {st : EngineState F} (h : AtTick opt service k st) :
    let st' := tickState opt service shape ts table st
    let cfg := configAfter opt service (k + 1)
    AtTick opt service (k + 1) st' ∧
      st'.prices = st.prices ++ tickPrices cfg shape ts table ∧
      st'.bets = st.bets ++ tickBets cfg (!opt.betsOut.isEmpty) shape ts table := by
  obtain ⟨⟨hcfg, hcalls⟩, hprices, hbets⟩ := beginTick_atTick opt service ts h
  have hm := (adds_markets opt shape ts table (beginTick opt service ts st).2
    (List.finRange shape.markets) (beginTick opt service ts st).1).trans
    (adds_endTick (beginTick opt service ts st).2 _)
  rw [hcfg, List.append_nil, List.append_nil] at hm
  refine ⟨⟨hm.cfg.trans hcfg, fun hws => hm.calls.trans (hcalls hws)⟩, ?_, ?_⟩
  · have h1 := hm.prices
    rw [hprices] at h1
    exact h1
  · have h1 := hm.bets
    rw [hbets] at h1
    exact h1

/-- The ticks of a run, each with the configuration in force after its `service()`. -/
def ticksUnder (opt : Options F) (service : Nat → Service) (rs : List OddsUpdate) :
    List (LiveConfig F × UInt64 × Table) :=
  (ticksOf rs).zipIdx.map fun c => (configAfter opt service (c.2 + 1), c.1)

/-- Ticks from the `k`-th on. -/
theorem ticks_add (opt : Options F) (service : Nat → Service) (shape : Shape)
    (cs : List (UInt64 × Table)) {k : Nat} {st : EngineState F} (h : AtTick opt service k st) :
    let st' := cs.foldl (fun st c => tickState opt service shape c.1 c.2 st) st
    let under := (cs.zipIdx k).map fun c => (configAfter opt service (c.2 + 1), c.1)
    st'.prices = st.prices ++ under.flatMap (fun c => tickPrices c.1 shape c.2.1 c.2.2) ∧
      st'.bets = st.bets ++
        under.flatMap (fun c => tickBets c.1 (!opt.betsOut.isEmpty) shape c.2.1 c.2.2) := by
  induction cs generalizing k st with
  | nil => exact ⟨(List.append_nil _).symm, (List.append_nil _).symm⟩
  | cons c cs ih =>
    obtain ⟨hat, hprices, hbets⟩ := tick_adds opt service shape c.1 c.2 h
    obtain ⟨ihp, ihb⟩ := ih hat
    dsimp only at ihp ihb ⊢
    rw [List.foldl_cons, List.zipIdx_cons, List.map_cons, List.flatMap_cons, List.flatMap_cons,
      ihp, ihb, hprices, hbets, List.append_assoc, List.append_assoc]
    exact ⟨rfl, rfl⟩

/-- Ticks from the `k`-th on: all of them in bounds, or one of them not. -/
theorem foldlM_processTick (opt : Options F) (service : Nat → Service) (shape : Shape)
    (cs : List (UInt64 × Table)) {k : Nat} {st : EngineState F} (h : AtTick opt service k st) :
    let under := (cs.zipIdx k).map fun c => (configAfter opt service (c.2 + 1), c.1)
    ((∀ c ∈ under, TickInBounds c.1 shape c.2.1 c.2.2) →
      cs.foldlM (fun st c => processTick opt service shape c.1 c.2 st) st =
        .ok (cs.foldl (fun st c => tickState opt service shape c.1 c.2 st) st)) ∧
      ((∃ c ∈ under, ¬ TickInBounds c.1 shape c.2.1 c.2.2) →
        cs.foldlM (fun st c => processTick opt service shape c.1 c.2 st) st =
          .error ⟨kMaxOutcomes, kMaxOutcomes⟩) := by
  induction cs generalizing k st with
  | nil =>
    refine ⟨fun _ => rfl, fun hout => ?_⟩
    obtain ⟨c, hc, _⟩ := hout
    exact absurd hc List.not_mem_nil
  | cons c cs ih =>
    have hcfg := (beginTick_atTick opt service c.1 h).1.cfg
    obtain ⟨ihok, ihout⟩ := ih (tick_adds opt service shape c.1 c.2 h).1
    dsimp only at ihok ihout ⊢
    rw [List.foldlM_cons, List.zipIdx_cons, List.map_cons]
    by_cases hc : TickInBounds (configAfter opt service (k + 1)) shape c.1 c.2
    · rw [processTick_of_inBounds (by rw [hcfg]; exact hc)]
      refine ⟨fun hin => ihok fun d hd => hin d (List.mem_cons_of_mem _ hd), fun hout => ?_⟩
      obtain ⟨d, hd, hnd⟩ := hout
      rcases List.mem_cons.mp hd with rfl | hd
      · exact absurd hc hnd
      · exact ihout ⟨d, hd, hnd⟩
    · rw [processTick_of_outOfBounds (by rw [hcfg]; exact hc)]
      exact ⟨fun hin => absurd (hin _ List.mem_cons_self) hc, fun _ => rfl⟩

/-- A run whose ticks stay in bounds comes to its end ... -/
theorem run_of_inBounds {opt : Options F} {service : Nat → Service} {shape : Shape}
    {rs : List OddsUpdate}
    (h : ∀ c ∈ ticksUnder opt service rs, TickInBounds c.1 shape c.2.1 c.2.2) :
    ∃ st, run opt service shape rs = .ok st := by
  have h0 : AtTick opt service 0 opt.initial := ⟨rfl, fun _ => rfl⟩
  unfold run
  rw [recordLoop_eq_cuts]
  exact ⟨_, (foldlM_processTick opt service shape (ticksOf rs) h0).1 h⟩

/-- ... and one with a tick that does not, does not. -/
theorem run_of_outOfBounds {opt : Options F} {service : Nat → Service} {shape : Shape}
    {rs : List OddsUpdate}
    (h : ∃ c ∈ ticksUnder opt service rs, ¬ TickInBounds c.1 shape c.2.1 c.2.2) :
    run opt service shape rs = .error ⟨kMaxOutcomes, kMaxOutcomes⟩ := by
  have h0 : AtTick opt service 0 opt.initial := ⟨rfl, fun _ => rfl⟩
  unfold run
  rw [recordLoop_eq_cuts]
  exact (foldlM_processTick opt service shape (ticksOf rs) h0).2 h

/-- What a run that comes to its end computed. -/
theorem results_of_run_ok {opt : Options F} {service : Nat → Service} {shape : Shape}
    {rs : List OddsUpdate} {st : EngineState F} (h : run opt service shape rs = .ok st) :
    st.prices = (ticksUnder opt service rs).flatMap
        (fun c => tickPrices c.1 shape c.2.1 c.2.2) ∧
      st.bets = (ticksUnder opt service rs).flatMap
        (fun c => tickBets c.1 (!opt.betsOut.isEmpty) shape c.2.1 c.2.2) := by
  have h0 : AtTick opt service 0 opt.initial := ⟨rfl, fun _ => rfl⟩
  rw [eq_of_run_ok h]
  exact ticks_add opt service shape (ticksOf rs) h0

/-- **What a run computes**: the prices and the bets of its ticks, one tick after the other, each
    under the configuration in force after its `service()`. -/
theorem run_results (opt : Options F) (service : Nat → Service) (shape : Shape)
    {rs : List OddsUpdate} (h : ∀ c ∈ ticksOf rs, CountsOk c.2) :
    ∃ st, run opt service shape rs = .ok st ∧
      st.prices = (ticksUnder opt service rs).flatMap
        (fun c => tickPrices c.1 shape c.2.1 c.2.2) ∧
      st.bets = (ticksUnder opt service rs).flatMap
        (fun c => tickBets c.1 (!opt.betsOut.isEmpty) shape c.2.1 c.2.2) :=
  ⟨_, run_eq opt service shape h, results_of_run_ok (run_eq opt service shape h)⟩

end OddsEngine
