/-
  File:      OddsEngine/Engine/RunTotals.lean
  Subject:   The numbers a run prints when it is done (the end of `run`, engine/main.cpp, and the
             counters of engine/BookTable.hpp).

  The loop counts as it goes: what it priced and what it could not, the bets, the pushes; the table
  counts what it rejected. None of these numbers is read back, so nothing in the code compares them.

  * `tickState_totals` -- one tick keeps every counter beside what it counts;
  * `done_line` -- so the printed line is true of the run: every market of every tick is priced or
    counted as without price, every record is in the table or rejected, and the bets counted are
    those of the bet log's header.
-/
import OddsEngine.Engine.Output
import OddsEngine.Engine.RejectedRecords

namespace OddsEngine

open Lib

variable {F : Type} [DoubleArith F] [Convert F]

/-- The numbers of the line that starts with "done:", and of the one about the dashboard. -/
structure DoneLine where
  consensusCount : UInt64
  noPriceCount : UInt64
  rejectedOutOfRange : UInt64
  rejectedStaleSeq : UInt64
  betsPlaced : UInt64
  wsPushes : UInt64
  changes : UInt64

/-- The end of `run`. -/
def doneLine (table : Table) (st : EngineState F) : DoneLine :=
  { consensusCount := st.consensusCount
    noPriceCount := st.noPriceCount
    rejectedOutOfRange := table.rejectedOutOfRange
    rejectedStaleSeq := table.rejectedStaleSeq
    betsPlaced := st.betsPlaced
    wsPushes := st.wsPushes
    changes := st.cfg.changes }

/-! ## 1. The engine's counters -/

/-- The calls of `service()` among the first `n` behind which a push was due. -/
def duePushes (service : Nat → Service) (n : Nat) : Nat :=
  (List.range n).countP fun i => (service i).pushDue

/-- The counters after `k` ticks, beside what they count. -/
structure RunTotals (opt : Options F) (service : Nat → Service) (shape : Shape) (k : Nat)
    (st : EngineState F) : Prop where
  consensusCount : st.consensusCount = st.prices.length.toUInt64
  noPriceCount : st.consensusCount + st.noPriceCount = (k * shape.markets).toUInt64
  betsPlaced : st.betsPlaced = st.bets.length.toUInt64
  serviceCalls : st.serviceCalls = if opt.wsPort = 0 then 0 else k
  wsPushes : st.wsPushes = st.pushes.length.toUInt64
  pushes : st.pushes.length = duePushes service st.serviceCalls

omit [DoubleArith F] [Convert F] in
theorem totals_initial (opt : Options F) (service : Nat → Service) (shape : Shape) :
    RunTotals opt service shape 0 opt.initial where
  consensusCount := rfl
  noPriceCount := by
    rw [Nat.zero_mul]
    rfl
  betsPlaced := rfl
  serviceCalls := by
    rw [ite_self]
    rfl
  wsPushes := rfl
  pushes := rfl

/-- What the markets of a tick do to the counters: each is priced or not, and nothing is pushed. -/
structure MarketTotals (n : Nat) (st st' : EngineState F) : Prop where
  consensusCount : st.consensusCount = st.prices.length.toUInt64 →
    st'.consensusCount = st'.prices.length.toUInt64
  noPriceCount : st'.consensusCount + st'.noPriceCount =
    st.consensusCount + st.noPriceCount + n.toUInt64
  betsPlaced : st.betsPlaced = st.bets.length.toUInt64 →
    st'.betsPlaced = st'.bets.length.toUInt64
  calls : st'.serviceCalls = st.serviceCalls
  wsPushes : st'.wsPushes = st.wsPushes
  pushes : st'.pushes = st.pushes

omit [DoubleArith F] in
theorem recordMarket_totals (opt : Options F) (ts : UInt64) (push : Bool) (m : Nat)
    (st : EngineState F) (fair : ConsensusResult F) (bets : List (BetRecord F)) :
    MarketTotals 1 st (recordMarket opt ts push m st fair bets) := by
  have hone : (1 : Nat).toUInt64 = 1 := rfl
  have happend : ∀ {α : Type} (xs ys : List α),
      (xs ++ ys).length.toUInt64 = xs.length.toUInt64 + ys.length.toUInt64 := fun xs ys => by
    rw [List.length_append]
    exact UInt64.ofNat_add _ _
  unfold recordMarket
  cases fair.hasFairPrice with
  | false =>
    refine ⟨id, ?_, id, rfl, rfl, rfl⟩
    rw [hone]
    exact (UInt64.add_assoc _ _ _).symm
  | true =>
    refine ⟨fun h => ?_, ?_, fun h => ?_, rfl, rfl, rfl⟩
    · show st.consensusCount + 1 = (st.prices ++ [_]).length.toUInt64
      rw [happend, h]
      rfl
    · show st.consensusCount + 1 + st.noPriceCount = _
      rw [hone, UInt64.add_assoc, UInt64.add_comm 1, ← UInt64.add_assoc]
    · show st.betsPlaced + bets.length.toUInt64 = (st.bets ++ bets).length.toUInt64
      rw [happend, h]

theorem foldl_recordMarket_totals (opt : Options F) (shape : Shape) (ts : UInt64) (table : Table)
    (push : Bool) (ms : List (Fin shape.markets)) (st : EngineState F) :
    MarketTotals ms.length st
      (ms.foldl (fun st m => recordMarket opt ts push m.val st (marketFair st.cfg table shape m ts)
        (marketBets st.cfg (!opt.betsOut.isEmpty) table shape m ts)) st) := by
  induction ms generalizing st with
  | nil => exact ⟨id, (UInt64.add_zero _).symm, id, rfl, rfl, rfl⟩
  | cons m ms ih =>
    have hone := recordMarket_totals opt ts push m.val st (marketFair st.cfg table shape m ts)
      (marketBets st.cfg (!opt.betsOut.isEmpty) table shape m ts)
    have hrest := ih (recordMarket opt ts push m.val st (marketFair st.cfg table shape m ts)
      (marketBets st.cfg (!opt.betsOut.isEmpty) table shape m ts))
    have hcount : (m :: ms).length.toUInt64 = (1 : Nat).toUInt64 + ms.length.toUInt64 := by
      rw [List.length_cons, Nat.add_comm]
      exact UInt64.ofNat_add _ _
    refine ⟨fun h => hrest.consensusCount (hone.consensusCount h), ?_,
      fun h => hrest.betsPlaced (hone.betsPlaced h), hrest.calls.trans hone.calls,
      hrest.wsPushes.trans hone.wsPushes, hrest.pushes.trans hone.pushes⟩
    rw [List.foldl_cons, hrest.noPriceCount, hone.noPriceCount, hcount, ← UInt64.add_assoc]

/-- What the dashboard's share of a tick does to the counters: a call at most, and a push begun where
    one is due. -/
structure Begun (opt : Options F) (service : Nat → Service) (st : EngineState F)
    (r : EngineState F × Bool) : Prop where
  consensusCount : r.1.consensusCount = st.consensusCount
  noPriceCount : r.1.noPriceCount = st.noPriceCount
  betsPlaced : r.1.betsPlaced = st.betsPlaced
  prices : r.1.prices = st.prices
  bets : r.1.bets = st.bets
  wsPushes : r.1.wsPushes = st.wsPushes
  pushes : r.1.pushes = st.pushes
  calls : r.1.serviceCalls = if opt.wsPort = 0 then st.serviceCalls else st.serviceCalls + 1
  due : duePushes service r.1.serviceCalls =
    duePushes service st.serviceCalls + if r.2 then 1 else 0

theorem beginTick_totals (opt : Options F) (service : Nat → Service) (ts : UInt64)
    (st : EngineState F) : Begun opt service st (beginTick opt service ts st) := by
  unfold beginTick
  by_cases hws : opt.wsPort = 0
  · rw [if_pos hws]
    exact ⟨rfl, rfl, rfl, rfl, rfl, rfl, rfl, (if_pos hws).symm, rfl⟩
  · have hcalls : st.serviceCalls + 1 =
        if opt.wsPort = 0 then st.serviceCalls else st.serviceCalls + 1 := (if_neg hws).symm
    have hdue : duePushes service (st.serviceCalls + 1) = duePushes service st.serviceCalls +
        if (service st.serviceCalls).pushDue then 1 else 0 := by
      unfold duePushes
      rw [List.range_succ, List.countP_append, List.countP_singleton]
    rw [if_neg hws]
    dsimp only
    by_cases hpush : (service st.serviceCalls).pushDue = true
    · rw [if_pos hpush] at hdue ⊢
      exact ⟨rfl, rfl, rfl, rfl, rfl, rfl, rfl, hcalls, hdue⟩
    · rw [if_neg hpush] at hdue ⊢
      exact ⟨rfl, rfl, rfl, rfl, rfl, rfl, rfl, hcalls, hdue⟩

/-- **One tick** keeps every counter beside what it counts. -/
theorem tickState_totals {opt : Options F} {service : Nat → Service} {shape : Shape} {k : Nat}
    {st : EngineState F} (h : RunTotals opt service shape k st) (ts : UInt64) (table : Table) :
    RunTotals opt service shape (k + 1) (tickState opt service shape ts table st) := by
  have hmarkets := foldl_recordMarket_totals opt shape ts table (beginTick opt service ts st).2
    (List.finRange shape.markets) (beginTick opt service ts st).1
  rw [List.length_finRange] at hmarkets
  have hbegin := beginTick_totals opt service ts st
  have hcalls : (beginTick opt service ts st).1.serviceCalls =
      if opt.wsPort = 0 then 0 else k + 1 := by
    rw [hbegin.calls, h.serviceCalls]
    by_cases hws : opt.wsPort = 0
    · rw [if_pos hws, if_pos hws, if_pos hws]
    · rw [if_neg hws, if_neg hws, if_neg hws]
  have hrounds : ((k + 1) * shape.markets).toUInt64 =
      (k * shape.markets).toUInt64 + shape.markets.toUInt64 := by
    rw [Nat.succ_mul]
    exact UInt64.ofNat_add _ _
  have hpriced := hmarkets.consensusCount
    (by rw [hbegin.consensusCount, hbegin.prices]; exact h.consensusCount)
  have hcounted := hmarkets.noPriceCount
  rw [hbegin.consensusCount, hbegin.noPriceCount, h.noPriceCount, ← hrounds] at hcounted
  have hbetted := hmarkets.betsPlaced (by rw [hbegin.betsPlaced, hbegin.bets]; exact h.betsPlaced)
  have hservice := hmarkets.calls
  have hpushes := hbegin.wsPushes
  have hpushed := hbegin.pushes
  have hdue := hbegin.due
  have hbefore : st.pushes.length.toUInt64 = st.wsPushes := h.wsPushes.symm
  unfold tickState endTick
  dsimp only
  cases hpush : (beginTick opt service ts st).2 with
  | false =>
    rw [hpush] at hpriced hcounted hbetted hservice hmarkets hdue
    refine ⟨hpriced, hcounted, hbetted, hservice.trans hcalls, ?_, ?_⟩
    · rw [if_neg Bool.false_ne_true, hmarkets.wsPushes, hmarkets.pushes, hpushes, hpushed]
      exact h.wsPushes
    · rw [if_neg Bool.false_ne_true, hmarkets.pushes, hpushed, hservice, hdue, h.pushes]
      rfl
  | true =>
    rw [hpush] at hpriced hcounted hbetted hservice hmarkets hdue
    refine ⟨hpriced, hcounted, hbetted, hservice.trans hcalls, ?_, ?_⟩
    · rw [if_pos rfl]
      dsimp only
      rw [hmarkets.wsPushes, hmarkets.pushes, hpushes, hpushed, List.length_append, ← hbefore]
      exact (UInt64.ofNat_add _ _).symm
    · rw [if_pos rfl]
      dsimp only
      rw [hmarkets.pushes, hpushed, hservice, hdue, List.length_append, h.pushes]
      rfl

theorem totals_foldl {opt : Options F} {service : Nat → Service} {shape : Shape}
    (cs : List (UInt64 × Table)) {k : Nat} {st : EngineState F}
    (h : RunTotals opt service shape k st) :
    RunTotals opt service shape (k + cs.length)
      (cs.foldl (fun st c => tickState opt service shape c.1 c.2 st) st) := by
  induction cs generalizing k st with
  | nil => exact h
  | cons c cs ih =>
    have hrest := ih (tickState_totals h c.1 c.2)
    rw [List.length_cons, ← Nat.add_assoc, Nat.add_right_comm]
    exact hrest

/-- **The counters of a run** that comes to its end. -/
theorem totals_of_run_ok {opt : Options F} {service : Nat → Service} {shape : Shape}
    {rs : List OddsUpdate} {st : EngineState F} (h : run opt service shape rs = .ok st) :
    RunTotals opt service shape (ticksOf rs).length st := by
  have htotals := totals_foldl (ticksOf rs) (totals_initial opt service shape)
  rw [Nat.zero_add, ← eq_of_run_ok h] at htotals
  exact htotals

/-! ## 2. The table's counters -/

/-- The records a table takes, one after the other. -/
def takenBy : Table → List OddsUpdate → List OddsUpdate
  | _, [] => []
  | t, u :: us =>
    if (t.apply u u.simTimestampNs).2 = .applied then u :: takenBy (t.receive u) us
    else takenBy (t.receive u) us

/-- **Every record is taken or rejected**, for one reason. -/
theorem rejected_add_taken (rs : List OddsUpdate) (t : Table) :
    (rs.foldl BookTable.receive t).rejectedOutOfRange +
        (rs.foldl BookTable.receive t).rejectedStaleSeq + (takenBy t rs).length.toUInt64 =
      t.rejectedOutOfRange + t.rejectedStaleSeq + rs.length.toUInt64 := by
  induction rs generalizing t with
  | nil => rfl
  | cons u rs ih =>
    have hcount : ∀ us : List OddsUpdate, (u :: us).length.toUInt64 = us.length.toUInt64 + 1 :=
      fun us => UInt64.ofNat_add _ _
    rw [List.foldl_cons, hcount]
    by_cases happlied : (t.apply u u.simTimestampNs).2 = .applied
    · obtain ⟨-, -, -, hrange, hstale⟩ := t.apply_of_applied u u.simTimestampNs happlied
      rw [takenBy, if_pos happlied, hcount, ← UInt64.add_assoc, ih]
      unfold BookTable.receive
      rw [hrange, hstale, UInt64.add_assoc]
    · rw [takenBy, if_neg happlied, ih]
      unfold BookTable.receive
      rcases (t.apply_of_rejected u u.simTimestampNs happlied).2 with ⟨hrange, hstale⟩ | ⟨hrange, hstale⟩
      · rw [hrange, hstale]
        grind
      · rw [hrange, hstale]
        grind

/-! ## 3. The line -/

/-- **The printed numbers are true of the run.** For every session, every set of options and whatever
    the clients of the dashboard send: the prices and the counts without one make up the markets of
    all ticks; what was taken and what was rejected, all records; the bets are as many as were placed
    and as the bet log's header says; the pushes as many as were broadcast, one behind each call of
    `service()` at which one was due. -/
theorem done_line (opt : Options F) (service : Nat → Service) {h : SessionHeader} {shape : Shape}
    (hshape : admitShape h = .ok shape) {rs : List OddsUpdate} {out : Output F}
    (hrun : runOver opt service h rs = .ok out) :
    let line := doneLine (rs.foldl BookTable.receive {}) out.state
    line.consensusCount = out.state.prices.length.toUInt64 ∧
      line.consensusCount + line.noPriceCount =
        ((ticksOf rs).length * h.markets.toNat).toUInt64 ∧
      line.rejectedOutOfRange + line.rejectedStaleSeq + (takenBy {} rs).length.toUInt64 =
        rs.length.toUInt64 ∧
      line.betsPlaced = out.state.bets.length.toUInt64 ∧
      (∀ log, out.betLog = some log →
        (BetLogHeader.ofBytes log).recordCount = line.betsPlaced ∧
          (BetLogHeader.ofBytes log).seed = h.seed) ∧
      line.wsPushes = out.state.pushes.length.toUInt64 ∧
      out.state.pushes.length =
        duePushes service (if opt.wsPort = 0 then 0 else (ticksOf rs).length) := by
  intro line
  unfold runOver at hrun
  rw [hshape] at hrun
  cases hstate : run opt service shape rs with
  | error e =>
    simp only [Except.mapError, bind, Except.bind, hstate] at hrun
    cases hrun
  | ok st =>
    simp only [Except.mapError, bind, Except.bind, hstate] at hrun
    obtain rfl := Except.ok.inj hrun
    have htotals := totals_of_run_ok hstate
    have hmarkets : shape.markets = h.markets.toNat := by
      unfold admitShape at hshape
      split at hshape
      · cases hshape
      · split at hshape
        · cases hshape
        · rw [← Except.ok.inj hshape]
    have hpushes := htotals.pushes
    rw [htotals.serviceCalls] at hpushes
    refine ⟨htotals.consensusCount, ?_, ?_, htotals.betsPlaced, fun log hlog => ?_, htotals.wsPushes,
      hpushes⟩
    · rw [← hmarkets]
      exact htotals.noPriceCount
    · exact (rejected_add_taken rs {}).trans (UInt64.zero_add _)
    · dsimp only at hlog
      split at hlog
      · cases hlog
      · rw [← Option.some.inj hlog, BetLogSink.fileOf_eq, BetLogHeader.ofBytes_toBytes]
        exact ⟨htotals.betsPlaced.symm, rfl⟩

/-- A quote and its repetition a tick later, which the table rejects. -/
theorem done_line_replayed :
    ∃ out : Output ℝ, runOver plainOptions noService (runHeader 42 1 1 2)
        [evenQuote, replayedQuote] = .ok out ∧
      (doneLine ([evenQuote, replayedQuote].foldl BookTable.receive {}) out.state).consensusCount +
        (doneLine ([evenQuote, replayedQuote].foldl BookTable.receive {}) out.state).noPriceCount =
          2 := by
  have hshape : admitShape (runHeader 42 1 1 2) = .ok oneBook := rfl
  have hcounts : ∀ u ∈ [evenQuote, replayedQuote], u.outcomeCount.toNat ≤ kMaxOutcomes := by decide
  obtain ⟨st, -, hrun⟩ := runOver_ok plainOptions noService hshape hcounts
  obtain ⟨-, hsum, -⟩ := done_line plainOptions noService hshape hrun
  exact ⟨_, hrun, hsum⟩

end OddsEngine
