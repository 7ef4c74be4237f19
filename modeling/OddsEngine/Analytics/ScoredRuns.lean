/-
  File:      OddsEngine/Analytics/ScoredRuns.lean
  Subject:   From the simulator through the engine to the analysis: sim/main.cpp, engine/main.cpp and
             analytics/analyze_bets.cpp on each other's files.

  Every program checks what it opens, so a pipeline of the three could stop at any of them. It does
  not: the session of an accepted simulation is one the engine's table holds and reads to its end
  (`replays_simulation`), the bets it logs are on the session's markets and outcomes
  (`mem_bets_of_run`), and the side files have the magics the analysis asks for.

  * `pipeline_scores` -- whatever the engines draw, whatever the options and the dashboard's commands,
    the analysis ends with scores, over any arithmetic;
  * `pipeline_settles` -- over the reals every bet is settled and has its bucket, so the sums by market
    and by bucket make up those of all bets.
-/
import OddsEngine.Analytics.BetTotals
import OddsEngine.Engine.RunTotals
import OddsEngine.Engine.Stakes
import OddsEngine.Tools.GeneratedSessions
import OddsEngine.Tools.SimulatedFiles

namespace OddsEngine

open Lib

/-! ## 1. The bets of a run -/

section Bets

variable {F : Type} [DoubleArith F] [Convert F] {opt : Options F} {service : Nat → Service}
  {shape : Shape} {rs : List OddsUpdate} {st : EngineState F}

/-- **A logged bet** is on one of the run's markets, and on one of four outcomes. -/
theorem mem_bets_of_run (hrun : run opt service shape rs = .ok st) {b : BetRecord F}
    (hb : b ∈ st.bets) :
    (∃ m : Fin shape.markets, b.marketId = m.val.toUInt16) ∧ b.outcome.toNat < 4 := by
  rw [(results_of_run_ok hrun).2] at hb
  obtain ⟨c, -, hb⟩ := List.mem_flatMap.mp hb
  obtain ⟨m, -, hb⟩ := List.mem_flatMap.mp hb
  refine ⟨⟨m, ((marketBets_spec _ _ _ _ _ m).1 b hb).1⟩, ?_⟩
  unfold marketBets betsOn sizedRecords at hb
  split at hb
  · split at hb
    · obtain ⟨i, -, -, rfl⟩ := mem_stakedRecords_iff.mp hb
      have hi : i.val < 4 := i.isLt
      show i.val.toUInt8.toNat < 4
      rw [UInt8.toNat_ofNat_of_lt' (by show i.val < 2 ^ 8; omega)]
      exact hi
    · exact absurd hb List.not_mem_nil
  · exact absurd hb List.not_mem_nil

end Bets

/-! ## 2. The session of a simulation -/

namespace Simulator

variable {F : Type} [DoubleArith F] [Pow F F] [Truncate F]

omit [Pow F F] [Truncate F] in
/-- The lags of the five books fit their rings. -/
theorem hasLag_default (b : Fin (defaultRoster : List (SimBookConfig F)).length) :
    ∃ lag, Simulation.HasLag defaultRoster b lag := by
  match b with
  | ⟨0, _⟩ => exact ⟨1, rfl, by decide⟩
  | ⟨1, _⟩ => exact ⟨5, rfl, by decide⟩
  | ⟨2, _⟩ => exact ⟨20, rfl, by decide⟩
  | ⟨3, _⟩ => exact ⟨60, rfl, by decide⟩
  | ⟨4, _⟩ => exact ⟨150, rfl, by decide⟩

omit [Pow F F] [Truncate F] in
theorem interval_default : ∀ book ∈ (defaultRoster : List (SimBookConfig F)),
    0 < (Generator.interval book).toNat := by
  intro book hbook
  unfold defaultRoster at hbook
  simp only [List.mem_cons, List.not_mem_nil, or_false] at hbook
  rcases hbook with rfl | rfl | rfl | rfl | rfl
  · exact (by decide : 0 < ((1 : Int32).toInt64.toUInt64).toNat)
  · exact (by decide : 0 < ((2 : Int32).toInt64.toUInt64).toNat)
  · exact (by decide : 0 < ((5 : Int32).toInt64.toUInt64).toNat)
  · exact (by decide : 0 < ((10 : Int32).toInt64.toUInt64).toNat)
  · exact (by decide : 0 < ((25 : Int32).toInt64.toUInt64).toNat)

variable (rng : Rng F)

/-- There is a record, and the file's count can state how many there are. -/
theorem length_records {sim : SimOptions} (hsim : sim.Accepted)
    (hstamps : sim.ticks.toNat * kTickIntervalNs.toNat < 2 ^ 64) :
    0 < (records rng defaultRoster sim).length ∧
      (records rng defaultRoster sim).length < 2 ^ 64 := by
  have hlen : (records rng defaultRoster sim).length = sim.markets.toNat *
      ((defaultRoster : List (SimBookConfig F)).map fun book =>
        Generator.due (Generator.interval book).toNat sim.ticks.toNat).sum := by
    unfold records
    rw [Simulation.map_update_run _ _ hasLag_default,
      Generator.length_generate _ _ _ _ interval_default]
  have hfirst : Generator.due ((1 : Int32).toInt64.toUInt64).toNat sim.ticks.toNat =
      sim.ticks.toNat := by
    have hone : ((1 : Int32).toInt64.toUInt64).toNat = 1 := by decide
    unfold Generator.due
    rw [hone, Nat.div_one, Nat.add_sub_cancel]
  have hdue : ∀ i : UInt64, 0 < i.toNat → Generator.due i.toNat sim.ticks.toNat ≤ sim.ticks.toNat :=
    fun i hi => Generator.due_le hi _
  have hsum : sim.ticks.toNat ≤ ((defaultRoster : List (SimBookConfig F)).map fun book =>
        Generator.due (Generator.interval book).toNat sim.ticks.toNat).sum ∧
      ((defaultRoster : List (SimBookConfig F)).map fun book =>
        Generator.due (Generator.interval book).toNat sim.ticks.toNat).sum ≤ 5 * sim.ticks.toNat := by
    have h2 := hdue (2 : Int32).toInt64.toUInt64 (by decide)
    have h5 := hdue (5 : Int32).toInt64.toUInt64 (by decide)
    have h10 := hdue (10 : Int32).toInt64.toUInt64 (by decide)
    have h25 := hdue (25 : Int32).toInt64.toUInt64 (by decide)
    simp only [defaultRoster, List.map_cons, List.map_nil, List.sum_cons, List.sum_nil,
      Generator.interval, hfirst]
    omega
  have hmarkets := hsim.toNat_markets_le
  have hinterval : kTickIntervalNs.toNat = 100000000 := rfl
  rw [hinterval] at hstamps
  rw [hlen]
  refine ⟨Nat.mul_pos hsim.markets_pos (lt_of_lt_of_le hsim.ticks_pos hsum.1), ?_⟩
  calc sim.markets.toNat * _ ≤ 65535 * (5 * sim.ticks.toNat) := Nat.mul_le_mul hmarkets hsum.2
    _ < 2 ^ 64 := by omega

/-- Every record of a simulation has three outcomes. -/
theorem outcomeCount_records (sim : SimOptions) :
    ∀ u ∈ records rng defaultRoster sim, u.outcomeCount.toNat ≤ kMaxOutcomes := by
  intro u hu
  obtain ⟨q, hq, rfl⟩ := List.mem_map.mp hu
  obtain ⟨v, -, hquoted⟩ := Simulation.quotedAt_of_mem_run _ _ hq
  obtain ⟨seqNo, odds, hupdate⟩ := hquoted.update
  rw [hupdate]
  exact (by decide : kOutcomes.toUInt8.toNat ≤ kMaxOutcomes)

/-- The session file of a simulation. -/
def sessionOf (sim : SimOptions) : List UInt8 :=
  FileSink.fileOf (runHeader sim.seed sim.markets 5 sim.ticks) (records rng defaultRoster sim)

variable [Convert F]

/-- **The engine replays a simulation to its end**, where its table has room for the markets: of the
    file it has read the records that were written. -/
theorem replays_simulation {sim : SimOptions} (hsim : sim.Accepted)
    (hstamps : sim.ticks.toNat * kTickIntervalNs.toNat < 2 ^ 64)
    (hroom : sim.markets.toNat ≤ 1024) (path : Bytes) (opt : Options F) (service : Nat → Service) :
    ∃ reader reader' shape st, SessionReader.start path (some (sessionOf rng sim)) = .ok reader ∧
      reader.header.seed = sim.seed ∧ reader.header.markets = sim.markets ∧
      Delivers SessionReader.next reader (records rng defaultRoster sim) reader' ∧
      shape.markets = sim.markets.toNat ∧
      OddsEngine.run opt service shape (records rng defaultRoster sim) = .ok st ∧
      runOver opt service reader.header (records rng defaultRoster sim) = .ok
        { state := st
          betLog := if opt.betsOut.isEmpty then none
            else some (BetLogSink.fileOf sim.seed st.bets) } := by
  obtain ⟨hpos, hlen⟩ := length_records rng hsim hstamps
  have hwell : SessionReader.WellFormed (runHeader sim.seed sim.markets 5 sim.ticks) :=
    ⟨rfl, rfl, rfl⟩
  obtain ⟨reader, reader', hstart, hdel, hheader, -⟩ := SessionReader.delivers_fileOf path hwell
    (List.ne_nil_of_length_pos hpos) hlen
  have hmarkets : reader.header.markets = sim.markets := by rw [hheader]; rfl
  have hbooks : reader.header.books = 5 := by rw [hheader]; rfl
  have hseed : reader.header.seed = sim.seed := by rw [hheader]; rfl
  obtain ⟨shape, hshape, hshapeMarkets⟩ := @admitShape_ok reader.header (by rwa [hmarkets])
    (by rw [hbooks]; decide)
  rw [hmarkets] at hshapeMarkets
  obtain ⟨st, hrun, hover⟩ := runOver_ok opt service hshape (outcomeCount_records rng sim)
  rw [hseed] at hover
  exact ⟨reader, reader', shape, st, hstart, hseed, hmarkets, hdel, hshapeMarkets, hrun, hover⟩

end Simulator

/-! ## 3. The analysis -/

namespace AnalyzeBets

open Simulator

/-- The files of one pipeline, under the names the analysis was given. Of the side files those it is
    asked to read have been written. -/
structure OnDisk (args : Args) (disk : Bytes → Option (List UInt8)) (session : List UInt8)
    (settle jumps : Option (List UInt8)) (log : List UInt8) : Prop where
  session : disk args.session = some session
  settle : args.settle = [] ∨ ∃ bytes, settle = some bytes ∧ disk args.settle = some bytes
  jumps : args.jumps = [] ∨ ∃ bytes, jumps = some bytes ∧ disk args.jumps = some bytes
  bets : disk args.bets = some log

section Pipeline

variable {F : Type} [DoubleArith F] [Pow F F] [Truncate F] [Convert F] [Neg F] [FromBits F]

omit [Pow F F] [Truncate F] [Neg F] in
/-- The bets read back of a run's log do not stray. -/
theorem not_strays_of_run {opt : Options F} {service : Nat → Service} {shape : Shape}
    {rs : List OddsUpdate} {st : EngineState F} (hrun : OddsEngine.run opt service shape rs = .ok st)
    (seed : UInt64) :
    ∀ br ∈ (betsOf (BetLogSink.fileOf seed st.bets) : List (BetRecord F)),
      br.marketId.toNat < shape.markets ∧ br.outcome.toNat < 4 := by
  intro br hbr
  rw [BetLogSink.fileOf_eq, betsOf_toBytes] at hbr
  obtain ⟨b, hb, rfl⟩ := List.mem_map.mp hbr
  obtain ⟨⟨m, hm⟩, houtcome⟩ := mem_bets_of_run hrun hb
  refine ⟨?_, houtcome⟩
  have hlt := m.isLt
  have hroom := shape.markets_le
  show b.marketId.toNat < shape.markets
  rw [hm, UInt16.toNat_ofNat_of_lt' (by show m.val < 2 ^ 16; omega)]
  exact hlt

/-- **The files of one pipeline pass every check**, and no bet strays. -/
theorem run_pipeline (rng : Rng F) {sim : SimOptions} (hsim : sim.Accepted)
    (hstamps : sim.ticks.toNat * kTickIntervalNs.toNat < 2 ^ 64)
    {opt : Options F} {service : Nat → Service} {shape : Shape} {st : EngineState F}
    (hshape : shape.markets = sim.markets.toNat)
    (hrun : OddsEngine.run opt service shape (records rng defaultRoster sim) = .ok st)
    {args : Args} {disk : Bytes → Option (List UInt8)} {settle jumps : Option (List UInt8)}
    (hsettle : ∀ bytes ∈ settle, ∃ rest, bytes = settlementHeader sim.seed sim.markets ++ rest)
    (hjumps : ∀ bytes ∈ jumps, ∃ rest, bytes = jumpHeader sim.seed sim.markets ++ rest)
    (hdisk : OnDisk args disk (sessionOf rng sim) settle jumps
      (BetLogSink.fileOf sim.seed st.bets)) :
    ∃ scores : Scores F, run args disk = .ok scores := by
  obtain ⟨hpos, hlen⟩ := length_records rng hsim hstamps
  have hwell : SessionReader.WellFormed (runHeader sim.seed sim.markets 5 sim.ticks) :=
    ⟨rfl, rfl, rfl⟩
  obtain ⟨reader, reader', hstart, hdel, hheader, -⟩ := SessionReader.delivers_fileOf args.session
    hwell (List.ne_nil_of_length_pos hpos) hlen
  have hpass : ChecksPass args disk reader (BetLogSink.fileOf sim.seed st.bets) := by
    refine ⟨?_, ?_, ⟨_, SessionReader.readAll_eq_ok_iff.mpr ⟨reader', hdel⟩⟩, ?_, ?_,
      logOpens_fileOf hdisk.bets⟩
    · rw [hdisk.session]
      exact hstart
    · have hbooks : reader.header.books.toNat = 5 := by
        rw [hheader]
        rfl
      have hmarkets : reader.header.markets.toNat ≤ 1024 := by
        rw [hheader]
        exact hshape ▸ shape.markets_le
      rw [hbooks]
      exact (Nat.mul_le_mul_right 5 hmarkets).trans (by decide)
    · refine hdisk.settle.imp id fun ⟨bytes, hwritten, hfound⟩ => ?_
      obtain ⟨rest, rfl⟩ := hsettle bytes hwritten
      exact ⟨_, opens_sideHeader hfound⟩
    · refine hdisk.jumps.imp id fun ⟨bytes, hwritten, hfound⟩ => ?_
      obtain ⟨rest, rfl⟩ := hjumps bytes hwritten
      exact ⟨_, opens_sideHeader hfound⟩
  obtain ⟨ref, hmarkets, -, -, hloop⟩ := @run_of_checks F _ _ _ _ _ _ _ hpass
  have hsession : reader.header.markets.toNat = shape.markets := by
    rw [hheader, hshape]
    rfl
  rw [hloop]
  rcases foldlM_scoreBet ref (betsOf (BetLogSink.fileOf sim.seed st.bets)) (Scores.init : Scores F)
    with ⟨-, hok⟩ | ⟨⟨br, hbr, hstray⟩, -⟩
  · exact hok
  · have hin := (not_strays_of_run hrun sim.seed br hbr).2
    exact absurd hstray.2 (Nat.not_le.mpr hin)

omit [Pow F F] [Truncate F] [Convert F] [Neg F] [FromBits F] in
/-- A file that is written where it is asked for, is written with its content. -/
theorem eq_of_mem_asked {asked : Bool} {content bytes : List UInt8}
    (h : bytes ∈ if asked then none else some content) : bytes = content := by
  cases asked with
  | true => cases h
  | false => exact (Option.some.inj h).symm

/-- **A pipeline of the three programs ends with scores.** For all random engines, every simulation
    whose markets the engine's table holds and whose timestamps fit 64 bits, every set of engine
    options with a bet log, and whatever the dashboard is sent meanwhile: the engine reads the session
    to its end and logs its bets, and the analysis of the session and the log does not fail, with or
    without the side files the simulation has written. -/
theorem pipeline_scores (rng : Rng F) (goesOut : Nat → Bool) {sim : SimOptions} (hsim : sim.Accepted)
    (hstamps : sim.ticks.toNat * kTickIntervalNs.toNat < 2 ^ 64) (hroom : sim.markets.toNat ≤ 1024)
    (path : Bytes) (opt : Options F) (hbets : opt.betsOut ≠ []) (service : Nat → Service) :
    let files := simulate rng goesOut sim
    ∃ session rest reader us reader' out log,
      files.sinks = .file session :: rest ∧
      SessionReader.start path (some session.file) = .ok reader ∧
      Delivers SessionReader.next reader us reader' ∧
      runOver opt service reader.header us = .ok out ∧ out.betLog = some log ∧
      ∀ args disk, OnDisk args disk session.file files.settle files.jumps log →
        ∃ scores : Scores F, run args disk = .ok scores := by
  intro files
  obtain ⟨session, hsinks, hsession⟩ := sinks_run rng defaultRoster goesOut sim
  have hsettled : files.settle = _ := settle_run rng defaultRoster goesOut sim hsim.ticks_ne
  have hjumped : files.jumps = _ := jumps_generate rng defaultRoster goesOut sim
  obtain ⟨reader, reader', shape, st, hstart, -, -, hdel, hshape, hrun, hover⟩ :=
    replays_simulation rng hsim hstamps hroom path opt service
  rw [if_neg (by rwa [List.isEmpty_iff])] at hover
  refine ⟨session, _, reader, _, reader', _, _, hsinks, ?_, hdel, hover, rfl,
    fun args disk hdisk => ?_⟩
  · rw [hsession]
    exact hstart
  · rw [hsession, hsettled, hjumped] at hdisk
    exact run_pipeline rng hsim hstamps hshape hrun (fun bytes hbytes => ⟨_, eq_of_mem_asked hbytes⟩)
      (fun bytes hbytes => ⟨_, eq_of_mem_asked hbytes⟩) hdisk

end Pipeline

/-- The names a pipeline's files have here: the bet log, the session, the settlement, the jumps. -/
def named (session settle jumps log : List UInt8) : Bytes → Option (List UInt8)
  | [98] => some log
  | [111] => some session
  | [115] => some settle
  | [106] => some jumps
  | _ => none

/-- Two markets for five ticks, whose bets are analysed without side files. -/
theorem pipeline_scores_restless :
    ∃ session log, ∃ scores : Scores ℝ,
      run { bets := [98], session := [111] } (named session [] [] log) = .ok scores := by
  have hsim : SimOptions.Accepted { markets := 2, ticks := 5 } := ⟨by decide, by decide, by decide⟩
  obtain ⟨session, _, _, _, _, _, log, -, -, -, -, -, hscores⟩ :=
    pipeline_scores restlessRng (fun _ => true) hsim (by decide) (by decide) [111] loggedOptions
      (by decide) noService
  obtain ⟨scores, hrun⟩ := hscores { bets := [98], session := [111] }
    (named session.file [] [] log) ⟨rfl, .inl rfl, .inl rfl, rfl⟩
  exact ⟨session.file, log, scores, hrun⟩

/-! ## 4. What the scores are of -/

/-- The settlement of a simulation, read whole, has a winner for every market of it. -/
theorem readSettlement_whole {F : Type} [DoubleArith F] {rng : Rng F} {sim : SimOptions}
    (hsim : sim.Accepted) {disk : Bytes → Option (List UInt8)} {path : Bytes} (hpath : path ≠ [])
    (hfile : disk path = some (settlementHeader sim.seed sim.markets ++
      (settlementRecords rng sim.seed sim.markets.toNat sim.ticks.toNat).flatMap
        SettlementRecord.toBytes)) :
    ∃ winner, readSettlement disk path = .ok (some winner) ∧
      ∀ m < sim.markets.toNat, (winner m).isSome = true := by
  let rs := settlementRecords rng sim.seed sim.markets.toNat sim.ticks.toNat
  have hcount : rs.length = sim.markets.toNat := by
    show (settlementRecords rng sim.seed sim.markets.toNat sim.ticks.toNat).length = _
    unfold settlementRecords
    rw [List.length_map, List.length_range]
  have hlen : (rs.flatMap SettlementRecord.toBytes).length / 8 = sim.markets.toNat := by
    rw [length_flatMap_of_length SettlementRecord.toBytes_length, hcount,
      Nat.mul_div_cancel _ (by decide)]
  rw [← List.take_length (l := rs.flatMap SettlementRecord.toBytes)] at hfile
  refine ⟨_, readSettlement_take hpath hfile, fun m hm => ?_⟩
  rw [hlen, winners_take rng sim.seed hsim.toNat_markets_le, if_pos ⟨hm, hm⟩]
  rfl

/-- **Over the reals every bet of a pipeline is settled and has its bucket**, where the analysis is
    given both side files: the settled stake is the whole stake, the profits of the markets and of the
    buckets are the total, and the edges of the buckets that of all bets; and the analysis counts the
    bets the engine counted. -/
theorem pipeline_settles (rng : Rng ℝ) (goesOut : Nat → Bool) {sim : SimOptions}
    (hsim : sim.Accepted) (hstamps : sim.ticks.toNat * kTickIntervalNs.toNat < 2 ^ 64)
    (hroom : sim.markets.toNat ≤ 1024) (path : Bytes) (opt : Options ℝ) (hbets : opt.betsOut ≠ [])
    (service : Nat → Service) :
    let files := simulate rng goesOut sim
    ∃ session rest reader us reader' out log,
      files.sinks = .file session :: rest ∧
      SessionReader.start path (some session.file) = .ok reader ∧
      Delivers SessionReader.next reader us reader' ∧
      runOver opt service reader.header us = .ok out ∧ out.betLog = some log ∧
      ∀ args disk, OnDisk args disk session.file files.settle files.jumps log →
        args.settle ≠ [] → args.jumps ≠ [] →
        ∃ s : Scores ℝ, run args disk = .ok s ∧ s.nBets = out.state.betsPlaced ∧
          s.totalStakeSettled = s.totalStake ∧
          ∑ m ∈ Finset.range sim.markets.toNat, s.pnlMarket m = s.totalPnl ∧
          ∑ b, s.bPnl b = s.totalPnl ∧ ∑ b, s.bPnlStake b = s.totalStake ∧
          ∑ b, s.bEdge b = s.believedEdgeStakewt := by
  intro files
  obtain ⟨session, hsinks, hsession⟩ := sinks_run rng defaultRoster goesOut sim
  have hsettled : files.settle = _ := settle_run rng defaultRoster goesOut sim hsim.ticks_ne
  have hjumped : files.jumps = _ := jumps_generate rng defaultRoster goesOut sim
  obtain ⟨reader, reader', shape, st, hstart, -, -, hdel, hshape, hrun, hover⟩ :=
    replays_simulation rng hsim hstamps hroom path opt service
  rw [if_neg (by rwa [List.isEmpty_iff])] at hover
  refine ⟨session, _, reader, _, reader', _, _, hsinks, ?_, hdel, hover, rfl,
    fun args disk hdisk hasked hasked' => ?_⟩
  · rw [hsession]
    exact hstart
  · rw [hsession] at hdisk
    rw [hsettled, hjumped] at hdisk
    obtain ⟨s, hs⟩ := run_pipeline rng hsim hstamps hshape hrun
      (fun bytes hbytes => ⟨_, eq_of_mem_asked hbytes⟩)
      (fun bytes hbytes => ⟨_, eq_of_mem_asked hbytes⟩) hdisk
    obtain ⟨ref, reader₁, log, hstart₁, hlog, hmarkets, hwinner, hjump, hloop⟩ := reference_of_run hs
    obtain rfl := Option.some.inj (hlog.symm.trans hdisk.bets)
    have htotals := totals_foldlM hloop
    -- the analysis reads the header the simulator wrote
    have hwell : SessionReader.WellFormed (runHeader sim.seed sim.markets 5 sim.ticks) :=
      ⟨rfl, rfl, rfl⟩
    obtain ⟨hpos, hlen⟩ := length_records rng hsim hstamps
    obtain ⟨reader₂, -, hstart₂, -, hheader, -⟩ := SessionReader.delivers_fileOf args.session hwell
      (List.ne_nil_of_length_pos hpos) hlen
    rw [hdisk.session] at hstart₁
    obtain rfl := Except.ok.inj (hstart₁.symm.trans hstart₂)
    have hsession' : ref.markets = sim.markets.toNat := by
      rw [hmarkets, hheader]
      rfl
    -- so every bet is on one of its markets, with a winner and a bucket
    obtain ⟨bytes, hwritten, hfound⟩ := hdisk.settle.resolve_left hasked
    rw [eq_of_mem_asked hwritten] at hfound
    obtain ⟨winner, hread, hwon⟩ := readSettlement_whole hsim hasked hfound
    have hsame : ref.winner = some winner := Except.ok.inj (hwinner.symm.trans hread)
    have hsome := isSome_readJumps hjump hasked'
    have hin : ∀ br ∈ (betsOf (BetLogSink.fileOf sim.seed st.bets) : List (BetRecord ℝ)),
        br.marketId.toNat < ref.markets := by
      intro br hbr
      rw [hsession', ← hshape]
      exact (not_strays_of_run hrun sim.seed br hbr).1
    have hsettledOf : ∀ br ∈ (betsOf (BetLogSink.fileOf sim.seed st.bets) : List (BetRecord ℝ)),
        (settledOf ref br).isSome = true := by
      intro br hbr
      obtain ⟨w, hw⟩ := Option.isSome_iff_exists.mp
        (hwon br.marketId.toNat (by rw [← hsession']; exact hin br hbr))
      unfold settledOf
      rw [if_pos (hin br hbr), hsame, Option.bind_some, hw]
      rfl
    have hbucket : ∀ br ∈ (betsOf (BetLogSink.fileOf sim.seed st.bets) : List (BetRecord ℝ)),
        (bucketIn ref br).isSome = true := by
      intro br hbr
      unfold bucketIn
      rw [if_pos (hin br hbr), Option.isSome_map]
      exact hsome
    have hstake : s.totalStakeSettled = s.totalStake := by
      rw [htotals.totalStakeSettled, htotals.totalStake, ← total_some]
      refine total_congr fun br hbr => ?_
      obtain ⟨pnl, hpnl⟩ := Option.isSome_iff_exists.mp (hsettledOf br hbr)
      rw [hpnl]
      rfl
    have hedge : s.totalEdgeMass = s.believedEdgeStakewt := by
      rw [htotals.totalEdgeMass, htotals.believedEdgeStakewt, ← total_some]
      refine total_congr fun br hbr => ?_
      obtain ⟨b, hb⟩ := Option.isSome_iff_exists.mp (hbucket br hbr)
      rw [hb]
      rfl
    have hmarketSum := htotals.sum_pnlMarket
    rw [hsession'] at hmarketSum
    refine ⟨s, hs, ?_, hstake, hmarketSum, htotals.sum_bPnl hsome,
      (htotals.sum_bPnlStake hsome).trans hstake, htotals.sum_bEdge.trans hedge⟩
    rw [htotals.nBets, (totals_of_run_ok hrun).betsPlaced, BetLogSink.fileOf_eq, betsOf_toBytes,
      List.length_map]

/-- The same run with the side files: all that was staked is settled. -/
theorem pipeline_settles_restless :
    ∃ session settle jumps log, ∃ s : Scores ℝ,
      run { bets := [98], session := [111], settle := [115], jumps := [106] }
        (named session settle jumps log) = .ok s ∧ s.totalStakeSettled = s.totalStake := by
  have hsim : SimOptions.Accepted
      { markets := 2, ticks := 5, settleOut := [115], jumpsOut := [106] } :=
    ⟨by decide, by decide, by decide⟩
  have hsettle := settle_run restlessRng defaultRoster (fun _ => true) _ hsim.ticks_ne
  have hjumps := jumps_generate restlessRng defaultRoster (fun _ => true)
    { markets := 2, ticks := 5, settleOut := [115], jumpsOut := [106] }
  obtain ⟨session, _, _, _, _, _, log, -, -, -, -, -, hscores⟩ :=
    pipeline_settles restlessRng (fun _ => true) hsim (by decide) (by decide) [111] loggedOptions
      (by decide) noService
  obtain ⟨s, hrun, -, hstake, -⟩ := hscores
    { bets := [98], session := [111], settle := [115], jumps := [106] }
    (named session.file _ _ log) ⟨rfl, .inr ⟨_, hsettle, rfl⟩, .inr ⟨_, hjumps, rfl⟩, rfl⟩
    (by decide) (by decide)
  exact ⟨session.file, _, _, log, s, hrun, hstake⟩

end AnalyzeBets

end OddsEngine
