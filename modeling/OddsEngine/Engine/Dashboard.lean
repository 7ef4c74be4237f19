/-
  File:      OddsEngine/Engine/Dashboard.lean
  Subject:   The run with its dashboard server (`run`, engine/main.cpp).

  `liveRun` is the engine's run with the server in it: every tick calls `service()`, whose handler
  is `apply_command` on the run's own configuration, decides by the clock and the number of clients
  whether a push is due, and broadcasts it. What clients and clock do is `Outside`, call by call.

  * `liveRun_refines` -- whatever they do, the engine's part of it is a `run` under some `Service`:
    the run of Run.lean is the abstraction of this one that leaves the connections out;
  * `run_locked` -- in hash mode that run is `replay`, which knows no dashboard;
  * `replay_unaffected` -- so no two behaviours of the dashboard's clients can be told apart by the
    digest or by the bets.
-/
import OddsEngine.Engine.CommandLine
import OddsEngine.Engine.WsReplies

namespace OddsEngine

open Lib

/-! ## 1. The run with its server -/

/-- What a tick meets outside the engine. -/
structure Outside where
  /-- What `service()` meets. -/
  round : Ws.Round
  /-- The steady clock, in nanoseconds. -/
  now : Nat
  /-- For the flush of the push, descriptor by descriptor. -/
  pushSends : Nat → List Ws.SendResult

structure LiveState (F : Type) where
  engine : EngineState F
  /-- `wsrv`; it takes part only where `--ws` gives a port. -/
  server : Ws.Server
  /-- When the last push was. -/
  wsLast : Nat

variable {F : Type} [DoubleArith F] [Convert F]

/-- The handler `run` installs. -/
def commandHandler (hashMode : Bool) : Ws.CommandHandler (LiveConfig F) :=
  fun msg cfg => applyCommand msg cfg hashMode

/-- A push is due: the interval has passed, and there is somebody to push to. -/
def pushDue (wsIntervalMs : Int) (now wsLast : Nat) (server : Ws.Server) : Bool :=
  decide (wsIntervalMs ≤ Int.tdiv (now - wsLast) 1000000) && decide (0 < server.clientCount)

/-- The dashboard's share of a tick, before the markets. -/
def serviceTick (opt : CliOptions F) (out : Outside) (ts : UInt64) (st : LiveState F) :
    LiveState F × Bool :=
  if opt.wsPort = 0 then ({ st with engine := { st.engine with wsFirst := true } }, false)
  else
    let (server, cfg) :=
      st.server.service (some (commandHandler opt.hash)) out.round st.engine.cfg
    let engine :=
      { st.engine with cfg := cfg, serviceCalls := st.engine.serviceCalls + 1, wsFirst := true }
    if pushDue opt.wsIntervalMs out.now st.wsLast server then
      ({ engine := { engine with wsJson := tickJson (ts / kTickIntervalNs) cfg }
         server := server, wsLast := out.now }, true)
    else ({ st with engine := engine, server := server }, false)

/-- And after them. -/
def pushTick (out : Outside) (push : Bool) (st : LiveState F) : LiveState F :=
  let engine := endTick push st.engine
  if push then { st with engine := engine, server := st.server.broadcast engine.wsJson out.pushSends }
  else { st with engine := engine }

def liveTick (opt : CliOptions F) (world : Nat → Outside) (shape : Shape) (ts : UInt64)
    (table : Table) (st : LiveState F) : Except OutOfBounds (LiveState F) := do
  let out := world st.engine.serviceCalls
  let (st, push) := serviceTick opt out ts st
  let engine ← (List.finRange shape.markets).foldlM
    (processMarket opt.toOptions table shape ts push) st.engine
  return pushTick out push { st with engine := engine }

/-- The server's backlog where `run` constructs it. -/
def kMaxBacklogBytes : UInt64 := 1048576

/-- The run, begun at the time `now`. -/
def liveRun (opt : CliOptions F) (world : Nat → Outside) (now : Nat) (shape : Shape)
    (rs : List OddsUpdate) : Except OutOfBounds (LiveState F) :=
  recordLoop (liveTick opt world shape) rs
    { engine := Options.initial opt.toOptions, server := Ws.Server.start kMaxBacklogBytes,
      wsLast := now }

/-! ## 2. The connections left out -/

namespace Ws.Server

variable {σ : Type} (handler : Option (CommandHandler σ))

/-- The handler's state after some commands is the work of the handler alone. -/
theorem foldl_dispatchOne_state (sends : Nat → List SendResult) (ps : List (Pending × Nat))
    (srv : Server) (st : σ) :
    (ps.foldl (fun r p => dispatchOne handler (sends p.2) r.1 r.2 p.1) (srv, st)).2 =
      (ps.map (·.1.text)).foldl (fun st text => (answer handler text st).2) st := by
  induction ps generalizing srv st with
  | nil => rfl
  | cons p ps ih =>
    have hone : (dispatchOne handler (sends p.2) srv st p.1).2 = (answer handler p.1.text st).2 := by
      unfold dispatchOne
      dsimp only
      split
      · rfl
      · rfl
    have hpair : dispatchOne handler (sends p.2) srv st p.1 =
        ((dispatchOne handler (sends p.2) srv st p.1).1, (answer handler p.1.text st).2) :=
      Prod.ext rfl hone
    rw [List.foldl_cons, hpair, ih]
    rfl

/-- The texts one call of `service()` answers. -/
def texts (srv : Server) (round : Round) : List Bytes :=
  let srv := srv.acceptNew round.accepted
  if srv.clients.isEmpty then [] else (srv.poll round).shared.pending.map (·.text)

/-- **What `service()` does to the handler's state**: the texts, in order, each answered. -/
theorem service_state (srv : Server) (round : Round) (st : σ) :
    (srv.service handler round st).2 =
      (srv.texts round).foldl (fun st text => (answer handler text st).2) st := by
  unfold service texts
  dsimp only
  split
  · rfl
  · have hfst : ∀ ps : List Pending, ps.zipIdx.map (·.1.text) = ps.map (·.text) := by
      intro ps
      have hmap : ps.zipIdx.map (·.1.text) = (ps.zipIdx.map Prod.fst).map (·.text) :=
        List.map_map.symm
      rw [hmap, List.zipIdx_map_fst]
    rw [← hfst]
    exact foldl_dispatchOne_state handler round.replySends _ _ _

end Ws.Server

/-- Under the engine's handler: `dispatchPending`. -/
theorem service_config (srv : Ws.Server) (round : Ws.Round) (cfg : LiveConfig F) (hashMode : Bool) :
    (srv.service (some (commandHandler hashMode)) round cfg).2 =
      dispatchPending (srv.texts round) cfg hashMode :=
  Ws.Server.service_state (some (commandHandler hashMode)) srv round cfg

/-- What the run of Run.lean is told of one call of `service()`. -/
def serviceOf (opt : CliOptions F) (out : Outside) (st : LiveState F) : Service where
  texts := st.server.texts out.round
  pushDue := pushDue opt.wsIntervalMs out.now st.wsLast
    (st.server.service (some (commandHandler opt.hash)) out.round st.engine.cfg).1

/-- The engine's part of a tick's beginning. -/
theorem serviceTick_engine (opt : CliOptions F) (out : Outside) (ts : UInt64) (st : LiveState F)
    {service : Nat → Service}
    (h : opt.wsPort ≠ 0 → service st.engine.serviceCalls = serviceOf opt out st) :
    ((serviceTick opt out ts st).1.engine, (serviceTick opt out ts st).2) =
      beginTick opt.toOptions service ts st.engine := by
  unfold serviceTick beginTick
  by_cases hws : opt.wsPort = 0
  · rw [if_pos hws, if_pos hws]
  · rw [if_neg hws, if_neg hws, h hws]
    dsimp only
    rw [service_config]
    unfold serviceOf
    dsimp only
    split
    · rfl
    · rfl

/-- The engine's part of a tick. -/
theorem liveTick_engine (opt : CliOptions F) (world : Nat → Outside) (shape : Shape) (ts : UInt64)
    (table : Table) (st : LiveState F) {service : Nat → Service}
    (h : opt.wsPort ≠ 0 → service st.engine.serviceCalls =
      serviceOf opt (world st.engine.serviceCalls) st) :
    (liveTick opt world shape ts table st).map (·.engine) =
      processTick opt.toOptions service shape ts table st.engine := by
  have hbegin := serviceTick_engine opt (world st.engine.serviceCalls) ts st h
  have hmarkets : ∀ begun : LiveState F × Bool,
      Except.map (·.engine) ((List.finRange shape.markets).foldlM
        (processMarket opt.toOptions table shape ts begun.2) begun.1.engine >>= fun engine =>
          pure (pushTick (world st.engine.serviceCalls) begun.2 { begun.1 with engine := engine })) =
      ((List.finRange shape.markets).foldlM
        (processMarket opt.toOptions table shape ts begun.2) begun.1.engine >>= fun engine =>
          pure (endTick begun.2 engine)) := by
    intro begun
    cases (List.finRange shape.markets).foldlM
      (processMarket opt.toOptions table shape ts begun.2) begun.1.engine with
    | error e => rfl
    | ok engine =>
      show Except.ok (pushTick _ begun.2 { begun.1 with engine := engine }).engine =
        Except.ok (endTick begun.2 engine)
      unfold pushTick
      split
      · rfl
      · rfl
  unfold processTick
  rw [← hbegin]
  exact hmarkets (serviceTick opt (world st.engine.serviceCalls) ts st)

/-- How often a tick calls `service()`. -/
theorem tickState_calls (opt : Options F) (service : Nat → Service) (shape : Shape) (ts : UInt64)
    (table : Table) (st : EngineState F) :
    (tickState opt service shape ts table st).serviceCalls =
      st.serviceCalls + if opt.wsPort = 0 then 0 else 1 := by
  have hadds := (adds_markets opt shape ts table (beginTick opt service ts st).2
    (List.finRange shape.markets) (beginTick opt service ts st).1).trans
    (adds_endTick (beginTick opt service ts st).2 _)
  have hcalls : (tickState opt service shape ts table st).serviceCalls =
      (beginTick opt service ts st).1.serviceCalls := hadds.calls
  rw [hcalls]
  unfold beginTick
  by_cases hws : opt.wsPort = 0
  · rw [if_pos hws, if_pos hws]
    rfl
  · rw [if_neg hws, if_neg hws]
    dsimp only
    split
    · rfl
    · rfl

/-- **Ticks with the server are ticks of the engine**: some texts and some pushes, call by call of
    `service()`, lead the engine through the same states. -/
theorem liveTicks_refine (opt : CliOptions F) (world : Nat → Outside) (shape : Shape)
    (cs : List (UInt64 × Table)) (st : LiveState F) :
    ∃ calls : List Service, ∀ service : Nat → Service,
      (∀ i call, calls[i]? = some call → service (st.engine.serviceCalls + i) = call) →
      (cs.foldlM (fun st c => liveTick opt world shape c.1 c.2 st) st).map (·.engine) =
        cs.foldlM (fun st c => processTick opt.toOptions service shape c.1 c.2 st) st.engine := by
  induction cs generalizing st with
  | nil => exact ⟨[], fun _ _ => rfl⟩
  | cons c cs ih =>
    let first := serviceOf opt (world st.engine.serviceCalls) st
    have htick := fun service h =>
      @liveTick_engine F _ _ opt world shape c.1 c.2 st service h
    cases hlive : liveTick opt world shape c.1 c.2 st with
    | error e =>
      refine ⟨[first], fun service hservice => ?_⟩
      have hone := htick service fun _ => hservice 0 first rfl
      rw [hlive] at hone
      rw [List.foldlM_cons, List.foldlM_cons, hlive, ← hone]
      rfl
    | ok st' =>
      obtain ⟨calls, hcalls⟩ := ih st'
      refine ⟨if opt.wsPort = 0 then calls else first :: calls, fun service hservice => ?_⟩
      have hfirst : opt.wsPort ≠ 0 → service st.engine.serviceCalls = first := by
        intro hws
        rw [if_neg hws] at hservice
        exact hservice 0 first rfl
      have hone := htick service hfirst
      rw [hlive] at hone
      have hnext : st'.engine = tickState opt.toOptions service shape c.1 c.2 st.engine := by
        rcases processTick_cases opt.toOptions service shape c.1 c.2 st.engine with hok | herr
        · rw [hok] at hone
          exact Except.ok.inj hone
        · rw [herr] at hone
          cases hone
      have hcount := tickState_calls opt.toOptions service shape c.1 c.2 st.engine
      rw [← hnext] at hcount
      rw [List.foldlM_cons, List.foldlM_cons, hlive, ← hone]
      refine hcalls service fun i call hcall => ?_
      by_cases hws : opt.wsPort = 0
      · rw [if_pos hws] at hservice hcount
        rw [hcount]
        exact hservice i call hcall
      · rw [if_neg hws] at hservice hcount
        have hlater := hservice (i + 1) call hcall
        rw [hcount, Nat.add_assoc, Nat.add_comm 1 i]
        exact hlater

/-- **The run with its server is a run of the engine.** -/
theorem liveRun_refines (opt : CliOptions F) (world : Nat → Outside) (now : Nat) (shape : Shape)
    (rs : List OddsUpdate) :
    ∃ service : Nat → Service,
      (liveRun opt world now shape rs).map (·.engine) = run opt.toOptions service shape rs := by
  obtain ⟨calls, hcalls⟩ := liveTicks_refine opt world shape (ticksOf rs)
    { engine := Options.initial opt.toOptions, server := Ws.Server.start kMaxBacklogBytes,
      wsLast := now }
  refine ⟨fun k => calls.getD k ⟨[], false⟩, ?_⟩
  unfold liveRun run
  rw [recordLoop_eq_cuts, recordLoop_eq_cuts]
  refine hcalls _ fun i call hcall => ?_
  have hzero : (Options.initial opt.toOptions).serviceCalls + i = i := Nat.zero_add i
  rw [hzero]
  simp [hcall]

/-! ## 3. The lock -/

/-- What is left of a run whose configuration is locked: the digest, the prices and the bets. -/
structure Replay (F : Type) where
  hash : UInt64 := ReplayHash.kOffsetBasis
  prices : List (Price F) := []
  bets : List (BetRecord F) := []

section Replay

variable (cfg : LiveConfig F) (betlog : Bool) (shape : Shape)

def replayMarket (table : Table) (ts : UInt64) (r : Replay F) (m : Fin shape.markets) :
    Except OutOfBounds (Replay F) := do
  let (fair, bets) ← priceMarket cfg betlog table shape m ts
  if !fair.hasFairPrice then return r
  else
    return { hash := mixPrice r.hash m.val.toUInt16 fair
             prices := r.prices ++
               [{ simTimestampNs := ts, marketId := m.val.toUInt16, fair := fair }]
             bets := r.bets ++ bets }

/-- A run that nobody watches, under one configuration. -/
def replay (rs : List OddsUpdate) : Except OutOfBounds (Replay F) :=
  recordLoop (fun ts table r => (List.finRange shape.markets).foldlM
    (replayMarket cfg betlog shape table ts) r) rs {}

end Replay

/-- A state of the engine that has computed `r` under the configuration `cfg`. -/
structure HasReplayed (cfg : LiveConfig F) (st : EngineState F) (r : Replay F) : Prop where
  cfg : st.cfg = cfg
  hash : st.hash = r.hash
  prices : st.prices = r.prices
  bets : st.bets = r.bets

theorem alike_processMarket {opt : Options F} (hhash : opt.hash = true) {cfg : LiveConfig F}
    (shape : Shape) (table : Table) (ts : UInt64) (push : Bool) {st : EngineState F} {r : Replay F}
    (h : HasReplayed cfg st r) (m : Fin shape.markets) :
    Alike (HasReplayed cfg) (processMarket opt table shape ts push st m)
      (replayMarket cfg (!opt.betsOut.isEmpty) shape table ts r m) := by
  unfold processMarket replayMarket
  rw [h.cfg]
  cases priceMarket cfg (!opt.betsOut.isEmpty) table shape m ts with
  | error e => exact .error e
  | ok priced =>
    obtain ⟨fair, bets⟩ := priced
    show Alike _ (.ok (recordMarket opt ts push m.val st fair bets)) (if !fair.hasFairPrice then
      .ok r else .ok ⟨mixPrice r.hash m.val.toUInt16 fair, r.prices ++ [⟨ts, m.val.toUInt16, fair⟩],
        r.bets ++ bets⟩)
    unfold recordMarket
    cases fair.hasFairPrice with
    | false => exact .ok ⟨h.cfg, h.hash, h.prices, h.bets⟩
    | true =>
      rw [if_pos hhash, h.hash, h.prices, h.bets]
      exact .ok ⟨h.cfg, rfl, rfl, rfl⟩

/-- A tick of a locked run computes what it would compute unwatched. -/
theorem alike_processTick {opt : Options F} (hhash : opt.hash = true) {cfg : LiveConfig F}
    (service : Nat → Service) (shape : Shape) (ts : UInt64) (table : Table) {st₀ : EngineState F}
    {r : Replay F} (h : HasReplayed cfg st₀ r) :
    Alike (HasReplayed cfg) (processTick opt service shape ts table st₀)
      ((List.finRange shape.markets).foldlM
        (replayMarket cfg (!opt.betsOut.isEmpty) shape table ts) r) := by
  have hbegun : HasReplayed cfg (beginTick opt service ts st₀).1 r := by
    unfold beginTick
    split
    · exact ⟨h.cfg, h.hash, h.prices, h.bets⟩
    · dsimp only
      rw [hhash, dispatchPending_hashMode]
      split
      · exact ⟨h.cfg, h.hash, h.prices, h.bets⟩
      · exact ⟨h.cfg, h.hash, h.prices, h.bets⟩
  have hmarkets := Alike.foldlM (List.finRange shape.markets)
    (fun st r h m _ => alike_processMarket hhash shape table ts (beginTick opt service ts st₀).2 h m)
    hbegun
  have hend : ∀ (st : EngineState F) (r : Replay F), HasReplayed cfg st r →
      Alike (HasReplayed cfg)
        (.ok (endTick (beginTick opt service ts st₀).2 st) : Except OutOfBounds (EngineState F))
        (.ok r : Except OutOfBounds (Replay F)) := by
    intro st r h
    unfold endTick
    split
    · exact .ok ⟨h.cfg, h.hash, h.prices, h.bets⟩
    · exact .ok ⟨h.cfg, h.hash, h.prices, h.bets⟩
  have hall := hmarkets.bind hend
  have hright : ∀ x : Except OutOfBounds (Replay F), (x >>= fun r => .ok r) = x := by
    intro x
    cases x with
    | error e => rfl
    | ok r => rfl
  rw [hright] at hall
  exact hall

/-- **A locked run is a replay**: its digest, its prices and its bets are those of a run that nobody
    watches, whatever commands arrive. -/
theorem run_locked {opt : Options F} (hhash : opt.hash = true) (service : Nat → Service)
    (shape : Shape) (rs : List OddsUpdate) :
    Alike (HasReplayed (Options.initial opt).cfg) (run opt service shape rs)
      (replay (Options.initial opt).cfg (!opt.betsOut.isEmpty) shape rs) := by
  unfold run replay
  rw [recordLoop_eq_cuts, recordLoop_eq_cuts]
  exact Alike.foldlM (ticksOf rs)
    (fun st r h c _ => alike_processTick hhash service shape c.1 c.2 h) ⟨rfl, rfl, rfl, rfl⟩

/-- What a run that comes to its end prints and logs. -/
def LiveState.output (st : LiveState F) : UInt64 × List (BetRecord F) :=
  (st.engine.hash, st.engine.bets)

theorem output_liveRun {opt : CliOptions F} (hhash : opt.hash = true) (world : Nat → Outside)
    (now : Nat) (shape : Shape) (rs : List OddsUpdate) :
    (liveRun opt world now shape rs).map LiveState.output =
      (replay (Options.initial opt.toOptions).cfg (!opt.betsOut.isEmpty) shape rs).map
        fun r => (r.hash, r.bets) := by
  obtain ⟨service, hservice⟩ := liveRun_refines opt world now shape rs
  have halike := run_locked hhash service shape rs
  have hsplit : (liveRun opt world now shape rs).map LiveState.output =
      ((liveRun opt world now shape rs).map (·.engine)).map fun st => (st.hash, st.bets) := by
    cases liveRun opt world now shape rs with
    | error e => rfl
    | ok st => rfl
  rw [hsplit, hservice]
  exact halike.map_eq fun st r h => by rw [h.hash, h.bets]

/-- **The dashboard is a view**: with `--hash`, two runs of one session from one configuration come
    to the same digest and the same bets, with a dashboard or without, on any port, with any number
    of markets to a push and at any interval, whatever connections, requests, bytes and commands
    its clients send at any call of `service()`, whatever the kernel takes of the answers and
    whenever the clock is read. -/
theorem replay_unaffected {opt : CliOptions F} (hhash : opt.hash = true) (shape : Shape)
    (rs : List OddsUpdate) (wsPort wsPort' : UInt16) (wsMarkets wsMarkets' : UInt32)
    (wsIntervalMs wsIntervalMs' : Int) (world world' : Nat → Outside) (now now' : Nat) :
    (liveRun { opt with wsPort := wsPort, wsMarkets := wsMarkets, wsIntervalMs := wsIntervalMs }
        world now shape rs).map LiveState.output =
      (liveRun { opt with wsPort := wsPort', wsMarkets := wsMarkets', wsIntervalMs := wsIntervalMs' }
        world' now' shape rs).map LiveState.output := by
  have hone := @output_liveRun F _ _
    { opt with wsPort := wsPort, wsMarkets := wsMarkets, wsIntervalMs := wsIntervalMs } hhash
    world now shape rs
  have hother := @output_liveRun F _ _
    { opt with wsPort := wsPort', wsMarkets := wsMarkets', wsIntervalMs := wsIntervalMs' } hhash
    world' now' shape rs
  exact hone.trans hother.symm

/-- `--hash --bets bets`. -/
noncomputable def hashOptions : CliOptions ℝ :=
  { CliOptions.defaults with hash := true, betsOut := ascii "bets" }

/-- Nobody connects. -/
def emptyWorld : Nat → Outside := fun _ =>
  { round := { Ws.commandRound with accepted := [], ready := fun _ => ⟨false, false, false⟩ }
    now := 0
    pushSends := fun _ => [] }

/-- A client connects, then another one does and the first sends a text. -/
def visitedWorld : Nat → Outside := fun k =>
  { round := if k = 0 then Ws.upgradeRound else Ws.commandRound
    now := 1000000000 * k
    pushSends := fun _ => [.accepted 10] }

/-- Two ticks, without a dashboard and with a visited one. -/
theorem replay_unaffected_two_ticks :
    (liveRun { hashOptions with wsPort := 0, wsMarkets := 20, wsIntervalMs := 100 } emptyWorld 0
        oneBook [evenQuote, replayedQuote]).map LiveState.output =
      (liveRun { hashOptions with wsPort := 8080, wsMarkets := 1, wsIntervalMs := 0 } visitedWorld 5
        oneBook [evenQuote, replayedQuote]).map LiveState.output :=
  replay_unaffected rfl oneBook _ 0 8080 20 1 100 0 emptyWorld visitedWorld 0 5

end OddsEngine
