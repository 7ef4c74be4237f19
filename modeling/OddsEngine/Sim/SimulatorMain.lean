/-
  File:      OddsEngine/Sim/SimulatorMain.lean
  Subject:   The simulator as a whole: its random engines, its sinks and the files it leaves (`main`
             of sim/main.cpp, sim/JumpSink.hpp, sim/SettlementSink.hpp).

  Every market has an engine of its own, every book of every market another, the settlement one more
  per market; all are seeded from the master seed. Which files are written is up to the options.

  * `marketStep_mirrors` -- one market's turn, beside the turn of `Simulation` over the vectors and
    draws that the engines give;
  * `simulate_files` -- so the files of a run are told by its seed, its size and nothing else: no
    option, and no datagram that fails to be sent, changes a byte of the others.

  The options are those of a command line that parses; `--pace` sleeps and is left out. The files can
  be written, and a socket that is asked for connects.
-/
import OddsEngine.Sim.FanoutSink
import OddsEngine.Sim.LatentMarket
import OddsEngine.Sim.SideFiles
import OddsEngine.Sim.Simulation

namespace OddsEngine

open Lib

structure SimOptions where
  seed : UInt64 := 42
  markets : UInt32 := 5
  ticks : UInt64 := 10000
  /-- Empty: no truth file. -/
  truthOut : Bytes := []
  /-- Empty: no settlement. -/
  settleOut : Bytes := []
  /-- Empty: no jump timeline. -/
  jumpsOut : Bytes := []
  /-- Empty: no broadcast. -/
  udpTarget : Bytes := []

/-- The jump timeline so far. -/
structure JumpSink where
  file : List UInt8

def JumpSink.start (seed : UInt64) (markets : UInt32) : JumpSink :=
  { file := jumpHeader seed markets }

def JumpSink.accept (s : JumpSink) (marketId : UInt16) (tick : UInt64) : JumpSink :=
  { file := s.file ++ ({ tick, marketId } : AnalyzeBets.JumpRecord).toBytes }

/-- The settlement so far. -/
structure SettlementSink where
  file : List UInt8

def SettlementSink.start (seed : UInt64) (markets : UInt32) : SettlementSink :=
  { file := settlementHeader seed markets }

def SettlementSink.accept (s : SettlementSink) (r : AnalyzeBets.SettlementRecord) : SettlementSink :=
  { file := s.file ++ r.toBytes }

variable {F : Type} [DoubleArith F] [Pow F F] [Truncate F] [Convert F]

/-- Three draws, in the order of the outcomes. -/
def Rng.normals (rng : Rng F) (draws : rng.State) : (Fin kOutcomes → F) × rng.State :=
  (List.finRange kOutcomes).foldl (fun (z, draws) i =>
    let (x, draws) := rng.normal draws
    (Function.update z i x, draws)) (fun _ => 0, draws)

/-- A `Bookmaker`, but for its settings. -/
structure Book (F : Type) (rng : Rng F) where
  history : Bookmaker.History (Simulation.Latent F)
  /-- `rng_` and `normal_`. -/
  draws : rng.State

/-- `quote`. -/
def Book.quote {rng : Rng F} (cfg : BookConfig F) (book : Book F rng) :
    (Fin kOutcomes → UInt32) × Book F rng :=
  let lagged := book.history.laggedView cfg.lagTicks
  let (normal, draws) := rng.normals book.draws
  (Bookmaker.quote cfg normal lagged, { book with draws })

structure MarketSim (F : Type) (rng : Rng F) (books : Nat) where
  latent : LatentMarket F rng
  books : Fin books → Book F rng

namespace Simulator

variable (rng : Rng F)

/-- What `main` keeps while it generates. -/
structure State (F : Type) (rng : Rng F) (books : Nat) where
  sims : Nat → MarketSim F rng books
  seqNo : Fin books → UInt64 := fun _ => 0
  sinks : List OutputSink
  truth : Option (TruthSink F)
  jumps : Option JumpSink
  finalLatent : Nat → Simulation.Latent F

variable {rng} (roster : List (SimBookConfig F)) (goesOut : Nat → Bool)

/-- One round of the innermost loop. -/
def bookStep (tick : UInt64) (m : Nat) (latent : Simulation.Latent F)
    (s : State F rng roster.length) (b : Fin roster.length) : State F rng roster.length :=
  let sim := s.sims m
  let book : Book F rng := { sim.books b with history := (sim.books b).history.observe latent }
  let sim := { sim with books := Function.update sim.books b book }
  if tick % Generator.interval (roster.get b) ≠ 0 then
    { s with sims := Function.update s.sims m sim }
  else
    let (odds, book) := book.quote (roster.get b).cfg
    let sim := { sim with books := Function.update sim.books b book }
    let update := Generator.recordOf (roster.get b).cfg.bookId (s.seqNo b) tick m odds
    { s with sims := Function.update s.sims m sim
             seqNo := Function.update s.seqNo b (s.seqNo b + 1)
             sinks := FanoutSink.accept goesOut s.sinks update }

/-- One market's turn. -/
def marketStep (tick : UInt64) (s : State F rng roster.length) (m : Nat) :
    State F rng roster.length :=
  let market := (s.sims m).latent.step
  let latent := market.softmax
  let s := { s with
    sims := Function.update s.sims m { s.sims m with latent := market }
    finalLatent := Function.update s.finalLatent m latent
    jumps := if market.jumped then s.jumps.map fun j => j.accept m.toUInt16 tick else s.jumps
    truth := s.truth.map fun t => t.accept (Simulation.truthOf tick m latent) }
  (List.finRange roster.length).foldl (bookStep roster goesOut tick m latent) s

variable (rng)

/-- The markets before the first tick. -/
def marketSim (seed : UInt64) (m : Nat) : MarketSim F rng roster.length :=
  { latent := LatentMarket.start rng (Seeding.deriveSeed seed Seeding.kLatentMarket m.toUInt64)
      (openingLine seed m.toUInt32)
    books := fun b =>
      { history := { history := fun _ _ => 0 }
        draws := rng.seeded (Seeding.deriveSeed seed Seeding.kBookmaker
          (m.toUInt64 * 1000 + b.val.toUInt64)) } }

/-- `sink`: the file first, so that it is whole even where the socket errs. -/
def sinksOf (opt : SimOptions) : List OutputSink :=
  let header := runHeader opt.seed opt.markets roster.length.toUInt32 opt.ticks
  .file (FileSink.start header) ::
    if opt.udpTarget.isEmpty then []
    else [.udp (UdpSocketSink.start goesOut opt.seed opt.markets roster.length.toUInt32)]

def start (opt : SimOptions) : State F rng roster.length :=
  { sims := marketSim rng roster opt.seed
    sinks := sinksOf roster goesOut opt
    truth := if opt.truthOut.isEmpty then none else some {}
    jumps := if opt.jumpsOut.isEmpty then none else some (JumpSink.start opt.seed opt.markets)
    finalLatent := fun _ _ => 0 }

/-- The generation loop. -/
def generate (opt : SimOptions) : State F rng roster.length :=
  (List.range opt.ticks.toNat).foldl (fun s tick =>
    (List.range opt.markets.toNat).foldl (marketStep roster goesOut tick.toUInt64) s)
    (start rng roster goesOut opt)

/-- The winner of one market, drawn by an engine of its own. -/
def settlementOf (seed : UInt64) (finalLatent : Nat → Simulation.Latent F) (m : Nat) :
    AnalyzeBets.SettlementRecord :=
  let srng := rng.seeded (Seeding.deriveSeed seed Seeding.kSettlement m.toUInt64)
  { marketId := m.toUInt16
    winner := (rng.discrete (finalLatent m) srng).1.val.toUInt8
    outcomeCount := kOutcomes.toUInt8 }

/-- What a run leaves: the sinks, and the files asked for. -/
structure Files where
  sinks : List OutputSink
  truth : Option (List UInt8)
  jumps : Option (List UInt8)
  settle : Option (List UInt8)

/-- `main`, from the options on, for any roster. -/
def run (opt : SimOptions) : Files :=
  let s := generate rng roster goesOut opt
  { sinks := FanoutSink.finish goesOut s.sinks
    truth := s.truth.map fun t => t.finish.file
    jumps := s.jumps.map JumpSink.file
    settle :=
      if opt.settleOut.isEmpty then none
      else some ((List.range opt.markets.toNat).foldl (fun k m =>
        k.accept (settlementOf rng opt.seed s.finalLatent m))
        (SettlementSink.start opt.seed opt.markets)).file }

/-- `main`, from the options on. -/
def simulate (opt : SimOptions) : Files := run rng defaultRoster goesOut opt

/-! ## 1. What the engines give -/

/-- Market `m` after `n` steps. -/
def latentAt (seed : UInt64) (m n : Nat) : LatentMarket F rng :=
  (LatentMarket.start rng (Seeding.deriveSeed seed Seeding.kLatentMarket m.toUInt64)
    (openingLine seed m.toUInt32)).after n

/-- The engine of one book of a market, when `n` ticks have passed: three draws for each quote. -/
def drawsAt (seed : UInt64) (m : Nat) (b : Fin roster.length) : Nat → rng.State
  | 0 => rng.seeded (Seeding.deriveSeed seed Seeding.kBookmaker
      (m.toUInt64 * 1000 + b.val.toUInt64))
  | n + 1 =>
    if n.toUInt64 % Generator.interval (roster.get b) ≠ 0 then drawsAt seed m b n
    else (rng.normals (drawsAt seed m b n)).2

/-- The vectors and the draws of a run, from its seed. -/
def streams (seed : UInt64) : Simulation.Streams F where
  latent tick m := (latentAt rng seed m (tick.toNat + 1)).softmax
  normal tick m b :=
    if h : b < roster.length then (rng.normals (drawsAt rng roster seed m ⟨b, h⟩ tick.toNat)).1
    else fun _ => 0

/-- The jump of one market at one tick, if there is one. -/
def jumpAt (seed : UInt64) (tick m : Nat) : List AnalyzeBets.JumpRecord :=
  if (latentAt rng seed m (tick + 1)).jumped then
    [{ tick := tick.toUInt64, marketId := m.toUInt16 }]
  else []

/-- The jumps of a run, tick by tick. -/
def jumpRecords (seed : UInt64) (markets ticks : Nat) : List AnalyzeBets.JumpRecord :=
  (List.range ticks).flatMap fun tick => (List.range markets).flatMap (jumpAt rng seed tick)

/-- The winners of a run, drawn from the vectors of its last tick. -/
def settlementRecords (seed : UInt64) (markets ticks : Nat) : List AnalyzeBets.SettlementRecord :=
  (List.range markets).map (settlementOf rng seed fun m => (latentAt rng seed m ticks).softmax)

/-! ## 2. Beside the simulation over these streams -/

variable {rng} {roster}

/-- One entry of a table replaced. -/
theorem update_update_apply {α : Type} {n : Nat} (f : Nat → Fin n → α) (m : Nat) (b : Fin n) (x : α)
    (m' : Nat) (b' : Fin n) :
    Function.update f m (Function.update (f m) b x) m' b' =
      if m' = m ∧ b' = b then x else f m' b' := by
  by_cases hm : m' = m
  · subst hm
    rw [Function.update_self]
    by_cases hb : b' = b
    · rw [hb, Function.update_self, if_pos ⟨rfl, rfl⟩]
    · rw [Function.update_of_ne hb, if_neg fun h => hb h.2]
  · rw [Function.update_of_ne hm, if_neg fun h => hm h.1]

section Sims

omit [DoubleArith F] [Pow F F] [Truncate F] [Convert F]

variable {rng : Rng F} {books : Nat} (sims : Nat → MarketSim F rng books) (m : Nat)

/-- One book of one market replaced. -/
def setBook (b : Fin books) (book : Book F rng) : Nat → MarketSim F rng books :=
  Function.update sims m { sims m with books := Function.update (sims m).books b book }

theorem latent_setBook (b : Fin books) (book : Book F rng) (m' : Nat) :
    (setBook sims m b book m').latent = (sims m').latent := by
  unfold setBook
  by_cases hm : m' = m
  · rw [hm, Function.update_self]
  · rw [Function.update_of_ne hm]

theorem books_setBook (b : Fin books) (book : Book F rng) (m' : Nat) (b' : Fin books) :
    (setBook sims m b book m').books b' = if m' = m ∧ b' = b then book else (sims m').books b' := by
  unfold setBook
  by_cases hm : m' = m
  · subst hm
    rw [Function.update_self]
    by_cases hb : b' = b
    · rw [hb, if_pos ⟨rfl, rfl⟩]
      exact Function.update_self _ _ _
    · rw [if_neg fun h => hb h.2]
      exact Function.update_of_ne hb _ _
  · rw [Function.update_of_ne hm, if_neg fun h => hm h.1]

end Sims

/-- **The simulator beside the simulation.** Each market has made its `steps`, each of its books has
    been paid its `visits`; `js` are the jumps so far. -/
structure Mirrors (seed : UInt64) (s₀ s : State F rng roster.length)
    (t : Simulation.State F roster.length) (steps : Nat → Nat)
    (visits : Nat → Fin roster.length → Nat) (js : List AnalyzeBets.JumpRecord) : Prop where
  latent : ∀ m, (s.sims m).latent = latentAt rng seed m (steps m)
  draws : ∀ m b, ((s.sims m).books b).draws = drawsAt rng roster seed m b (visits m b)
  history : ∀ m b, ((s.sims m).books b).history = t.desk.history m b
  seqNo : s.seqNo = t.desk.seqNo
  sinks : s.sinks =
    (t.desk.sink.map Simulation.Quoted.update).foldl (FanoutSink.accept goesOut) s₀.sinks
  truth : s.truth = s₀.truth.map fun k => t.truth.foldl TruthSink.accept k
  jumps : s.jumps = s₀.jumps.map fun k => js.foldl (fun k r => k.accept r.marketId r.tick) k
  finalLatent : ∀ m, 0 < steps m → s.finalLatent m = (latentAt rng seed m (steps m)).softmax

variable {goesOut} {seed : UInt64} {s₀ s : State F rng roster.length}
  {t : Simulation.State F roster.length} {steps : Nat → Nat}
  {visits : Nat → Fin roster.length → Nat} {js : List AnalyzeBets.JumpRecord}

omit [Pow F F] [Truncate F] [Convert F] in
theorem normal_streams (seed : UInt64) {tick : Nat} (htick : tick < 2 ^ 64) (m : Nat)
    (b : Fin roster.length) :
    (streams rng roster seed).normal tick.toUInt64 m b =
      (rng.normals (drawsAt rng roster seed m b tick)).1 := by
  have hnat : tick.toUInt64.toNat = tick := UInt64.toNat_ofNat_of_lt' htick
  unfold streams
  dsimp only
  rw [dif_pos b.isLt, hnat]

/-- **Both loops do the same to one book.** -/
theorem bookStep_mirrors (h : Mirrors goesOut seed s₀ s t steps visits js) {tick m : Nat}
    {b : Fin roster.length} (hvisits : visits m b = tick) (htick : tick < 2 ^ 64) :
    Mirrors goesOut seed s₀
      (bookStep roster goesOut tick.toUInt64 m ((streams rng roster seed).latent tick.toUInt64 m) s b)
      { t with desk :=
          Simulation.bookStep roster (streams rng roster seed) tick.toUInt64 m t.desk b }
      steps (Function.update visits m (Function.update (visits m) b (tick + 1))) js := by
  let v := (streams rng roster seed).latent tick.toUInt64 m
  have hdraws := h.draws m b
  have hhistory := h.history m b
  let history := Function.update t.desk.history m
    (Function.update (t.desk.history m) b ((t.desk.history m b).observe v))
  have hupdated : ∀ m' b', history m' b' =
      if m' = m ∧ b' = b then (t.desk.history m b).observe v else t.desk.history m' b' :=
    update_update_apply _ _ _ _
  rw [hvisits] at hdraws
  by_cases hdue : tick.toUInt64 % Generator.interval (roster.get b) ≠ 0
  · -- the book observes and is passed over
    let book : Book F rng :=
      { (s.sims m).books b with history := ((s.sims m).books b).history.observe v }
    have hs : bookStep roster goesOut tick.toUInt64 m v s b =
        { s with sims := setBook s.sims m b book } := if_pos hdue
    have ht : Simulation.bookStep roster (streams rng roster seed) tick.toUInt64 m t.desk b =
        { t.desk with history := history } := if_pos hdue
    have hengine : drawsAt rng roster seed m b (tick + 1) = drawsAt rng roster seed m b tick :=
      if_pos hdue
    rw [hs, ht]
    refine ⟨fun m' => ?_, fun m' b' => ?_, fun m' b' => ?_, h.seqNo, h.sinks, h.truth, h.jumps,
      h.finalLatent⟩
    · exact (latent_setBook _ _ _ _ m').trans (h.latent m')
    · dsimp only
      rw [books_setBook, update_update_apply]
      by_cases hmine : m' = m ∧ b' = b
      · rw [if_pos hmine, if_pos hmine, hmine.1, hmine.2, hengine]
        exact hdraws
      · rw [if_neg hmine, if_neg hmine]
        exact h.draws m' b'
    · dsimp only
      rw [books_setBook, hupdated]
      by_cases hmine : m' = m ∧ b' = b
      · rw [if_pos hmine, if_pos hmine, ← hhistory]
      · rw [if_neg hmine, if_neg hmine]
        exact h.history m' b'
  · -- the book quotes
    let book : Book F rng := { history := ((s.sims m).books b).history.observe v
                               draws := (rng.normals ((s.sims m).books b).draws).2 }
    let lagged := (((s.sims m).books b).history.observe v).laggedView (roster.get b).cfg.lagTicks
    let odds := Bookmaker.quote (roster.get b).cfg (rng.normals ((s.sims m).books b).draws).1 lagged
    let update := Generator.recordOf (roster.get b).cfg.bookId (s.seqNo b) tick.toUInt64 m odds
    have hs : bookStep roster goesOut tick.toUInt64 m v s b =
        { s with sims := setBook s.sims m b book
                 seqNo := Function.update s.seqNo b (s.seqNo b + 1)
                 sinks := FanoutSink.accept goesOut s.sinks update } := by
      unfold bookStep setBook
      dsimp only
      rw [if_neg hdue, Function.update_idem]
      rfl
    have hnormal : (streams rng roster seed).normal tick.toUInt64 m b = _ :=
      normal_streams seed htick m b
    have hquoted : ((t.desk.history m b).observe v).laggedView (roster.get b).cfg.lagTicks =
        lagged := by rw [← hhistory]
    have ht : Simulation.bookStep roster (streams rng roster seed) tick.toUInt64 m t.desk b =
        { history, seqNo := Function.update s.seqNo b (s.seqNo b + 1),
          sink := t.desk.sink ++ [{ book := b, lagged, update }] } := by
      unfold Simulation.bookStep
      dsimp only
      rw [if_neg hdue, hquoted, hnormal, ← hdraws, ← h.seqNo]
    have hengine : drawsAt rng roster seed m b (tick + 1) =
        (rng.normals (drawsAt rng roster seed m b tick)).2 := if_neg hdue
    rw [hs, ht]
    refine ⟨fun m' => ?_, fun m' b' => ?_, fun m' b' => ?_, rfl, ?_, h.truth, h.jumps,
      h.finalLatent⟩
    · exact (latent_setBook _ _ _ _ m').trans (h.latent m')
    · dsimp only
      rw [books_setBook, update_update_apply]
      by_cases hmine : m' = m ∧ b' = b
      · rw [if_pos hmine, if_pos hmine, hmine.1, hmine.2, hengine, ← hdraws]
      · rw [if_neg hmine, if_neg hmine]
        exact h.draws m' b'
    · dsimp only
      rw [books_setBook, hupdated]
      by_cases hmine : m' = m ∧ b' = b
      · rw [if_pos hmine, if_pos hmine, ← hhistory]
      · rw [if_neg hmine, if_neg hmine]
        exact h.history m' b'
    · dsimp only
      rw [List.map_append, List.foldl_append, ← h.sinks]
      rfl

/-- So they do to the books of one market, one after the other. -/
theorem books_mirrors {tick m : Nat} (htick : tick < 2 ^ 64) {bs : List (Fin roster.length)}
    (hnodup : bs.Nodup) (h : Mirrors goesOut seed s₀ s t steps visits js)
    (hvisits : ∀ b ∈ bs, visits m b = tick) :
    Mirrors goesOut seed s₀
      (bs.foldl (bookStep roster goesOut tick.toUInt64 m
        ((streams rng roster seed).latent tick.toUInt64 m)) s)
      { t with
        desk := bs.foldl (Simulation.bookStep roster (streams rng roster seed) tick.toUInt64 m)
          t.desk }
      steps (fun m' b' => if m' = m ∧ b' ∈ bs then tick + 1 else visits m' b') js := by
  induction bs generalizing s t visits with
  | nil =>
    have hnone : (fun m' b' => if m' = m ∧ b' ∈ ([] : List (Fin roster.length)) then tick + 1
        else visits m' b') = visits := by
      funext m' b'
      exact if_neg fun hin => List.not_mem_nil hin.2
    rw [hnone]
    exact h
  | cons b bs ih =>
    have hb : b ∉ bs := (List.nodup_cons.mp hnodup).1
    have hone := bookStep_mirrors h (hvisits b List.mem_cons_self) htick
    have hrest := ih (List.nodup_cons.mp hnodup).2 hone fun b' hb' => by
      have hother : ¬(m = m ∧ b' = b) := fun hmine => hb (hmine.2 ▸ hb')
      rw [update_update_apply, if_neg hother]
      exact hvisits b' (List.mem_cons_of_mem _ hb')
    have hall : (fun m' b' => if m' = m ∧ b' ∈ bs then tick + 1
        else Function.update visits m (Function.update (visits m) b (tick + 1)) m' b') =
          fun m' b' => if m' = m ∧ b' ∈ b :: bs then tick + 1 else visits m' b' := by
      funext m' b'
      rw [update_update_apply]
      by_cases hm : m' = m
      · by_cases hmine : b' = b
        · simp [hm, hmine]
        · simp [hm, hmine]
      · simp [hm]
    rw [hall] at hrest
    exact hrest

omit [Pow F F] [Truncate F] [Convert F] in
theorem latent_streams (seed : UInt64) {tick : Nat} (htick : tick < 2 ^ 64) (m : Nat) :
    (streams rng roster seed).latent tick.toUInt64 m =
      (latentAt rng seed m (tick + 1)).softmax := by
  have hnat : tick.toUInt64.toNat = tick := UInt64.toNat_ofNat_of_lt' htick
  unfold streams
  dsimp only
  rw [hnat]

/-- **Both loops do the same to one market**: it steps, and its jump and its vector are recorded
    before its books see them. -/
theorem marketStep_mirrors (h : Mirrors goesOut seed s₀ s t steps visits js) {tick m : Nat}
    (hsteps : steps m = tick) (hvisits : ∀ b, visits m b = tick) (htick : tick < 2 ^ 64) :
    Mirrors goesOut seed s₀ (marketStep roster goesOut tick.toUInt64 s m)
      (Simulation.marketStep roster (streams rng roster seed) tick.toUInt64 t m)
      (Function.update steps m (tick + 1))
      (fun m' b' => if m' = m then tick + 1 else visits m' b') (js ++ jumpAt rng seed tick m) := by
  let market := latentAt rng seed m (tick + 1)
  have hmarket : (s.sims m).latent.step = market := by
    rw [h.latent m, hsteps]
    rfl
  have hvector : (streams rng roster seed).latent tick.toUInt64 m = market.softmax :=
    latent_streams seed htick m
  let s' : State F rng roster.length := { s with
    sims := Function.update s.sims m { s.sims m with latent := market }
    finalLatent := Function.update s.finalLatent m market.softmax
    jumps := if market.jumped then s.jumps.map fun j => j.accept m.toUInt16 tick.toUInt64
      else s.jumps
    truth := s.truth.map fun k =>
      k.accept (Simulation.truthOf tick.toUInt64 m market.softmax) }
  let t' : Simulation.State F roster.length := { t with
    truth := t.truth ++ [Simulation.truthOf tick.toUInt64 m market.softmax] }
  have hrecorded : Mirrors goesOut seed s₀ s' t' (Function.update steps m (tick + 1)) visits
      (js ++ jumpAt rng seed tick m) := by
    have hself : s'.sims m = { s.sims m with latent := market } := Function.update_self _ _ _
    have hother : ∀ m', m' ≠ m → s'.sims m' = s.sims m' := fun m' hm =>
      Function.update_of_ne hm _ _
    have hbooks : ∀ m', (s'.sims m').books = (s.sims m').books := by
      intro m'
      by_cases hm : m' = m
      · rw [hm, hself]
      · rw [hother m' hm]
    refine ⟨fun m' => ?_, fun m' b' => ?_, fun m' b' => ?_, h.seqNo, h.sinks, ?_, ?_,
      fun m' hm' => ?_⟩
    · by_cases hm : m' = m
      · rw [hm, Function.update_self, hself]
      · rw [Function.update_of_ne hm, hother m' hm]
        exact h.latent m'
    · rw [hbooks]
      exact h.draws m' b'
    · rw [hbooks]
      exact h.history m' b'
    · show (s.truth.map fun k => k.accept (Simulation.truthOf tick.toUInt64 m market.softmax)) =
        s₀.truth.map fun k => (t.truth ++ [Simulation.truthOf tick.toUInt64 m market.softmax]).foldl
          TruthSink.accept k
      rw [h.truth, Option.map_map]
      congr 1
      funext k
      rw [List.foldl_append]
      rfl
    · show (if market.jumped then s.jumps.map fun j => j.accept m.toUInt16 tick.toUInt64
        else s.jumps) = _
      unfold jumpAt
      by_cases hjumped : market.jumped = true
      · rw [if_pos hjumped, if_pos hjumped, h.jumps, Option.map_map]
        congr 1
        funext k
        rw [List.foldl_append]
        rfl
      · rw [if_neg hjumped, if_neg hjumped, List.append_nil]
        exact h.jumps
    · by_cases hm : m' = m
      · rw [hm, Function.update_self]
        exact Function.update_self _ _ _
      · rw [Function.update_of_ne hm] at hm' ⊢
        exact (Function.update_of_ne hm _ _).trans (h.finalLatent m' hm')
  have hall := books_mirrors (m := m) htick (List.nodup_finRange roster.length) hrecorded
    fun b _ => hvisits b
  have hvisited : (fun m' b' => if m' = m ∧ b' ∈ List.finRange roster.length then tick + 1
      else visits m' b') = fun m' b' => if m' = m then tick + 1 else visits m' b' := by
    funext m' b'
    simp only [List.mem_finRange, and_true]
  have hs : marketStep roster goesOut tick.toUInt64 s m =
      (List.finRange roster.length).foldl (bookStep roster goesOut tick.toUInt64 m
        ((streams rng roster seed).latent tick.toUInt64 m)) s' := by
    unfold marketStep
    rw [hmarket, hvector]
  have ht : Simulation.marketStep roster (streams rng roster seed) tick.toUInt64 t m =
      { t' with
        desk := (List.finRange roster.length).foldl
          (Simulation.bookStep roster (streams rng roster seed) tick.toUInt64 m) t'.desk } := by
    unfold Simulation.marketStep
    rw [hvector]
  rw [hs, ht, ← hvisited]
  exact hall

/-- And to the markets of one tick. -/
theorem markets_mirrors {tick : Nat} (htick : tick < 2 ^ 64) {ms : List Nat} (hnodup : ms.Nodup)
    (h : Mirrors goesOut seed s₀ s t steps visits js) (hsteps : ∀ m ∈ ms, steps m = tick)
    (hvisits : ∀ m ∈ ms, ∀ b, visits m b = tick) :
    Mirrors goesOut seed s₀ (ms.foldl (marketStep roster goesOut tick.toUInt64) s)
      (ms.foldl (Simulation.marketStep roster (streams rng roster seed) tick.toUInt64) t)
      (fun m => if m ∈ ms then tick + 1 else steps m)
      (fun m b => if m ∈ ms then tick + 1 else visits m b)
      (js ++ ms.flatMap (jumpAt rng seed tick)) := by
  induction ms generalizing s t steps visits js with
  | nil =>
    simp only [List.not_mem_nil, if_false, List.flatMap_nil, List.append_nil]
    exact h
  | cons m ms ih =>
    have hm : m ∉ ms := (List.nodup_cons.mp hnodup).1
    have hne : ∀ m' ∈ ms, m' ≠ m := fun m' hm' e => hm (e ▸ hm')
    have hone := marketStep_mirrors h (hsteps m List.mem_cons_self) (hvisits m List.mem_cons_self)
      htick
    have hrest := ih (List.nodup_cons.mp hnodup).2 hone
      (fun m' hm' => by
        rw [Function.update_of_ne (hne m' hm')]
        exact hsteps m' (List.mem_cons_of_mem _ hm'))
      (fun m' hm' b => by
        rw [if_neg (hne m' hm')]
        exact hvisits m' (List.mem_cons_of_mem _ hm') b)
    have hstepped : (fun m' => if m' ∈ ms then tick + 1
        else Function.update steps m (tick + 1) m') =
          fun m' => if m' ∈ m :: ms then tick + 1 else steps m' := by
      funext m'
      by_cases hmine : m' = m
      · simp [hmine]
      · simp [hmine]
    have hvisited : (fun m' b => if m' ∈ ms then tick + 1
        else if m' = m then tick + 1 else visits m' b) =
          fun m' b => if m' ∈ m :: ms then tick + 1 else visits m' b := by
      funext m' b
      by_cases hmine : m' = m
      · simp [hmine]
      · simp [hmine]
    rw [hstepped, hvisited, List.append_assoc] at hrest
    exact hrest

omit [Pow F F] [Truncate F] in
/-- Nothing has happened yet. -/
theorem start_mirrors (opt : SimOptions) :
    Mirrors goesOut opt.seed (start rng roster goesOut opt) (start rng roster goesOut opt)
      { desk := Simulation.Desk.init } (fun _ => 0) (fun _ _ => 0) [] where
  latent _ := rfl
  draws _ _ := rfl
  history _ _ := rfl
  seqNo := rfl
  sinks := rfl
  truth := Option.map_id'.symm
  jumps := Option.map_id'.symm
  finalLatent _ hlt := absurd hlt (Nat.lt_irrefl 0)

/-- **The whole loop**: the simulator's is the one of `Simulation` over the streams of its engines. -/
theorem generate_mirrors (opt : SimOptions) :
    Mirrors goesOut opt.seed (start rng roster goesOut opt) (generate rng roster goesOut opt)
      (Simulation.run roster (streams rng roster opt.seed) opt.markets opt.ticks)
      (fun m => if m < opt.markets.toNat then opt.ticks.toNat else 0)
      (fun m _ => if m < opt.markets.toNat then opt.ticks.toNat else 0)
      (jumpRecords rng opt.seed opt.markets.toNat opt.ticks.toNat) := by
  have hticks := opt.ticks.toNat_lt
  unfold generate Simulation.run jumpRecords
  generalize opt.ticks.toNat = ticks at hticks ⊢
  induction ticks with
  | zero =>
    simp only [ite_self]
    exact start_mirrors opt
  | succ n ih =>
    have hrun := ih (by omega)
    have hmarkets : (List.range opt.markets.toNat).Nodup := List.nodup_range
    have hround := markets_mirrors (by omega : n < 2 ^ 64) hmarkets hrun
      (fun m hm => if_pos (List.mem_range.mp hm))
      (fun m hm _ => if_pos (List.mem_range.mp hm))
    have hcount : ∀ m, (if m ∈ List.range opt.markets.toNat then n + 1
        else if m < opt.markets.toNat then n else 0) =
          if m < opt.markets.toNat then n + 1 else 0 := by
      intro m
      by_cases hm : m < opt.markets.toNat
      · rw [if_pos (List.mem_range.mpr hm), if_pos hm]
      · rw [if_neg (fun hin => hm (List.mem_range.mp hin)), if_neg hm, if_neg hm]
    simp only [hcount] at hround
    rw [List.range_succ, List.foldl_append, List.foldl_append, List.flatMap_append,
      List.flatMap_singleton]
    exact hround

/-! ## 3. The files -/

theorem file_foldl_jumpSink (rs : List AnalyzeBets.JumpRecord) (k : JumpSink) :
    (rs.foldl (fun k r => k.accept r.marketId r.tick) k).file =
      k.file ++ rs.flatMap AnalyzeBets.JumpRecord.toBytes := by
  induction rs generalizing k with
  | nil => exact (List.append_nil _).symm
  | cons r rs ih =>
    rw [List.foldl_cons, ih, List.flatMap_cons, ← List.append_assoc]
    rfl

theorem file_foldl_settlementSink {α : Type} (f : α → AnalyzeBets.SettlementRecord) (xs : List α)
    (k : SettlementSink) :
    (xs.foldl (fun k x => k.accept (f x)) k).file =
      k.file ++ (xs.map f).flatMap AnalyzeBets.SettlementRecord.toBytes := by
  induction xs generalizing k with
  | nil => exact (List.append_nil _).symm
  | cons x xs ih =>
    rw [List.foldl_cons, ih, List.map_cons, List.flatMap_cons, ← List.append_assoc]
    rfl

variable (rng) (roster) (goesOut)

/-- The records of a run. -/
def records (opt : SimOptions) : List OddsUpdate :=
  (Simulation.run roster (streams rng roster opt.seed) opt.markets opt.ticks).desk.sink.map
    Simulation.Quoted.update

/-- Each sink has had the run's records, as it would have had them alone. -/
theorem sinks_generate (opt : SimOptions) :
    FanoutSink.finish goesOut (generate rng roster goesOut opt).sinks =
      FanoutSink.run goesOut (sinksOf roster goesOut opt) (records rng roster opt) :=
  congrArg _ (generate_mirrors opt).sinks

theorem truth_generate (opt : SimOptions) :
    ((generate rng roster goesOut opt).truth.map fun k => k.finish.file) =
      if opt.truthOut.isEmpty then none
      else some ((Simulation.truthRecords (streams rng roster opt.seed) opt.markets.toNat
        opt.ticks.toNat).flatMap TruthRecord.toBytes) := by
  rw [(generate_mirrors opt).truth, Simulation.truth_run]
  unfold start
  dsimp only
  split
  · rfl
  · rw [Option.map_some, Option.map_some, TruthSink.file_finish]

theorem jumps_generate (opt : SimOptions) :
    (generate rng roster goesOut opt).jumps.map JumpSink.file =
      if opt.jumpsOut.isEmpty then none
      else some (jumpHeader opt.seed opt.markets ++
        (jumpRecords rng opt.seed opt.markets.toNat opt.ticks.toNat).flatMap
          AnalyzeBets.JumpRecord.toBytes) := by
  rw [(generate_mirrors opt).jumps]
  unfold start
  dsimp only
  split
  · rfl
  · rw [Option.map_some, Option.map_some, file_foldl_jumpSink]
    rfl

/-- The winners are drawn from the vectors of the last tick. -/
theorem settlement_generate (opt : SimOptions) (hticks : opt.ticks ≠ 0) :
    (List.range opt.markets.toNat).map
        (settlementOf rng opt.seed (generate rng roster goesOut opt).finalLatent) =
      settlementRecords rng opt.seed opt.markets.toNat opt.ticks.toNat := by
  have hpos : 0 < opt.ticks.toNat :=
    Nat.pos_of_ne_zero fun h => hticks (UInt64.toNat_inj.mp h)
  refine List.map_congr_left fun m hm => ?_
  have hlt : m < opt.markets.toNat := List.mem_range.mp hm
  have hfinal := (@generate_mirrors F _ _ _ _ rng roster goesOut opt).finalLatent m
  rw [if_pos hlt] at hfinal
  unfold settlementOf
  rw [hfinal hpos]

/-- The file sink has the session, and the socket, where there is one, the broadcast. -/
theorem sinks_run (opt : SimOptions) :
    ∃ file, (run rng roster goesOut opt).sinks = .file file ::
        (if opt.udpTarget.isEmpty then []
        else [.udp (FanoutSink.sender goesOut opt.seed opt.markets roster.length.toUInt32
          (records rng roster opt))]) ∧
      file.file = FileSink.fileOf (runHeader opt.seed opt.markets roster.length.toUInt32 opt.ticks)
        (records rng roster opt) := by
  refine ⟨FileSink.finish ((records rng roster opt).foldl FileSink.accept (FileSink.start
    (runHeader opt.seed opt.markets roster.length.toUInt32 opt.ticks))), ?_, rfl⟩
  show FanoutSink.finish goesOut (generate rng roster goesOut opt).sinks = _
  rw [sinks_generate]
  unfold FanoutSink.run FanoutSink.finish
  rw [FanoutSink.foldl_accept, List.map_map]
  unfold sinksOf
  split
  · show [OutputSink.finish goesOut ((records rng roster opt).foldl _ (.file _))] = _
    rw [FanoutSink.foldl_file]
    rfl
  · show [OutputSink.finish goesOut ((records rng roster opt).foldl _ (.file _)),
      OutputSink.finish goesOut ((records rng roster opt).foldl _ (.udp _))] = _
    rw [FanoutSink.foldl_file, FanoutSink.foldl_udp]
    rfl

theorem settle_run (opt : SimOptions) (hticks : opt.ticks ≠ 0) :
    (run rng roster goesOut opt).settle =
      if opt.settleOut.isEmpty then none
      else some (settlementHeader opt.seed opt.markets ++
        (settlementRecords rng opt.seed opt.markets.toNat opt.ticks.toNat).flatMap
          AnalyzeBets.SettlementRecord.toBytes) := by
  show (if opt.settleOut.isEmpty then none else _) = _
  rw [file_foldl_settlementSink, settlement_generate rng roster goesOut opt hticks]
  rfl

/-- **The files of a simulation** are told by its engines, its seed and its size. The session file
    has the records that `Simulation` makes of the engines' streams, the truth file the vectors they
    were made from, the jump timeline the steps that jumped, the settlement a winner for each market,
    drawn from its last vector by an engine of its own. No option, and no datagram that fails to be
    sent, changes a byte of another file; and the broadcast is the one of these records. -/
theorem simulate_files (opt : SimOptions) (hticks : opt.ticks ≠ 0) :
    let rs := records rng roster opt
    let books := roster.length.toUInt32
    let files := run rng roster goesOut opt
    (∃ file, files.sinks = .file file ::
        (if opt.udpTarget.isEmpty then []
        else [.udp (FanoutSink.sender goesOut opt.seed opt.markets books rs)]) ∧
      file.file = FileSink.fileOf (runHeader opt.seed opt.markets books opt.ticks) rs) ∧
    files.truth = (if opt.truthOut.isEmpty then none
      else some ((Simulation.truthRecords (streams rng roster opt.seed) opt.markets.toNat
        opt.ticks.toNat).flatMap TruthRecord.toBytes)) ∧
    files.jumps = (if opt.jumpsOut.isEmpty then none
      else some (jumpHeader opt.seed opt.markets ++
        (jumpRecords rng opt.seed opt.markets.toNat opt.ticks.toNat).flatMap
          AnalyzeBets.JumpRecord.toBytes)) ∧
    files.settle = (if opt.settleOut.isEmpty then none
      else some (settlementHeader opt.seed opt.markets ++
        (settlementRecords rng opt.seed opt.markets.toNat opt.ticks.toNat).flatMap
          AnalyzeBets.SettlementRecord.toBytes)) :=
  ⟨sinks_run rng roster goesOut opt, truth_generate rng roster goesOut opt,
    jumps_generate rng roster goesOut opt, settle_run rng roster goesOut opt hticks⟩

/-- Three ticks of the default simulator, with a settlement. -/
theorem simulate_files_restless :
    (simulate restlessRng (fun _ => true) { markets := 2, ticks := 3, settleOut := [115] }).settle =
      some (settlementHeader 42 2 ++
        (settlementRecords restlessRng 42 2 3).flatMap AnalyzeBets.SettlementRecord.toBytes) :=
  (simulate_files restlessRng defaultRoster (fun _ => true)
    { markets := 2, ticks := 3, settleOut := [115] } (by decide)).2.2.2

end Simulator

end OddsEngine
