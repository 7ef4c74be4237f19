/-
  File:      OddsEngine/Engine/Ticks.lean
  Subject:   Which ticks a run prices, and on which table (the record loop of engine/main.cpp).

  The loop closes a tick wherever the timestamp CHANGES. On a stream whose timestamps never
  decrease, as `verify_session` asks of a session file, that is right:

  * `recordLoop_of_sorted` -- one call for every timestamp, in increasing order, and the call for
    a timestamp sees exactly the records up to it;
  * `ticks_increasing_iff` -- on any stream, the timestamps handed over strictly increase exactly
    when the stream's never decrease.

  A tick is an interval of time, and several timestamps may lie in one:

  * `priced_once_iff` -- a run prices no market twice in a tick exactly if no market has a quote it
    can use at two of its timestamps there; then it bets on no outcome twice (`bet_once`).
-/
import OddsEngine.Engine.Run

namespace OddsEngine

open Lib

/-! ## 1. Streams in time order -/

/-- The timestamps of a stream never decrease. -/
def TimeOrdered (rs : List OddsUpdate) : Prop :=
  (rs.map OddsUpdate.simTimestampNs).Pairwise (· ≤ ·)

instance (rs : List OddsUpdate) : Decidable (TimeOrdered rs) :=
  inferInstanceAs (Decidable (List.Pairwise _ _))

/-- The timestamps handed to `process_tick` over a stream. -/
def tickTimes (rs : List OddsUpdate) : List UInt64 := (ticksOf rs).map Prod.fst

theorem tickTimes_eq (rs : List OddsUpdate) :
    tickTimes rs = (rs.map OddsUpdate.simTimestampNs).destutter (· ≠ ·) :=
  cuts_map_fst _ _ _ rs

/-- The table after exactly the records with a timestamp of at most `ts`, in stream order. -/
def tableUpTo (rs : List OddsUpdate) (ts : UInt64) : Table :=
  (rs.filter fun u => decide (u.simTimestampNs ≤ ts)).foldl BookTable.receive {}

/-- **The ticks strictly increase exactly on the streams in time order.** -/
theorem ticks_increasing_iff (rs : List OddsUpdate) :
    (tickTimes rs).Pairwise (· < ·) ↔ TimeOrdered rs := by
  rw [tickTimes_eq]
  exact destutter_ne_pairwise_lt_iff _

/-- The calls of a stream in time order: one for every timestamp, on the records up to it. -/
theorem ticksOf_of_sorted {rs : List OddsUpdate} (h : TimeOrdered rs) :
    ticksOf rs = (tickTimes rs).map fun ts => (ts, tableUpTo rs ts) := by
  rw [tickTimes_eq]
  exact cuts_eq_of_sorted _ _ _ rs h

theorem mem_tickTimes {rs : List OddsUpdate} {ts : UInt64} :
    ts ∈ tickTimes rs ↔ ∃ u ∈ rs, u.simTimestampNs = ts := by
  rw [tickTimes_eq, mem_destutter_ne, List.mem_map]

/-- **A stream in time order**: whatever a tick does with its state, the loop calls it once for
    every timestamp of the stream, the last one included, in increasing order, on the table of
    exactly the records up to that timestamp. -/
theorem recordLoop_of_sorted {M : Type → Type} [Monad M] [LawfulMonad M] {σ : Type}
    (tick : UInt64 → Table → σ → M σ) (rs : List OddsUpdate) (st : σ) (h : TimeOrdered rs) :
    ∃ times : List UInt64, times.Pairwise (· < ·) ∧
      (∀ ts, ts ∈ times ↔ ∃ u ∈ rs, u.simTimestampNs = ts) ∧
      recordLoop tick rs st = times.foldlM (fun st ts => tick ts (tableUpTo rs ts) st) st := by
  refine ⟨tickTimes rs, (ticks_increasing_iff rs).mpr h, fun ts => mem_tickTimes, ?_⟩
  rw [recordLoop_eq_cuts, ticksOf_of_sorted h, List.foldlM_map]

/-- Two records of one tick and one of the next. -/
def twoTicks : List OddsUpdate :=
  [{ seqNo := 1 }, { seqNo := 2 }, { seqNo := 3, simTimestampNs := 100000000 }]

/-- A tick that notes its time and the number it finds in slot (0, 0). -/
theorem recordLoop_of_sorted_two_ticks :
    ∃ times : List UInt64, times.Pairwise (· < ·) ∧
      (∀ ts, ts ∈ times ↔ ∃ u ∈ twoTicks, u.simTimestampNs = ts) ∧
      recordLoop (fun ts t st => some (st ++ [(ts, (t.get (0, 0)).seqNo)])) twoTicks [] =
        times.foldlM
          (fun st ts => some (st ++ [(ts, ((tableUpTo twoTicks ts).get (0, 0)).seqNo)])) [] :=
  recordLoop_of_sorted (fun ts t st => some (st ++ [(ts, (t.get (0, 0)).seqNo)])) twoTicks []
    (by decide)

/-! ## 2. Nothing twice -/

/-- Stretches that carry different tags have no element in common. -/
theorem nodup_map_flatMap {α β γ κ : Type} {f : α → List β} {view : β → γ} {l : List α}
    (key : α → κ) (tag : γ → κ) (hl : (l.map key).Nodup)
    (htag : ∀ a ∈ l, ∀ b ∈ f a, tag (view b) = key a) (h : ∀ a ∈ l, ((f a).map view).Nodup) :
    ((l.flatMap f).map view).Nodup := by
  rw [List.map_flatMap, List.nodup_flatMap]
  refine ⟨h, (List.pairwise_map.mp hl).imp_of_mem fun {a b} ha hb hne => ?_⟩
  intro x hxa hxb
  obtain ⟨y, hy, rfl⟩ := List.mem_map.mp hxa
  obtain ⟨z, hz, hzy⟩ := List.mem_map.mp hxb
  have hkey : key a = key b := by rw [← htag a ha y hy, ← htag b hb z hz, hzy]
  exact hne hkey

section Once

variable {F : Type} [DoubleArith F] (cfg : LiveConfig F) (betlog : Bool) (shape : Shape)
  (ts : UInt64) (table : Table)

/-- The markets of a session have different numbers on 16 bits. -/
theorem marketIds_nodup : ((List.finRange shape.markets).map fun m => m.val.toUInt16).Nodup := by
  refine (List.nodup_finRange _).map_on fun m _ m' _ h => ?_
  have hm : m.val < 1024 := m.isLt.trans_le shape.markets_le
  have hm' : m'.val < 1024 := m'.isLt.trans_le shape.markets_le
  have hnat := congrArg UInt16.toNat h
  rw [UInt16.toNat_ofNat', UInt16.toNat_ofNat'] at hnat
  exact Fin.ext (by omega)

theorem mem_tickPrices {p : Price F} : p ∈ tickPrices cfg shape ts table ↔
    ∃ m : Fin shape.markets, (marketFair cfg table shape m ts).hasFairPrice = true ∧
      p = { simTimestampNs := ts, marketId := m.val.toUInt16,
            fair := marketFair cfg table shape m ts } := by
  unfold tickPrices
  rw [List.mem_flatMap]
  constructor
  · rintro ⟨m, -, hp⟩
    unfold marketPrices at hp
    split at hp
    · next hfair => exact ⟨m, hfair, List.mem_singleton.mp hp⟩
    · exact absurd hp List.not_mem_nil
  · rintro ⟨m, hfair, rfl⟩
    refine ⟨m, List.mem_finRange m, ?_⟩
    unfold marketPrices
    rw [if_pos hfair]
    exact List.mem_singleton_self _

/-- One call prices a market once. -/
theorem tickPrices_nodup : ((tickPrices cfg shape ts table).map Price.marketId).Nodup := by
  refine nodup_map_flatMap (fun m : Fin shape.markets => m.val.toUInt16) id
    (marketIds_nodup shape) (fun m _ p hp => ?_) fun m _ => ?_
  · unfold marketPrices at hp
    split at hp
    · rw [List.mem_singleton.mp hp]
      rfl
    · exact absurd hp List.not_mem_nil
  · unfold marketPrices
    split
    · exact List.nodup_singleton _
    · exact List.nodup_nil

/-- The bets of a market are records of its price at different outcomes. -/
theorem marketBets_spec (m : Fin shape.markets) :
    (∀ b ∈ marketBets cfg betlog table shape m ts, b.marketId = m.val.toUInt16 ∧
      b.simTimestampNs = ts ∧ (marketFair cfg table shape m ts).hasFairPrice = true) ∧
      ((marketBets cfg betlog table shape m ts).map BetRecord.outcome).Nodup := by
  have hnil : (∀ b ∈ ([] : List (BetRecord F)), b.marketId = m.val.toUInt16 ∧
      b.simTimestampNs = ts ∧ (marketFair cfg table shape m ts).hasFairPrice = true) ∧
        (([] : List (BetRecord F)).map BetRecord.outcome).Nodup :=
    ⟨fun b hb => absurd hb List.not_mem_nil, List.nodup_nil⟩
  unfold marketBets betsOn sizedRecords
  split
  · next hfair =>
    split
    · refine ⟨fun b hb => ?_, ?_⟩
      · obtain ⟨i, _, _, rfl⟩ := mem_stakedRecords_iff.mp hb
        exact ⟨rfl, rfl, (Bool.and_eq_true_iff.mp hfair).2⟩
      · have houtcomes : (((List.finRange kMaxOutcomes).take
            (marketFair cfg table shape m ts).count.toNat).map
              fun i => i.val.toUInt8).Nodup := by
          have hall : ((List.finRange kMaxOutcomes).map fun i => i.val.toUInt8).Nodup := by decide
          exact hall.sublist ((List.take_sublist _ _).map _)
        refine nodup_map_flatMap (fun i : Fin kMaxOutcomes => i.val.toUInt8)
          id houtcomes (fun i _ b hb => ?_) fun i _ => ?_
        · split at hb
          · exact absurd hb List.not_mem_nil
          · rw [List.mem_singleton.mp hb]
            rfl
        · split
          · exact List.nodup_nil
          · exact List.nodup_singleton _
    · exact hnil
  · exact hnil

/-- One call bets on an outcome of a market once. -/
theorem tickBets_nodup :
    ((tickBets cfg betlog shape ts table).map fun b => (b.marketId, b.outcome)).Nodup := by
  refine nodup_map_flatMap (fun m : Fin shape.markets => m.val.toUInt16) Prod.fst
    (marketIds_nodup shape) (fun m _ b hb => ?_) fun m _ => ?_
  · exact ((marketBets_spec cfg betlog shape ts table m).1 b hb).1
  · have houtcomes := (marketBets_spec cfg betlog shape ts table m).2
    refine List.Nodup.of_map Prod.snd ?_
    rw [List.map_map]
    exact houtcomes

/-- A call bets on a market it prices, at its own timestamp. -/
theorem mem_tickBets {b : BetRecord F} (hb : b ∈ tickBets cfg betlog shape ts table) :
    b.simTimestampNs = ts ∧ ∃ m : Fin shape.markets, b.marketId = m.val.toUInt16 ∧
      (marketFair cfg table shape m ts).hasFairPrice = true := by
  obtain ⟨m, _, hb⟩ := List.mem_flatMap.mp hb
  obtain ⟨hmarket, hts, hfair⟩ := (marketBets_spec cfg betlog shape ts table m).1 b hb
  exact ⟨hts, m, hmarket, hfair⟩

end Once

/-- The tick number a bet belongs to. -/
def BetRecord.tick {F : Type} (b : BetRecord F) : UInt64 := b.simTimestampNs / kTickIntervalNs

section Run

variable {F : Type} [DoubleArith F] [Convert F] {opt : Options F} {service : Nat → Service}
  {shape : Shape} {rs : List OddsUpdate} {st : EngineState F}

theorem ticksUnder_times (opt : Options F) (service : Nat → Service) (rs : List OddsUpdate) :
    (ticksUnder opt service rs).map (fun c => c.2.1) = tickTimes rs := by
  unfold ticksUnder tickTimes
  rw [List.map_map]
  show (ticksOf rs).zipIdx.map (Prod.fst ∘ Prod.fst) = _
  rw [← List.map_map, List.zipIdx_map_fst]

theorem exists_of_mem_ticksUnder {c : LiveConfig F × UInt64 × Table}
    (hc : c ∈ ticksUnder opt service rs) :
    ∃ k, ∃ p ∈ ticksOf rs, c = (configAfter opt service (k + 1), p) := by
  obtain ⟨p, hp, rfl⟩ := List.mem_map.mp hc
  exact ⟨p.2, p.1, List.fst_mem_of_mem_zipIdx hp, rfl⟩

omit [Convert F] in
/-- At the timestamp `c.2.1`, under the configuration and on the table it finds, some book of the
    market has a quote that is fresh and that the devig can use. -/
def HasQuote (shape : Shape) (c : LiveConfig F × UInt64 × Table) (m : Fin shape.markets) : Prop :=
  ∃ b, Fresh c.1 c.2.2 (shape.slot m b) c.2.1 ∧
    Usable F c.1.devigMethod (c.2.2.get (shape.slot m b))

omit [Convert F] in
/-- Two timestamps lie in different ticks, or no market has a quote to use at both. -/
def Apart (shape : Shape) (c d : LiveConfig F × UInt64 × Table) : Prop :=
  c.2.1 / kTickIntervalNs = d.2.1 / kTickIntervalNs → ∀ m : Fin shape.markets,
    HasQuote shape c m → ¬ HasQuote shape d m

omit [Convert F] in
theorem market_of_toUInt16 {m m' : Fin shape.markets} (h : m.val.toUInt16 = m'.val.toUInt16) :
    m = m' := by
  have hnodup := marketIds_nodup shape
  exact List.inj_on_of_nodup_map hnodup (List.mem_finRange m) (List.mem_finRange m') h

/-- **A run prices no market twice in a tick** exactly if its timestamps are apart. -/
theorem priced_once_iff [Consensus.UnitWeights F] (hrun : run opt service shape rs = .ok st) :
    (st.prices.map fun p => (p.marketId, p.tick)).Nodup ↔
      (ticksUnder opt service rs).Pairwise (Apart shape) := by
  rw [(results_of_run_ok hrun).1, List.map_flatMap, List.nodup_flatMap]
  have heach : ∀ c ∈ ticksUnder opt service rs, ((tickPrices c.1 shape c.2.1 c.2.2).map
      fun p => (p.marketId, p.tick)).Nodup := by
    intro c _
    refine List.Nodup.of_map Prod.fst ?_
    rw [List.map_map]
    exact tickPrices_nodup c.1 shape c.2.1 c.2.2
  have hdisjoint : ∀ c d : LiveConfig F × UInt64 × Table,
      ((tickPrices c.1 shape c.2.1 c.2.2).map fun p => (p.marketId, p.tick)).Disjoint
        ((tickPrices d.1 shape d.2.1 d.2.2).map fun p => (p.marketId, p.tick)) ↔
      Apart shape c d := by
    intro c d
    constructor
    · intro hdis htick m hc hd
      have hfairc := (hasFairPrice_marketFair_iff c.1 c.2.2 shape m c.2.1).mpr hc
      have hfaird := (hasFairPrice_marketFair_iff d.1 d.2.2 shape m d.2.1).mpr hd
      refine hdis (List.mem_map.mpr ⟨_, (mem_tickPrices _ _ _ _).mpr ⟨m, hfairc, rfl⟩, rfl⟩)
        (List.mem_map.mpr ⟨_, (mem_tickPrices _ _ _ _).mpr ⟨m, hfaird, rfl⟩, ?_⟩)
      exact congrArg (Prod.mk _) htick.symm
    · intro hapart x hxc hxd
      obtain ⟨p, hp, rfl⟩ := List.mem_map.mp hxc
      obtain ⟨q, hq, hqp⟩ := List.mem_map.mp hxd
      obtain ⟨m, hfairc, rfl⟩ := (mem_tickPrices _ _ _ _).mp hp
      obtain ⟨m', hfaird, rfl⟩ := (mem_tickPrices _ _ _ _).mp hq
      obtain ⟨hmarket, htick⟩ := Prod.mk.inj hqp
      have hsame : m' = m := market_of_toUInt16 hmarket
      subst hsame
      exact hapart htick.symm m' ((hasFairPrice_marketFair_iff _ _ _ _ _).mp hfairc)
        ((hasFairPrice_marketFair_iff _ _ _ _ _).mp hfaird)
  constructor
  · exact fun h => h.2.imp fun hcd => (hdisjoint _ _).mp hcd
  · exact fun h => ⟨heach, h.imp fun hcd => (hdisjoint _ _).mpr hcd⟩

/-- ... and then bets on no outcome twice in a tick. -/
theorem bet_once [Consensus.UnitWeights F] (hrun : run opt service shape rs = .ok st)
    (h : (ticksUnder opt service rs).Pairwise (Apart shape)) :
    (st.bets.map fun b => (b.marketId, b.tick, b.outcome)).Nodup := by
  rw [(results_of_run_ok hrun).2, List.map_flatMap, List.nodup_flatMap]
  constructor
  · intro c _
    refine List.Nodup.of_map (fun x => (x.1, x.2.2)) ?_
    rw [List.map_map]
    exact tickBets_nodup c.1 _ shape c.2.1 c.2.2
  · refine h.imp fun {c d} hapart x hxc hxd => ?_
    obtain ⟨b, hb, rfl⟩ := List.mem_map.mp hxc
    obtain ⟨b', hb', hsame⟩ := List.mem_map.mp hxd
    obtain ⟨hts, m, hmarket, hfair⟩ := mem_tickBets _ _ _ _ _ hb
    obtain ⟨hts', m', hmarket', hfair'⟩ := mem_tickBets _ _ _ _ _ hb'
    obtain ⟨hid, hrest⟩ := Prod.mk.inj hsame
    have htick : d.2.1 / kTickIntervalNs = c.2.1 / kTickIntervalNs := by
      rw [← hts, ← hts']
      exact (Prod.mk.inj hrest).1
    rw [hmarket, hmarket'] at hid
    have hm : m' = m := market_of_toUInt16 hid
    subst hm
    exact hapart htick.symm m' ((hasFairPrice_marketFair_iff _ _ _ _ _).mp hfair)
      ((hasFairPrice_marketFair_iff _ _ _ _ _).mp hfair')

end Run

end OddsEngine
