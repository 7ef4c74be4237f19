/-
  File:      OddsEngine/Engine/RejectedRecords.lean
  Subject:   What a record that the table rejects does to a run (engine/main.cpp, BookTable.hpp).

  The table keeps a rejected record out, but the record loop has read its timestamp by then: it
  moves the clock. `sameResults_iff` says when that shows: it does not exactly if the record's
  timestamp is its neighbour's before or after it in the stream, or if no book has a usable quote
  at the ticks it makes (`GoesUnnoticed`), or if the run is out of bounds with or without it. So
  one rejected record with a timestamp of its own makes the engine price, and bet on, one tick more
  (`not_sameResults_replayed`).
-/
import OddsEngine.Engine.Ticks

namespace OddsEngine

open Lib

/-! ## 1. The content of the table -/

/-- The slots of a table, without its counters. -/
abbrev Content := Fin 1024 × Fin 16 → Quote

/-- A record received, as far as the slots go. -/
def store (content : Content) (u : OddsUpdate) : Content :=
  (BookTable.receive ({ table := content } : Table) u).table

theorem receive_table (t : Table) (u : OddsUpdate) : (t.receive u).table = store t.table u := by
  have htable : t.table = ({ table := t.table } : Table).table := rfl
  exact (BookTable.apply_congr htable u u.simTimestampNs).1

theorem foldl_receive_table (rs : List OddsUpdate) (t : Table) :
    (rs.foldl BookTable.receive t).table = rs.foldl store t.table := by
  induction rs generalizing t with
  | nil => rfl
  | cons u rs ih => rw [List.foldl_cons, ih, receive_table, List.foldl_cons]

/-- The ticks of a stream, counters left out. -/
def contentTicks (rs : List OddsUpdate) : List (UInt64 × Content) :=
  cuts OddsUpdate.simTimestampNs store (fun _ => {}) rs

theorem contentTicks_eq (rs : List OddsUpdate) :
    (ticksOf rs).map (fun c => (c.1, c.2.table)) = contentTicks rs :=
  cuts_map_view _ _ BookTable.table store receive_table {} rs

/-! ## 2. The results of a run under one configuration -/

variable {F : Type} [DoubleArith F] [Convert F]

/-- What a run produces: (tick, market, fair price), and the bet records. -/
def results (st : EngineState F) : List (UInt64 × UInt16 × ConsensusResult F) × List (BetRecord F) :=
  (st.prices.map fun p => (p.tick, p.marketId, p.fair), st.bets)

/-- The prices of one tick, read from the slots. -/
def contentPrices (cfg : LiveConfig F) (shape : Shape) (c : UInt64 × Content) :
    List (UInt64 × UInt16 × ConsensusResult F) :=
  (tickPrices cfg shape c.1 ({ table := c.2 } : Table)).map fun p => (p.tick, p.marketId, p.fair)

def contentBets (cfg : LiveConfig F) (betlog : Bool) (shape : Shape) (c : UInt64 × Content) :
    List (BetRecord F) :=
  tickBets cfg betlog shape c.1 ({ table := c.2 } : Table)

/-- The configuration stays as it started: no dashboard, or no command that changes it. -/
def ConfigFixed (opt : Options F) (service : Nat → Service) : Prop :=
  ∀ k, configAfter opt service k = (Options.initial opt).cfg

theorem configFixed_of_no_dashboard (opt : Options F) (h : opt.wsPort = 0)
    (service : Nat → Service) : ConfigFixed opt service := by
  intro k
  induction k with
  | zero => rfl
  | succ k ih => exact (if_pos h).trans ih

/-- Ticks, each with the configuration in force after its `service()`. -/
def under (opt : Options F) (service : Nat → Service) (cs : List (UInt64 × Content)) :
    List (LiveConfig F × UInt64 × Content) :=
  cs.zipIdx.map fun c => (configAfter opt service (c.2 + 1), c.1)

/-- No market takes the loops of a tick out of bounds, read from the slots. -/
def ContentInBounds (cfg : LiveConfig F) (shape : Shape) (c : UInt64 × Content) : Prop :=
  TickInBounds cfg shape c.1 ({ table := c.2 } : Table)

theorem under_contentTicks (opt : Options F) (service : Nat → Service) (rs : List OddsUpdate) :
    under opt service (contentTicks rs) =
      (ticksUnder opt service rs).map fun c => (c.1, c.2.1, c.2.2.table) := by
  unfold under ticksUnder
  rw [← contentTicks_eq, List.zipIdx_map, List.map_map, List.map_map]
  rfl

/-- **The results of a run are computed tick by tick, from the slots**, while it stays in bounds. -/
theorem results_of_inBounds {opt : Options F} {service : Nat → Service} {shape : Shape}
    {rs : List OddsUpdate}
    (h : ∀ c ∈ under opt service (contentTicks rs), ContentInBounds c.1 shape c.2) :
    (run opt service shape rs).map results =
      .ok ((under opt service (contentTicks rs)).flatMap (fun c => contentPrices c.1 shape c.2),
        (under opt service (contentTicks rs)).flatMap
          (fun c => contentBets c.1 (!opt.betsOut.isEmpty) shape c.2)) := by
  rw [under_contentTicks] at h ⊢
  obtain ⟨st, hrun⟩ := run_of_inBounds fun c hc => h _ (List.mem_map_of_mem hc)
  obtain ⟨hprices, hbets⟩ := results_of_run_ok hrun
  rw [hrun]
  show Except.ok (results st) = _
  unfold results
  rw [hprices, hbets, List.map_flatMap]
  simp only [List.flatMap_map]
  rfl

theorem results_of_outOfBounds {opt : Options F} {service : Nat → Service} {shape : Shape}
    {rs : List OddsUpdate}
    (h : ¬ ∀ c ∈ under opt service (contentTicks rs), ContentInBounds c.1 shape c.2) :
    (run opt service shape rs).map results = .error ⟨kMaxOutcomes, kMaxOutcomes⟩ := by
  rw [under_contentTicks, List.forall_mem_map] at h
  push Not at h
  obtain ⟨c, hc, hout⟩ := h
  rw [run_of_outOfBounds ⟨c, hc, hout⟩]
  rfl

theorem under_of_configFixed {opt : Options F} {service : Nat → Service}
    (hfix : ConfigFixed opt service) (cs : List (UInt64 × Content)) :
    under opt service cs = cs.map fun c => (opt.initial.cfg, c) := by
  have hmap : ∀ (cs : List (UInt64 × Content)) (k : Nat),
      (cs.zipIdx k).map (fun c => (configAfter opt service (c.2 + 1), c.1)) =
        cs.map fun c => (opt.initial.cfg, c) := by
    intro cs
    induction cs with
    | nil => exact fun _ => rfl
    | cons c cs ih =>
      intro k
      rw [List.zipIdx_cons, List.map_cons, List.map_cons, ih, hfix (k + 1)]
  exact hmap cs 0

/-! ## 3. Insertions that show, and that do not -/

/-- Nothing comes of a tick at `ts`: every fresh quote of the session states at most four outcomes,
    and the devig can use none. -/
def Idle (cfg : LiveConfig F) (shape : Shape) (table : Table) (ts : UInt64) : Prop :=
  ∀ (m : Fin shape.markets) (b : Fin shape.books), Fresh cfg table (shape.slot m b) ts →
    (table.get (shape.slot m b)).outcomeCount.toNat ≤ kMaxOutcomes ∧
      ¬ Usable F cfg.devigMethod (table.get (shape.slot m b))

omit [Convert F] in
theorem marketPrices_eq_nil_iff [Consensus.UnitWeights F] (cfg : LiveConfig F) (shape : Shape)
    (ts : UInt64) (table : Table) (m : Fin shape.markets) :
    marketPrices cfg shape ts table m = [] ↔ ∀ b, Fresh cfg table (shape.slot m b) ts →
      ¬ Usable F cfg.devigMethod (table.get (shape.slot m b)) := by
  have hnil : marketPrices cfg shape ts table m = [] ↔
      ¬ (marketFair cfg table shape m ts).hasFairPrice = true := by
    unfold marketPrices
    split
    · next h => exact ⟨fun e => absurd e (List.cons_ne_nil _ _), fun hn => absurd h hn⟩
    · next h => exact ⟨fun _ => h, fun _ => rfl⟩
  rw [hnil, hasFairPrice_marketFair_iff, not_exists]
  exact ⟨fun h b hf hu => h b ⟨hf, hu⟩, fun h b hb => h b hb.1 hb.2⟩

omit [Convert F] in
/-- A tick stays in bounds and has no price exactly when it is idle. -/
theorem idle_iff [Consensus.UnitWeights F] (cfg : LiveConfig F) (shape : Shape) (ts : UInt64)
    (table : Table) :
    Idle cfg shape table ts ↔
      TickInBounds cfg shape ts table ∧ tickPrices cfg shape ts table = [] := by
  have hprices : tickPrices cfg shape ts table = [] ↔
      ∀ m b, Fresh cfg table (shape.slot m b) ts →
        ¬ Usable F cfg.devigMethod (table.get (shape.slot m b)) := by
    unfold tickPrices
    rw [List.flatMap_eq_nil_iff]
    constructor
    · exact fun h m =>
        (marketPrices_eq_nil_iff cfg shape ts table m).mp (h m (List.mem_finRange m))
    · exact fun h m _ => (marketPrices_eq_nil_iff cfg shape ts table m).mpr (h m)
  rw [hprices]
  exact ⟨fun h => ⟨fun m b hf => (h m b hf).1, fun m b hf => (h m b hf).2⟩,
    fun h m b hf => ⟨h.1 m b hf, h.2 m b hf⟩⟩

omit [Convert F] in
/-- A tick without a price has no bet. -/
theorem tickBets_eq_nil {cfg : LiveConfig F} {shape : Shape} {ts : UInt64} {table : Table}
    (h : tickPrices cfg shape ts table = []) (betlog : Bool) :
    tickBets cfg betlog shape ts table = [] := by
  unfold tickPrices at h
  unfold tickBets
  rw [List.flatMap_eq_nil_iff] at h ⊢
  intro m hm
  refine marketBets_of_no_price ?_
  have hno := h m hm
  unfold marketPrices at hno
  split at hno
  · exact absurd hno (List.cons_ne_nil _ _)
  · next hf => exact Bool.eq_false_of_not_eq_true hf

/-- The record is rejected after `pre`. -/
def Rejected (pre : List OddsUpdate) (r : OddsUpdate) : Prop :=
  ((pre.foldl BookTable.receive ({} : Table)).apply r r.simTimestampNs).2 ≠ .applied

instance (pre : List OddsUpdate) (r : OddsUpdate) : Decidable (Rejected pre r) :=
  inferInstanceAs (Decidable (_ ≠ _))

/-- The record carries the timestamp of the record before it, or of the one after it. -/
def KeepsTime (pre post : List OddsUpdate) (r : OddsUpdate) : Prop :=
  (∃ a, pre.getLast? = some a ∧ r.simTimestampNs = a.simTimestampNs) ∨
    ∃ b, post.head? = some b ∧ r.simTimestampNs = b.simTimestampNs

/-- The record keeps time, or nothing comes of the tick it makes, nor, where it splits a tick in
    two, of the first part of that. -/
def GoesUnnoticed (cfg : LiveConfig F) (shape : Shape) (pre post : List OddsUpdate)
    (r : OddsUpdate) : Prop :=
  KeepsTime pre post r ∨
    (Idle cfg shape (pre.foldl BookTable.receive {}) r.simTimestampNs ∧
      ∀ a b, pre.getLast? = some a → post.head? = some b → a.simTimestampNs = b.simTimestampNs →
        Idle cfg shape (pre.foldl BookTable.receive {}) a.simTimestampNs)

/-- A tick of the stream finds a fresh quote of more than four outcomes. -/
def LeavesBounds (cfg : LiveConfig F) (shape : Shape) (rs : List OddsUpdate) : Prop :=
  ∃ c ∈ ticksOf rs, ¬ TickInBounds cfg shape c.1 c.2

/-- The run with the record put between `pre` and `post` produces what the run without it does. -/
def SameResults (opt : Options F) (service : Nat → Service) (shape : Shape)
    (pre post : List OddsUpdate) (r : OddsUpdate) : Prop :=
  (run opt service shape (pre ++ r :: post)).map results =
    (run opt service shape (pre ++ post)).map results

/-- A rejected record leaves the slots as they are. -/
theorem store_of_rejected {pre : List OddsUpdate} {r : OddsUpdate} (h : Rejected pre r) :
    store (pre.foldl store fun _ => {}) r = pre.foldl store fun _ => {} := by
  have hfold := foldl_receive_table pre {}
  rw [← hfold, ← receive_table]
  exact (BookTable.apply_of_rejected _ _ _ h).1

/-- The ticks a rejected record adds. -/
def extraTicks (pre post : List OddsUpdate) (r : OddsUpdate) : List (UInt64 × Content) :=
  extraCuts OddsUpdate.simTimestampNs (pre.foldl store fun _ => {}) pre post r

theorem contentTicks_insert {pre : List OddsUpdate} {r : OddsUpdate} (hr : Rejected pre r)
    (post : List OddsUpdate) :
    ∃ p q, contentTicks (pre ++ post) = p ++ q ∧
      contentTicks (pre ++ r :: post) = p ++ extraTicks pre post r ++ q :=
  cuts_insert _ _ _ pre post r (store_of_rejected hr)

/-- A record that keeps time adds no tick. -/
theorem extraTicks_of_keepsTime {pre post : List OddsUpdate} {r : OddsUpdate}
    (h : KeepsTime pre post r) : extraTicks pre post r = [] := by
  have hno := (forall_extraCuts_iff OddsUpdate.simTimestampNs (fun _ => False)
    (pre.foldl store fun _ => {}) pre post r).mpr (Or.inl h)
  exact List.eq_nil_iff_forall_not_mem.mpr hno

/-- Under any dashboard, a rejected record that keeps time does not show. -/
theorem sameResults_of_keepsTime (opt : Options F) (service : Nat → Service) (shape : Shape)
    {pre post : List OddsUpdate} {r : OddsUpdate} (hr : Rejected pre r)
    (h : KeepsTime pre post r) : SameResults opt service shape pre post r := by
  obtain ⟨p, q, hpq, hins⟩ := contentTicks_insert hr post
  rw [extraTicks_of_keepsTime h, List.append_nil, ← hpq] at hins
  unfold SameResults
  by_cases hin : ∀ c ∈ under opt service (contentTicks (pre ++ post)), ContentInBounds c.1 shape c.2
  · rw [results_of_inBounds hin, results_of_inBounds (by rw [hins]; exact hin), hins]
  · rw [results_of_outOfBounds hin, results_of_outOfBounds (by rw [hins]; exact hin)]

/-- A tick that adds nothing to the results, read from the slots. -/
def AddsNothing (cfg : LiveConfig F) (shape : Shape) (c : UInt64 × Content) : Prop :=
  ContentInBounds cfg shape c ∧ contentPrices cfg shape c = []

omit [Convert F] in
/-- Going unnoticed, in the terms of the ticks the record adds. -/
theorem goesUnnoticed_iff [Consensus.UnitWeights F] (cfg : LiveConfig F) (shape : Shape)
    (pre post : List OddsUpdate) (r : OddsUpdate) :
    GoesUnnoticed cfg shape pre post r ↔
      ∀ c ∈ extraTicks pre post r, AddsNothing cfg shape c := by
  have hidle : ∀ ts, AddsNothing cfg shape (ts, pre.foldl store fun _ => {}) ↔
      Idle cfg shape (pre.foldl BookTable.receive {}) ts := by
    intro ts
    unfold AddsNothing contentPrices
    rw [idle_iff, List.map_eq_nil_iff, ← foldl_receive_table pre {}]
    rfl
  unfold GoesUnnoticed KeepsTime extraTicks
  rw [forall_extraCuts_iff, hidle]
  simp only [hidle]

omit [DoubleArith F] [Convert F] in
theorem leavesBounds_iff (cfg : LiveConfig F) (shape : Shape) (rs : List OddsUpdate) :
    LeavesBounds cfg shape rs ↔ ¬ ∀ c ∈ contentTicks rs, ContentInBounds cfg shape c := by
  rw [← contentTicks_eq, List.forall_mem_map]
  unfold LeavesBounds
  push Not
  exact Iff.rfl

omit [DoubleArith F] [Convert F] in
theorem not_leavesBounds (cfg : LiveConfig F) (shape : Shape) {rs : List OddsUpdate}
    (h : ∀ u ∈ rs, u.outcomeCount.toNat ≤ kMaxOutcomes) : ¬ LeavesBounds cfg shape rs := by
  rintro ⟨c, hc, hout⟩
  exact hout ((countsOk_ticksOf h c hc).tickInBounds cfg shape c.1)

omit [Convert F] in
theorem contentBets_eq_nil {cfg : LiveConfig F} {shape : Shape} {c : UInt64 × Content}
    (h : contentPrices cfg shape c = []) (betlog : Bool) : contentBets cfg betlog shape c = [] :=
  tickBets_eq_nil (List.map_eq_nil_iff.mp h) betlog

/-- While the configuration stays, a rejected record does not show exactly if it goes unnoticed, or
    the run leaves the bounds anyway. -/
theorem sameResults_iff_goesUnnoticed [Consensus.UnitWeights F] {opt : Options F}
    {service : Nat → Service} (hfix : ConfigFixed opt service) (shape : Shape)
    {pre post : List OddsUpdate} {r : OddsUpdate} (hr : Rejected pre r) :
    SameResults opt service shape pre post r ↔
      LeavesBounds opt.initial.cfg shape (pre ++ post) ∨
        GoesUnnoticed opt.initial.cfg shape pre post r := by
  obtain ⟨p, q, hpq, hins⟩ := contentTicks_insert hr post
  have hin : ∀ rs, (∀ c ∈ under opt service (contentTicks rs), ContentInBounds c.1 shape c.2) ↔
      ∀ c ∈ contentTicks rs, ContentInBounds opt.initial.cfg shape c := by
    intro rs
    rw [under_of_configFixed hfix, List.forall_mem_map]
  have hextra : (∀ c ∈ contentTicks (pre ++ r :: post), ContentInBounds opt.initial.cfg shape c) ↔
      (∀ c ∈ contentTicks (pre ++ post), ContentInBounds opt.initial.cfg shape c) ∧
        ∀ c ∈ extraTicks pre post r, ContentInBounds opt.initial.cfg shape c := by
    rw [hins, hpq]
    simp only [List.mem_append]
    constructor
    · exact fun h => ⟨fun c hc => h c (by tauto), fun c hc => h c (by tauto)⟩
    · rintro ⟨h, h'⟩ c hc
      have hcases : (c ∈ p ∨ c ∈ q) ∨ c ∈ extraTicks pre post r := by tauto
      exact hcases.elim (h c) (h' c)
  rw [leavesBounds_iff, goesUnnoticed_iff]
  unfold SameResults
  by_cases hB : ∀ c ∈ contentTicks (pre ++ post), ContentInBounds opt.initial.cfg shape c
  · rw [results_of_inBounds ((hin _).mpr hB)]
    by_cases hE : ∀ c ∈ extraTicks pre post r, ContentInBounds opt.initial.cfg shape c
    · rw [results_of_inBounds ((hin _).mpr (hextra.mpr ⟨hB, hE⟩)), under_of_configFixed hfix,
        under_of_configFixed hfix, hins, hpq]
      simp only [List.flatMap_map, List.flatMap_append, Except.ok.injEq, Prod.mk.injEq,
        List.append_assoc, List.append_cancel_left_eq, List.append_left_eq_self,
        List.flatMap_eq_nil_iff]
      constructor
      · exact fun h => Or.inr fun c hc => ⟨hE c hc, h.1 c hc⟩
      · intro h
        have hnothing := h.resolve_left (fun hno => hno (by rw [hpq] at hB; exact hB))
        exact ⟨fun c hc => (hnothing c hc).2,
          fun c hc => contentBets_eq_nil (hnothing c hc).2 _⟩
    · rw [results_of_outOfBounds (fun h => hE (hextra.mp ((hin _).mp h)).2)]
      constructor
      · nofun
      · rintro (hno | hnothing)
        · exact absurd hB hno
        · exact absurd (fun c hc => (hnothing c hc).1) hE
  · rw [results_of_outOfBounds (fun h => hB ((hin _).mp h)),
      results_of_outOfBounds (fun h => hB (hextra.mp ((hin _).mp h)).1)]
    exact ⟨fun _ => Or.inl hB, fun _ => rfl⟩

/-- **A rejected record shows in what the run produces exactly if it does not go unnoticed**:
    wherever it is put, with whatever timestamp, while no command changes the configuration, and
    unless the run leaves the bounds with or without it; and under any dashboard it does not show
    where it carries a neighbour's timestamp. -/
theorem sameResults_iff [Consensus.UnitWeights F] (opt : Options F) (service : Nat → Service)
    (shape : Shape) (pre post : List OddsUpdate) (r : OddsUpdate) (hr : Rejected pre r) :
    (KeepsTime pre post r → SameResults opt service shape pre post r) ∧
      (ConfigFixed opt service →
        (SameResults opt service shape pre post r ↔
          LeavesBounds opt.initial.cfg shape (pre ++ post) ∨
            GoesUnnoticed opt.initial.cfg shape pre post r)) :=
  ⟨sameResults_of_keepsTime opt service shape hr,
    fun hfix => sameResults_iff_goesUnnoticed hfix shape hr⟩

/-! ## 4. One replayed record -/

/-- A book's quote of 1.9 on both sides of market 0. -/
def evenQuote : OddsUpdate := { seqNo := 1, outcomeCount := 2, oddsMilli := fun _ => 1900 }

/-- The same record once more, stamped a tick later. -/
def replayedQuote : OddsUpdate := { evenQuote with simTimestampNs := 100000000 }

attribute [local instance] four_atLeastTwo in
/-- Multiplicative devig, no dashboard, no bet log. -/
noncomputable def plainOptions : Options ℝ :=
  { wsPort := 0, wsMarkets := 20, betsOut := [], hash := false, staleMs := 3000,
    kellyFraction := 1 / 4, maxExposure := 1 / 20, devigMethod := .multiplicative }

def oneBook : Shape := { markets := 1, books := 1, markets_le := by decide, books_le := by decide }

def noService : Nat → Service := fun _ => { texts := [], pushDue := false }

theorem rejected_replayedQuote : Rejected [evenQuote] replayedQuote := by decide

theorem get_evenQuote : (List.foldl BookTable.receive ({} : Table) [evenQuote]).get (0, 0) =
    Quote.ofUpdate evenQuote 0 := by decide

theorem fresh_evenQuote : Fresh plainOptions.initial.cfg
    (List.foldl BookTable.receive ({} : Table) [evenQuote]) (0, 0) 100000000 := by
  show BookTable.isStale _ _ _ (3000 * 1000000) = false
  decide

theorem usable_evenQuote : Usable ℝ .multiplicative (Quote.ofUpdate evenQuote 0) := by
  have hodds : (quoteOdds (Quote.ofUpdate evenQuote 0) : List ℝ) = [1900 / 1000, 1900 / 1000] := by
    simp [quoteOdds, Quote.ofUpdate, evenQuote, decimalOdds]
  show (Devig.multiplicative (quoteOdds (Quote.ofUpdate evenQuote 0) : List ℝ)).usableAsDistribution
    = true
  rw [Devig.usable_multiplicative_iff, hodds, Devig.validOdds_iff]
  refine ⟨⟨List.cons_ne_nil _ _, by decide, ?_⟩, ?_⟩
  · intro o ho
    simp only [List.mem_cons, List.not_mem_nil, or_false, or_self] at ho
    rw [ho]
    exact ⟨rfl, by norm_num⟩
  · unfold Devig.booksum
    rw [sumLoop_eq_sum]
    norm_num

/-- The replayed record is rejected, and the run prices one tick more for it. -/
theorem not_sameResults_replayed : Rejected [evenQuote] replayedQuote ∧
    ¬ SameResults plainOptions noService oneBook [evenQuote] [] replayedQuote := by
  refine ⟨rejected_replayedQuote, fun h => ?_⟩
  have hgoes := (sameResults_iff_goesUnnoticed
    (configFixed_of_no_dashboard plainOptions rfl noService) oneBook
    rejected_replayedQuote).mp h
  rcases hgoes.resolve_left (not_leavesBounds _ _ (by decide)) with (⟨a, ha, hts⟩ | ⟨b, hb, _⟩) | ⟨hnothing, _⟩
  · cases ha
    exact absurd hts (by decide)
  · cases hb
  · have hno := hnothing ⟨0, by decide⟩ ⟨0, by decide⟩ fresh_evenQuote
    have hslot : oneBook.slot ⟨0, by decide⟩ ⟨0, by decide⟩ = (0, 0) := rfl
    rw [hslot, get_evenQuote] at hno
    exact hno.2 usable_evenQuote

/-- ... while stamped like the record it repeats, it does not show. -/
theorem sameResults_iff_evenQuote :
    SameResults plainOptions noService oneBook [evenQuote] [] evenQuote ∧
      (LeavesBounds plainOptions.initial.cfg oneBook ([evenQuote] ++ []) ∨
        GoesUnnoticed plainOptions.initial.cfg oneBook [evenQuote] [] evenQuote) := by
  obtain ⟨hkeeps, hiff⟩ :=
    sameResults_iff plainOptions noService oneBook [evenQuote] [] evenQuote (by decide)
  have hsame := hkeeps (Or.inl ⟨evenQuote, rfl, rfl⟩)
  exact ⟨hsame, (hiff (configFixed_of_no_dashboard plainOptions rfl noService)).mp hsame⟩

end OddsEngine
