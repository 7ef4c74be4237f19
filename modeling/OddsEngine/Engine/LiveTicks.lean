/-
  File:      OddsEngine/Engine/LiveTicks.lean
  Subject:   The ticks of a run over the live feed, whatever the network does to it
             (the record loop of engine/main.cpp over engine/UdpSource.hpp).

  The sequence gate of the table keeps a late or repeated record from overwriting a newer quote.
  The clock has no such gate: a late datagram's timestamp CLOSES the current tick and goes back;
  and what closes a tick is a new TIMESTAMP, where a tick is an interval of them.
  `onceInOrder_iff`: each timestamp is handed to `process_tick` once and in order, and no market
  priced or bet on twice in one tick, exactly if the records come in with timestamps that never
  decrease, and no market has a quote to use at two timestamps of one tick. One repeated datagram
  is enough to break it (`not_onceInOrder_repeated`), and so are two timestamps that are close
  (`not_onceInOrder_sameTick`).
-/
import OddsEngine.Engine.LiveFeed
import OddsEngine.Engine.RejectedRecords

namespace OddsEngine

open Lib

variable {F : Type} [DoubleArith F] [Convert F]

/-- In the run over the records `us` no timestamp comes to `process_tick` twice or out of order, and
    in no tick a market is priced twice, or an outcome bet on twice. -/
structure OnceInOrder (opt : Options F) (service : Nat → Service) (shape : Shape)
    (us : List OddsUpdate) : Prop where
  increasing : (tickTimes us).Pairwise (· < ·)
  priced_once : ∀ st, run opt service shape us = .ok st →
    (st.prices.map fun p => (p.marketId, p.tick)).Nodup
  bet_once : ∀ st, run opt service shape us = .ok st →
    (st.bets.map fun b => (b.marketId, b.tick, b.outcome)).Nodup

/-- The timestamps never decrease; and unless the run reads past the end of a quote, no market has a
    quote to use at two timestamps of one tick. -/
structure OncePerTick (opt : Options F) (service : Nat → Service) (shape : Shape)
    (us : List OddsUpdate) : Prop where
  ordered : TimeOrdered us
  apart : (∀ c ∈ ticksUnder opt service us, TickInBounds c.1 shape c.2.1 c.2.2) →
    (ticksUnder opt service us).Pairwise (Apart shape)

theorem onceInOrder_iff_oncePerTick [Consensus.UnitWeights F] (opt : Options F)
    (service : Nat → Service) (shape : Shape) (us : List OddsUpdate) :
    OnceInOrder opt service shape us ↔ OncePerTick opt service shape us := by
  constructor
  · intro h
    refine ⟨(ticks_increasing_iff us).mp h.increasing, fun hin => ?_⟩
    obtain ⟨st, hrun⟩ := run_of_inBounds hin
    exact (priced_once_iff hrun).mp (h.priced_once st hrun)
  · intro h
    -- a run that comes to its end has stayed in bounds
    have hin : ∀ st, run opt service shape us = .ok st →
        ∀ c ∈ ticksUnder opt service us, TickInBounds c.1 shape c.2.1 c.2.2 := by
      intro st hrun
      by_contra hout
      push Not at hout
      rw [run_of_outOfBounds hout] at hrun
      cases hrun
    exact ⟨(ticks_increasing_iff us).mpr h.ordered,
      fun st hrun => (priced_once_iff hrun).mpr (h.apart (hin st hrun)),
      fun st hrun => bet_once hrun (h.apart (hin st hrun))⟩

/-- Where the timestamps lie in different ticks, as a simulator's do, their order is all. -/
theorem oncePerTick_of_ticks {opt : Options F} {service : Nat → Service} {shape : Shape}
    {us : List OddsUpdate} (h : TimeOrdered us)
    (hticks : ((tickTimes us).map fun ts => ts / kTickIntervalNs).Nodup) :
    OncePerTick opt service shape us := by
  refine ⟨h, fun _ => ?_⟩
  rw [← ticksUnder_times opt service, List.map_map] at hticks
  exact (List.pairwise_map.mp hticks).imp fun hne htick => absurd htick hne

/-- Any selection of a feed's datagrams is one of its packets. -/
theorem exists_packets {a : AnnounceRecord} {pkts : List Packet} {ds : List Datagram}
    (h : ∀ d ∈ ds, d ∈ pkts.map (Packet.encode a)) :
    ∃ ps : List Packet, ds = ps.map (Packet.encode a) ∧ ∀ p ∈ ps, p ∈ pkts := by
  induction ds with
  | nil => exact ⟨[], rfl, fun p hp => absurd hp List.not_mem_nil⟩
  | cons d ds ih =>
    obtain ⟨p, hp, rfl⟩ := List.mem_map.mp (h d List.mem_cons_self)
    obtain ⟨ps, rfl, hps⟩ := ih fun e he => h e (List.mem_cons_of_mem _ he)
    refine ⟨p :: ps, rfl, fun q hq => ?_⟩
    rcases List.mem_cons.mp hq with rfl | hq
    · exact hp
    · exact hps q hq

/-- The source that joins at an announce delivers the records of every datagram that follows, in
    the order of arrival. -/
theorem delivers_selection (seed : UInt64) {markets books : UInt32} (hm : markets ≠ 0)
    (hb : books ≠ 0) (rs : List OddsUpdate) {a : Datagram}
    (ha : a ∈ UdpSink.feed seed markets books rs) (hann : IsAnnounce a) {ds : List Datagram}
    (hds : ∀ d ∈ ds, d ∈ UdpSink.feed seed markets books rs) :
    ∃ s t, UdpSource.start (a :: ds) = .ok (s, ds) ∧
      Delivers UdpSource.next (s, ds) (ds.flatMap batchOf) t := by
  obtain ⟨pkts, hfeed, _, _⟩ := UdpSink.isFeed_feed seed markets books rs
  rw [hfeed] at ha hds
  obtain ⟨p, _, rfl⟩ := List.mem_map.mp ha
  obtain ⟨ps, rfl, _⟩ := exists_packets hds
  rw [isAnnounce_encode] at hann
  cases p with
  | data seq batch => cases hann
  | announce seq =>
    obtain ⟨s, t, hstart, hdel, _, _⟩ := UdpSource.start_packets
      (admissible_announceRecord seed hm hb) no_packet_before seq ps
    rw [flatMap_batchOf]
    exact ⟨s, (t, []), hstart, hdel⟩

/-- **A run over the live feed** hands each timestamp over once and in order, and prices and bets
    once in a tick, exactly if the records' timestamps never decrease in the order of delivery and
    no market has a quote to use at two of them in one tick: for every feed, every announce of it,
    and every list `ds` of its datagrams that comes in after it, reordered, repeated and with
    losses, under all options and whatever clients send. -/
theorem onceInOrder_iff [Consensus.UnitWeights F] (seed : UInt64)
    (markets books : UInt32) (hm : markets ≠ 0) (hb : books ≠ 0) (rs : List OddsUpdate)
    (a : Datagram) (ha : a ∈ UdpSink.feed seed markets books rs) (hann : IsAnnounce a)
    (ds : List Datagram) (hds : ∀ d ∈ ds, d ∈ UdpSink.feed seed markets books rs)
    (opt : Options F) (service : Nat → Service) (shape : Shape) :
    ∃ s t, UdpSource.start (a :: ds) = .ok (s, ds) ∧
      Delivers UdpSource.next (s, ds) (ds.flatMap batchOf) t ∧
      (OnceInOrder opt service shape (ds.flatMap batchOf) ↔
        OncePerTick opt service shape (ds.flatMap batchOf)) := by
  obtain ⟨s, t, hstart, hdel⟩ := delivers_selection seed hm hb rs ha hann hds
  exact ⟨s, t, hstart, hdel, onceInOrder_iff_oncePerTick opt service shape _⟩

/-! ## One repeated datagram, and two timestamps that are close -/

/-- The two data datagrams, and the first one again. -/
def repeatedFirst : List Datagram :=
  [Packet.data 1 firstBatch, .data 2 secondBatch, .data 1 firstBatch].map
    (Packet.encode (announceRecord 7 1 1))

theorem repeatedFirst_subset : ∀ d ∈ repeatedFirst, d ∈ shortFeed := by
  intro d hd
  obtain ⟨p, hp, rfl⟩ := List.mem_map.mp hd
  rw [shortFeed_eq]
  refine List.mem_map_of_mem ?_
  simp only [List.mem_cons, List.not_mem_nil, or_false] at hp ⊢
  tauto

/-- The first datagram comes in twice: the engine goes back to time 0. -/
theorem not_onceInOrder_repeated :
    ∃ s t, UdpSource.start ((Packet.announce 0).encode (announceRecord 7 1 1) :: repeatedFirst) =
        .ok (s, repeatedFirst) ∧
      Delivers UdpSource.next (s, repeatedFirst) (repeatedFirst.flatMap batchOf) t ∧
      tickTimes (repeatedFirst.flatMap batchOf) = [0, 100000000, 0] ∧
      ¬ OnceInOrder plainOptions noService oneBook (repeatedFirst.flatMap batchOf) := by
  obtain ⟨s, t, hstart, hdel⟩ := delivers_selection 7 (by decide) (by decide)
    (firstBatch.records ++ secondBatch.records) announce_mem_shortFeed
    ((isAnnounce_encode _ _).mpr rfl) repeatedFirst_subset
  have hrecords : repeatedFirst.flatMap batchOf =
      firstBatch.records ++ (secondBatch.records ++ firstBatch.records) := by
    unfold repeatedFirst
    rw [flatMap_batchOf]
    rfl
  have htimes : tickTimes (repeatedFirst.flatMap batchOf) = [0, 100000000, 0] := by
    rw [hrecords, tickTimes_eq]
    decide
  refine ⟨s, t, hstart, hdel, htimes, fun h => ?_⟩
  have hincreasing := h.increasing
  rw [htimes] at hincreasing
  exact absurd hincreasing (by decide)

/-- ... and once each, in order, it is as it should be. -/
theorem onceInOrder_iff_shortFeed : ∃ s t,
    UdpSource.start shortFeed = .ok (s, shortFeed.tail) ∧
      Delivers UdpSource.next (s, shortFeed.tail) (shortFeed.tail.flatMap batchOf) t ∧
      OnceInOrder plainOptions noService oneBook (shortFeed.tail.flatMap batchOf) := by
  have hsub : ∀ d ∈ shortFeed.tail, d ∈ shortFeed := fun d hd => List.mem_of_mem_tail hd
  obtain ⟨s, t, hstart, hdel, hiff⟩ := onceInOrder_iff 7 1 1 (by decide) (by decide)
    (firstBatch.records ++ secondBatch.records) _ announce_mem_shortFeed
    ((isAnnounce_encode _ _).mpr rfl) shortFeed.tail hsub plainOptions noService oneBook
  refine ⟨s, t, hstart, hdel, hiff.mpr (oncePerTick_of_ticks ?_ ?_)⟩
  all_goals
    have hrecords : shortFeed.tail.flatMap batchOf = firstBatch.records ++ secondBatch.records := by
      show ([Packet.data 1 firstBatch, .data 2 secondBatch].map
        (Packet.encode (announceRecord 7 1 1))).flatMap batchOf = _
      rw [flatMap_batchOf]
      rfl
    rw [hrecords]
  · decide
  · rw [tickTimes_eq]
    decide

/-- The quote of time 0 again, under the next number and a nanosecond later. -/
def closeQuote : OddsUpdate := { evenQuote with seqNo := 2, simTimestampNs := 1 }

theorem ticksOf_closeQuote : ticksOf [evenQuote, closeQuote] =
    [(0, BookTable.receive {} evenQuote),
      (1, (BookTable.receive {} evenQuote).receive closeQuote)] := rfl

theorem hasQuote_closeQuote : ∀ c ∈ ticksUnder plainOptions noService [evenQuote, closeQuote],
    HasQuote oneBook c ⟨0, by decide⟩ := by
  have hfixed := configFixed_of_no_dashboard plainOptions rfl noService
  have htables : ∀ c ∈ ticksOf [evenQuote, closeQuote],
      BookTable.isStale c.2 (0, 0) c.1 (3000 * 1000000) = false ∧
        (c.2.get (0, 0)).oddsMilli = (Quote.ofUpdate evenQuote 0).oddsMilli ∧
          (c.2.get (0, 0)).outcomeCount = 2 := by
    rw [ticksOf_closeQuote]
    simp only [List.forall_mem_cons]
    exact ⟨⟨by decide, by decide, by decide⟩, ⟨by decide, by decide, by decide⟩, by simp⟩
  intro c hc
  obtain ⟨k, p, hp, rfl⟩ := exists_of_mem_ticksUnder hc
  obtain ⟨hfresh, hodds, hcount⟩ := htables p hp
  have hquote : (quoteOdds (p.2.get (0, 0)) : List ℝ) =
      quoteOdds (Quote.ofUpdate evenQuote 0) := by
    unfold quoteOdds
    rw [hodds, hcount]
    rfl
  rw [hfixed]
  refine ⟨⟨0, by decide⟩, hfresh, ?_⟩
  show (runDevig _ (quoteOdds (p.2.get (0, 0)))).usableAsDistribution = true
  rw [hquote]
  exact usable_evenQuote

/-- The two come in time order, and in one tick: the engine prices their market twice in it. -/
theorem not_onceInOrder_sameTick : TimeOrdered [evenQuote, closeQuote] ∧
    ¬ OnceInOrder plainOptions noService oneBook [evenQuote, closeQuote] := by
  refine ⟨by decide, fun h => ?_⟩
  have hcounts : ∀ u ∈ [evenQuote, closeQuote], u.outcomeCount.toNat ≤ kMaxOutcomes := by decide
  have hapart := ((onceInOrder_iff_oncePerTick _ _ _ _).mp h).apart fun c hc => by
    obtain ⟨k, p, hp, rfl⟩ := exists_of_mem_ticksUnder hc
    exact (countsOk_ticksOf hcounts p hp).tickInBounds _ oneBook _
  have hquoted := hasQuote_closeQuote
  unfold ticksUnder at hapart hquoted
  rw [ticksOf_closeQuote] at hapart hquoted
  have hfirst := hquoted _ List.mem_cons_self
  have hsecond := hquoted _ (List.mem_cons_of_mem _ List.mem_cons_self)
  exact (List.pairwise_cons.mp hapart).1 _ List.mem_cons_self rfl _ hfirst hsecond

end OddsEngine
