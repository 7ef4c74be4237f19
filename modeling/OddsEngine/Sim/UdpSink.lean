/-
  File:      OddsEngine/Sim/UdpSink.lean
  Subject:   The sender of the live feed (sim/UdpSink.hpp).

  Records are buffered and leave in batches of 16, the last batch with whatever is left; an
  announce goes out first of all, and again whenever 64 data datagrams went out since the last one.
  `isFeed_feed` says what the datagrams of a run are: packets numbered 0, 1, 2, ..., an announce in
  front, never more than 64 data packets up to the next announce, and together the records of the
  run in order.

  A datagram handed to `send` counts as sent; whether it arrives is the network's affair.
-/
import Mathlib.Data.List.Range
import OddsEngine.Lib.Words
import OddsEngine.Proto.UdpFraming

namespace OddsEngine

open Lib

structure UdpSink where
  seed : UInt64
  markets : UInt32
  books : UInt32
  /-- `buffer_[0 .. fill_)`. -/
  buffer : List OddsUpdate := []
  datagramSeq : UInt64 := 0
  sinceAnnounce : UInt64 := 0
  announces : UInt64 := 0
  /-- What went out, in order. -/
  sent : List Datagram := []

/-- What a feed of this shape announces. -/
def announceRecord (seed : UInt64) (markets books : UInt32) : AnnounceRecord :=
  { seed := seed, tickIntervalNs := kTickIntervalNs, markets := markets, books := books,
    recordSize := OddsUpdate.size.toUInt32 }

namespace UdpSink

def sendPacket (s : UdpSink) (packet : Datagram) : UdpSink :=
  { s with sent := s.sent ++ [packet], datagramSeq := s.datagramSeq + 1 }

def sendAnnounce (s : UdpSink) : UdpSink :=
  let h : UdpDatagramHeader :=
    { magic := kUdpMagic, version := kUdpVersion, type := UdpDatagramType.announce.code,
      recordCount := 1, datagramSeq := s.datagramSeq }
  let a := announceRecord s.seed s.markets s.books
  let s := s.sendPacket (h.toBytes ++ a.toBytes)
  { s with announces := s.announces + 1, sinceAnnounce := 0 }

def flush (s : UdpSink) : UdpSink :=
  if s.buffer.isEmpty then s
  else
    let s := if kAnnounceInterval ≤ s.sinceAnnounce then s.sendAnnounce else s
    let h : UdpDatagramHeader :=
      { magic := kUdpMagic, version := kUdpVersion, type := UdpDatagramType.data.code,
        recordCount := s.buffer.length.toUInt8, datagramSeq := s.datagramSeq }
    let s := s.sendPacket (h.toBytes ++ s.buffer.flatMap OddsUpdate.toBytes)
    { s with sinceAnnounce := s.sinceAnnounce + 1, buffer := [] }

/-- The constructor. -/
def start (seed : UInt64) (markets books : UInt32) : UdpSink :=
  sendAnnounce { seed := seed, markets := markets, books := books }

def accept (s : UdpSink) (update : OddsUpdate) : UdpSink :=
  let s := { s with buffer := s.buffer ++ [update] }
  if s.buffer.length = kRecordsPerDatagram then s.flush else s

def finish (s : UdpSink) : UdpSink := s.flush

/-- The datagrams of a run: every record accepted, then `finish()`. -/
def feed (seed : UInt64) (markets books : UInt32) (rs : List OddsUpdate) : List Datagram :=
  (finish (rs.foldl accept (start seed markets books))).sent

end UdpSink

/-! ## 1. The distance between announces -/

/-- Up to the next announce there are at most 64 data packets in a row, and at most `since` at the
    end. -/
structure Spaced (pkts : List Packet) (since : Nat) : Prop where
  tail : ∀ p ds, pkts = p ++ ds → (∀ d ∈ ds, d.type = .data) → ds.length ≤ since
  spaced : ∀ p ds seq q, pkts = p ++ ds ++ .announce seq :: q → (∀ d ∈ ds, d.type = .data) →
    ds.length ≤ 64

theorem Spaced.append {pkts : List Packet} {since : Nat} (h : Spaced pkts since) (hle : since ≤ 64)
    (x : Packet) : ∀ p ds seq q, pkts ++ [x] = p ++ ds ++ .announce seq :: q →
      (∀ d ∈ ds, d.type = .data) → ds.length ≤ 64 := by
  intro p ds seq q heq hds
  rcases List.eq_nil_or_concat' q with rfl | ⟨q, y, rfl⟩
  · have hpkts : pkts = p ++ ds := (List.append_inj' heq rfl).1
    exact (h.tail p ds hpkts hds).trans hle
  · have hassoc : p ++ ds ++ .announce seq :: (q ++ [y]) = p ++ ds ++ .announce seq :: q ++ [y] := by
      simp
    have hpkts : pkts = p ++ ds ++ .announce seq :: q :=
      (List.append_inj' (heq.trans hassoc) rfl).1
    exact h.spaced p ds seq q hpkts hds

/-- An announce starts the count again. -/
theorem Spaced.announce {pkts : List Packet} {since : Nat} (h : Spaced pkts since)
    (hle : since ≤ 64) (seq : UInt64) : Spaced (pkts ++ [.announce seq]) 0 where
  tail p ds heq hds := by
    rcases List.eq_nil_or_concat' ds with rfl | ⟨ds, y, rfl⟩
    · exact le_refl 0
    · rw [← List.append_assoc] at heq
      have hy : Packet.announce seq = y := List.singleton_inj.mp (List.append_inj' heq rfl).2
      have hdata := hds y (List.mem_append_right _ List.mem_cons_self)
      rw [← hy] at hdata
      cases hdata
  spaced := h.append hle _

/-- A data packet is one more. -/
theorem Spaced.data {pkts : List Packet} {since : Nat} (h : Spaced pkts since) (hle : since ≤ 64)
    (seq : UInt64) (batch : Batch) : Spaced (pkts ++ [.data seq batch]) (since + 1) where
  tail p ds heq hds := by
    rcases List.eq_nil_or_concat' ds with rfl | ⟨ds, y, rfl⟩
    · exact Nat.zero_le _
    · rw [← List.append_assoc] at heq
      have hpkts : pkts = p ++ ds := (List.append_inj' heq rfl).1
      have hlen := h.tail p ds hpkts fun d hd => hds d (List.mem_append_left _ hd)
      rw [List.length_append, List.length_singleton]
      omega
  spaced := h.append hle _

/-! ## 2. What a feed is -/

/-- The packets of a feed: numbered from 0 without a gap, an announce in front, and no more than
    64 data packets between an announce and the next one. -/
structure IsFeed (pkts : List Packet) : Prop where
  head : ∃ rest, pkts = .announce 0 :: rest
  seqs : pkts.map Packet.seq = (List.range pkts.length).map Nat.toUInt64
  spaced : ∀ p ds seq q, pkts = p ++ ds ++ .announce seq :: q → (∀ d ∈ ds, d.type = .data) →
    ds.length ≤ 64

namespace UdpSink

/-- What the sender keeps: the packets `pkts` went out, and carry the records `rs` but for those
    still in the buffer. -/
structure Sent (a : AnnounceRecord) (s : UdpSink) (pkts : List Packet) (rs : List OddsUpdate) :
    Prop where
  shape : announceRecord s.seed s.markets s.books = a
  sent : s.sent = pkts.map (Packet.encode a)
  seqNo : s.datagramSeq = pkts.length.toUInt64
  seqs : pkts.map Packet.seq = (List.range pkts.length).map Nat.toUInt64
  spaced : Spaced pkts s.sinceAnnounce.toNat
  since_le : s.sinceAnnounce.toNat ≤ 64
  records : pkts.flatMap Packet.records ++ s.buffer = rs

/-- One more packet takes the next number. -/
theorem seqs_append {pkts : List Packet} {x : Packet}
    (h : pkts.map Packet.seq = (List.range pkts.length).map Nat.toUInt64)
    (hx : x.seq = pkts.length.toUInt64) :
    (pkts ++ [x]).map Packet.seq = (List.range (pkts ++ [x]).length).map Nat.toUInt64 := by
  rw [List.map_append, h, List.length_append, List.length_singleton, List.range_succ,
    List.map_append, List.map_singleton, List.map_singleton, hx]

theorem seqNo_append {pkts : List Packet} {seq : UInt64} (x : Packet)
    (h : seq = pkts.length.toUInt64) : seq + 1 = (pkts ++ [x]).length.toUInt64 := by
  rw [h, List.length_append, List.length_singleton]
  exact (UInt64.ofNat_add _ _).symm

theorem sent_sendAnnounce {a : AnnounceRecord} {s : UdpSink} {pkts : List Packet}
    {rs : List OddsUpdate} (h : Sent a s pkts rs) :
    Sent a s.sendAnnounce (pkts ++ [.announce s.datagramSeq]) rs where
  shape := h.shape
  sent := by
    show s.sent ++ [_ ++ (announceRecord s.seed s.markets s.books).toBytes] = _
    rw [h.sent, h.shape, List.map_append]
    rfl
  seqNo := seqNo_append _ h.seqNo
  seqs := seqs_append h.seqs h.seqNo
  spaced := h.spaced.announce h.since_le _
  since_le := Nat.zero_le _
  records := by
    show (pkts ++ [Packet.announce s.datagramSeq]).flatMap Packet.records ++ s.buffer = rs
    rw [List.flatMap_append, ← h.records]
    simp [Packet.records]

/-- The buffer leaves as one data packet. -/
theorem sent_sendData {a : AnnounceRecord} {s : UdpSink} {pkts : List Packet}
    {rs : List OddsUpdate} (h : Sent a s pkts rs) (batch : Batch) (hbatch : batch.records = s.buffer)
    (hsince : s.sinceAnnounce.toNat < 64) :
    let packet := Packet.data s.datagramSeq batch
    Sent a { s.sendPacket (packet.encode a) with
      sinceAnnounce := s.sinceAnnounce + 1, buffer := [] } (pkts ++ [packet]) rs := by
  intro packet
  have hnext : (s.sinceAnnounce + 1).toNat = s.sinceAnnounce.toNat + 1 :=
    toNat_succ_of_lt (by omega)
  exact {
    shape := h.shape
    sent := by
      show s.sent ++ [packet.encode a] = _
      rw [h.sent, List.map_append]
      rfl
    seqNo := seqNo_append _ h.seqNo
    seqs := seqs_append h.seqs h.seqNo
    spaced := by
      show Spaced _ (s.sinceAnnounce + 1).toNat
      rw [hnext]
      exact h.spaced.data h.since_le _ _
    since_le := by
      show (s.sinceAnnounce + 1).toNat ≤ 64
      omega
    records := by
      show (pkts ++ [packet]).flatMap Packet.records ++ [] = rs
      rw [List.append_nil, List.flatMap_append, List.flatMap_singleton, ← h.records]
      show _ ++ batch.records = _
      rw [hbatch] }

theorem sent_flush {a : AnnounceRecord} {s : UdpSink} {pkts : List Packet} {rs : List OddsUpdate}
    (h : Sent a s pkts rs) (hlen : s.buffer.length ≤ kRecordsPerDatagram) :
    ∃ more, Sent a s.flush (pkts ++ more) rs ∧ s.flush.buffer = [] := by
  unfold flush
  by_cases hempty : s.buffer = []
  · rw [if_pos (by rw [hempty]; rfl)]
    exact ⟨[], by rw [List.append_nil]; exact h, hempty⟩
  · rw [if_neg (by rw [List.isEmpty_iff]; exact hempty)]
    have hdue : kAnnounceInterval ≤ s.sinceAnnounce ↔ 64 ≤ s.sinceAnnounce.toNat :=
      UInt64.le_iff_toNat_le
    by_cases hann : kAnnounceInterval ≤ s.sinceAnnounce
    · rw [if_pos hann]
      have hsent := sent_sendAnnounce h
      have hsince : s.sendAnnounce.sinceAnnounce.toNat < 64 := by
        show (0 : UInt64).toNat < 64
        decide
      refine ⟨[.announce s.datagramSeq] ++
        [.data s.sendAnnounce.datagramSeq ⟨s.buffer, hempty, hlen⟩], ?_, rfl⟩
      rw [← List.append_assoc]
      exact sent_sendData hsent ⟨s.buffer, hempty, hlen⟩ rfl hsince
    · rw [if_neg hann]
      have hsince : s.sinceAnnounce.toNat < 64 := by
        rw [hdue] at hann
        omega
      exact ⟨[.data s.datagramSeq ⟨s.buffer, hempty, hlen⟩],
        sent_sendData h ⟨s.buffer, hempty, hlen⟩ rfl hsince, rfl⟩

theorem sent_accept {a : AnnounceRecord} {s : UdpSink} {pkts : List Packet} {rs : List OddsUpdate}
    (h : Sent a s pkts rs) (hlen : s.buffer.length < kRecordsPerDatagram) (u : OddsUpdate) :
    ∃ more, Sent a (s.accept u) (pkts ++ more) (rs ++ [u]) ∧
      (s.accept u).buffer.length < kRecordsPerDatagram := by
  have hbuf : Sent a { s with buffer := s.buffer ++ [u] } pkts (rs ++ [u]) :=
    { shape := h.shape, sent := h.sent, seqNo := h.seqNo, seqs := h.seqs, spaced := h.spaced
      since_le := h.since_le
      records := by rw [← h.records, List.append_assoc] }
  have hlen' : (s.buffer ++ [u]).length ≤ kRecordsPerDatagram := by
    rw [List.length_append, List.length_singleton]
    exact hlen
  unfold accept
  by_cases hfull : (s.buffer ++ [u]).length = kRecordsPerDatagram
  · obtain ⟨more, hsent, hnil⟩ := sent_flush hbuf hlen'
    refine ⟨more, ?_, ?_⟩
    · dsimp only
      rw [if_pos hfull]
      exact hsent
    · dsimp only
      rw [if_pos hfull, hnil]
      decide
  · refine ⟨[], ?_, ?_⟩
    · dsimp only
      rw [if_neg hfull, List.append_nil]
      exact hbuf
    · dsimp only
      rw [if_neg hfull]
      exact lt_of_le_of_ne hlen' hfull

theorem sent_foldl {a : AnnounceRecord} {s : UdpSink} {pkts : List Packet} {rs : List OddsUpdate}
    (us : List OddsUpdate) (h : Sent a s pkts rs) (hlen : s.buffer.length < kRecordsPerDatagram) :
    ∃ more, Sent a (us.foldl accept s) (pkts ++ more) (rs ++ us) ∧
      (us.foldl accept s).buffer.length < kRecordsPerDatagram := by
  induction us generalizing s pkts rs with
  | nil => exact ⟨[], by rw [List.append_nil, List.append_nil]; exact h, hlen⟩
  | cons u us ih =>
    obtain ⟨more, hu, hlen'⟩ := sent_accept h hlen u
    obtain ⟨more', hus, hlen''⟩ := ih hu hlen'
    refine ⟨more ++ more', ?_, hlen''⟩
    rw [List.append_assoc, List.append_assoc] at hus
    exact hus

/-- Before the first announce. -/
theorem sent_nothing (seed : UInt64) (markets books : UInt32) :
    Sent (announceRecord seed markets books) { seed := seed, markets := markets, books := books } []
      [] where
  shape := rfl
  sent := rfl
  seqNo := rfl
  seqs := rfl
  spaced := by
    constructor
    · intro p ds heq _
      rw [(List.append_eq_nil_iff.mp heq.symm).2]
      exact Nat.zero_le _
    · intro p ds seq q heq _
      exact absurd heq.symm (by simp)
  since_le := Nat.zero_le _
  records := rfl

theorem sent_start (seed : UInt64) (markets books : UInt32) :
    Sent (announceRecord seed markets books) (start seed markets books) [.announce 0] [] :=
  sent_sendAnnounce (sent_nothing seed markets books)

/-- **The datagrams of a run** are the packets of a feed, and carry the run's records in order. -/
theorem isFeed_feed (seed : UInt64) (markets books : UInt32) (rs : List OddsUpdate) :
    ∃ pkts, feed seed markets books rs = pkts.map (Packet.encode (announceRecord seed markets books))
      ∧ IsFeed pkts ∧ pkts.flatMap Packet.records = rs := by
  have hstart : (start seed markets books).buffer.length < kRecordsPerDatagram :=
    show 0 < 16 by decide
  obtain ⟨more, hsent, hlen⟩ := sent_foldl rs (sent_start seed markets books) hstart
  obtain ⟨last, hlast, hnil⟩ := sent_flush hsent hlen.le
  refine ⟨[Packet.announce 0] ++ more ++ last, hlast.sent,
    ⟨⟨more ++ last, rfl⟩, hlast.seqs, ?_⟩, ?_⟩
  · exact hlast.spaced.spaced
  · have hrecords := hlast.records
    rw [hnil, List.append_nil] at hrecords
    exact hrecords

end UdpSink

end OddsEngine
