/-
  File:      OddsEngine/Sim/FanoutSink.lean
  Subject:   A run that broadcasts while it writes its session file (sim/FanoutSink.hpp, with
             `send_packet` and `send_errors` of sim/UdpSink.hpp, as `main` of sim/main.cpp puts the
             sinks together).

  The fanout gives each record to each of its sinks. A `send` may fail: the datagram is then counted
  and gone, its number is used up all the same. Which sends fail is a parameter, the n-th `send` of a
  run goes out where `goesOut n` says so.

  * `fanout_run` -- whatever fails, the session file is the one of a run without a feed, and what gets
    to the network is the feed without the datagrams that failed;
  * `broadcast_received` -- a receiver of it counts as lost what failed, from the announce it joined
    at to the last datagram it heard, and nothing else.
-/
import OddsEngine.Engine.LiveFeed
import OddsEngine.Sim.FileSink

namespace OddsEngine

open Lib

/-- The sender with its socket. -/
structure UdpSocketSink where
  sink : UdpSink
  /-- What got out of the socket, in order. -/
  network : List Datagram := []
  sendErrors : UInt64 := 0

namespace UdpSocketSink

variable (goesOut : Nat → Bool)

/-- A failed send is counted, not thrown. -/
def sendPacket (s : UdpSocketSink) (packet : Datagram) : UdpSocketSink :=
  let out := goesOut s.sink.sent.length
  { sink := s.sink.sendPacket packet
    network := if out then s.network ++ [packet] else s.network
    sendErrors := if out then s.sendErrors else s.sendErrors + 1 }

def sendAnnounce (s : UdpSocketSink) : UdpSocketSink :=
  let h : UdpDatagramHeader :=
    { magic := kUdpMagic, version := kUdpVersion, type := UdpDatagramType.announce.code,
      recordCount := 1, datagramSeq := s.sink.datagramSeq }
  let a := announceRecord s.sink.seed s.sink.markets s.sink.books
  let s := s.sendPacket goesOut (h.toBytes ++ a.toBytes)
  { s with sink := { s.sink with announces := s.sink.announces + 1, sinceAnnounce := 0 } }

def flush (s : UdpSocketSink) : UdpSocketSink :=
  if s.sink.buffer.isEmpty then s
  else
    let s := if kAnnounceInterval ≤ s.sink.sinceAnnounce then s.sendAnnounce goesOut else s
    let h : UdpDatagramHeader :=
      { magic := kUdpMagic, version := kUdpVersion, type := UdpDatagramType.data.code,
        recordCount := s.sink.buffer.length.toUInt8, datagramSeq := s.sink.datagramSeq }
    let s := s.sendPacket goesOut (h.toBytes ++ s.sink.buffer.flatMap OddsUpdate.toBytes)
    { s with sink := { s.sink with sinceAnnounce := s.sink.sinceAnnounce + 1, buffer := [] } }

/-- The constructor, on a socket that connects. -/
def start (seed : UInt64) (markets books : UInt32) : UdpSocketSink :=
  sendAnnounce goesOut { sink := { seed := seed, markets := markets, books := books } }

def accept (s : UdpSocketSink) (update : OddsUpdate) : UdpSocketSink :=
  let s := { s with sink := { s.sink with buffer := s.sink.buffer ++ [update] } }
  if s.sink.buffer.length = kRecordsPerDatagram then s.flush goesOut else s

def finish (s : UdpSocketSink) : UdpSocketSink := s.flush goesOut

/-! ## 1. What fails changes nothing else -/

/-- The network has what went out of what was handed to `send`, the counter the rest; the numbers
    count both. -/
structure Carried (s : UdpSocketSink) : Prop where
  seqNo : s.sink.datagramSeq = s.sink.sent.length.toUInt64
  network : s.network = kept goesOut s.sink.sent
  sendErrors : s.sendErrors =
    ((List.range s.sink.sent.length).countP fun n => !goesOut n).toUInt64

variable {goesOut}

theorem sink_flush (s : UdpSocketSink) : (s.flush goesOut).sink = s.sink.flush := by
  unfold flush UdpSink.flush
  split
  · rfl
  · by_cases hdue : kAnnounceInterval ≤ s.sink.sinceAnnounce
    · rw [if_pos hdue, if_pos hdue]
      rfl
    · rw [if_neg hdue, if_neg hdue]
      rfl

theorem sink_accept (s : UdpSocketSink) (u : OddsUpdate) :
    (s.accept goesOut u).sink = s.sink.accept u := by
  unfold accept UdpSink.accept
  dsimp only
  split
  · exact sink_flush _
  · rfl

/-- The sender goes its way as if every datagram went out. -/
theorem sink_foldl (rs : List OddsUpdate) (s : UdpSocketSink) :
    (rs.foldl (accept goesOut) s).sink = rs.foldl UdpSink.accept s.sink := by
  induction rs generalizing s with
  | nil => rfl
  | cons u rs ih => rw [List.foldl_cons, ih, sink_accept, List.foldl_cons]

theorem Carried.sendPacket {s : UdpSocketSink} (h : Carried goesOut s) (packet : Datagram) :
    Carried goesOut (s.sendPacket goesOut packet) where
  seqNo := by
    show s.sink.datagramSeq + 1 = (s.sink.sent ++ [packet]).length.toUInt64
    rw [h.seqNo, List.length_append]
    exact (UInt64.ofNat_add _ _).symm
  network := by
    show (if goesOut s.sink.sent.length then s.network ++ [packet] else s.network) =
      kept goesOut (s.sink.sent ++ [packet])
    rw [kept_concat, ← h.network]
    split
    · rfl
    · exact (List.append_nil _).symm
  sendErrors := by
    show (if goesOut s.sink.sent.length then s.sendErrors else s.sendErrors + 1) =
      ((List.range (s.sink.sent ++ [packet]).length).countP fun n => !goesOut n).toUInt64
    rw [List.length_append, List.length_singleton, List.range_succ, List.countP_append,
      List.countP_singleton]
    refine Eq.trans ?_ (UInt64.ofNat_add _ _).symm
    rw [h.sendErrors]
    cases goesOut s.sink.sent.length
    · rfl
    · exact (UInt64.add_zero _).symm

/-- Only `send` touches the network and the counters. -/
theorem Carried.of_sink {s : UdpSocketSink} (h : Carried goesOut s) {sink : UdpSink}
    (hsent : sink.sent = s.sink.sent) (hseq : sink.datagramSeq = s.sink.datagramSeq) :
    Carried goesOut { s with sink := sink } where
  seqNo := by
    show sink.datagramSeq = sink.sent.length.toUInt64
    rw [hsent, hseq]
    exact h.seqNo
  network := by
    show s.network = kept goesOut sink.sent
    rw [hsent]
    exact h.network
  sendErrors := by
    show s.sendErrors = ((List.range sink.sent.length).countP fun n => !goesOut n).toUInt64
    rw [hsent]
    exact h.sendErrors

theorem Carried.sendAnnounce {s : UdpSocketSink} (h : Carried goesOut s) :
    Carried goesOut (s.sendAnnounce goesOut) := (h.sendPacket _).of_sink rfl rfl

theorem Carried.flush {s : UdpSocketSink} (h : Carried goesOut s) :
    Carried goesOut (s.flush goesOut) := by
  unfold UdpSocketSink.flush
  split
  · exact h
  · by_cases hdue : kAnnounceInterval ≤ s.sink.sinceAnnounce
    · rw [if_pos hdue]
      exact (h.sendAnnounce.sendPacket _).of_sink rfl rfl
    · rw [if_neg hdue]
      exact (h.sendPacket _).of_sink rfl rfl

theorem Carried.accept {s : UdpSocketSink} (h : Carried goesOut s) (u : OddsUpdate) :
    Carried goesOut (s.accept goesOut u) := by
  have hbuffered := @Carried.of_sink goesOut s h { s.sink with buffer := s.sink.buffer ++ [u] } rfl rfl
  unfold UdpSocketSink.accept
  dsimp only
  split
  · exact hbuffered.flush
  · exact hbuffered

theorem Carried.foldl {s : UdpSocketSink} (h : Carried goesOut s) (rs : List OddsUpdate) :
    Carried goesOut (rs.foldl (UdpSocketSink.accept goesOut) s) := by
  induction rs generalizing s with
  | nil => exact h
  | cons u rs ih => exact ih (h.accept u)

theorem carried_start (seed : UInt64) (markets books : UInt32) :
    Carried goesOut (start goesOut seed markets books) :=
  Carried.sendAnnounce ⟨rfl, rfl, rfl⟩

end UdpSocketSink

/-! ## 2. The sinks together -/

/-- What implements the interface. -/
inductive OutputSink where
  | file (s : FileSink)
  | udp (s : UdpSocketSink)

namespace OutputSink

variable (goesOut : Nat → Bool)

def accept (update : OddsUpdate) : OutputSink → OutputSink
  | file s => file (s.accept update)
  | udp s => udp (s.accept goesOut update)

def finish : OutputSink → OutputSink
  | file s => file s.finish
  | udp s => udp (s.finish goesOut)

end OutputSink

namespace FanoutSink

variable (goesOut : Nat → Bool)

def accept (sinks : List OutputSink) (update : OddsUpdate) : List OutputSink :=
  sinks.map (OutputSink.accept goesOut update)

def finish (sinks : List OutputSink) : List OutputSink := sinks.map (OutputSink.finish goesOut)

/-- The sinks of a run: every record accepted, then `finish()`. -/
def run (sinks : List OutputSink) (rs : List OddsUpdate) : List OutputSink :=
  finish goesOut (rs.foldl (accept goesOut) sinks)

variable {goesOut}

/-- Each sink goes through the run as it would alone. -/
theorem foldl_accept (rs : List OddsUpdate) (sinks : List OutputSink) :
    rs.foldl (accept goesOut) sinks =
      sinks.map fun s => rs.foldl (fun s u => OutputSink.accept goesOut u s) s := by
  induction rs generalizing sinks with
  | nil => exact (List.map_id _).symm
  | cons u rs ih =>
    rw [List.foldl_cons, ih, accept, List.map_map]
    rfl

theorem foldl_file (rs : List OddsUpdate) (s : FileSink) :
    rs.foldl (fun s u => OutputSink.accept goesOut u s) (.file s) =
      .file (rs.foldl FileSink.accept s) := by
  induction rs generalizing s with
  | nil => rfl
  | cons u rs ih => exact ih (s.accept u)

theorem foldl_udp (rs : List OddsUpdate) (s : UdpSocketSink) :
    rs.foldl (fun s u => OutputSink.accept goesOut u s) (.udp s) =
      .udp (rs.foldl (UdpSocketSink.accept goesOut) s) := by
  induction rs generalizing s with
  | nil => rfl
  | cons u rs ih => exact ih (s.accept goesOut u)

/-- The sender at the end of a run. -/
def sender (goesOut : Nat → Bool) (seed : UInt64) (markets books : UInt32) (rs : List OddsUpdate) :
    UdpSocketSink :=
  (rs.foldl (UdpSocketSink.accept goesOut) (UdpSocketSink.start goesOut seed markets books)).finish
    goesOut

theorem sent_sender (seed : UInt64) (markets books : UInt32) (rs : List OddsUpdate) :
    (sender goesOut seed markets books rs).sink.sent = UdpSink.feed seed markets books rs := by
  unfold sender UdpSocketSink.finish UdpSink.feed UdpSink.finish
  rw [UdpSocketSink.sink_flush, UdpSocketSink.sink_foldl]
  rfl

/-- What a broadcast leaves on the network. -/
def network (goesOut : Nat → Bool) (seed : UInt64) (markets books : UInt32) (rs : List OddsUpdate) :
    List Datagram := (sender goesOut seed markets books rs).network

theorem carried_sender (seed : UInt64) (markets books : UInt32) (rs : List OddsUpdate) :
    UdpSocketSink.Carried goesOut (sender goesOut seed markets books rs) :=
  ((UdpSocketSink.carried_start seed markets books).foldl rs).flush

theorem network_eq (seed : UInt64) (markets books : UInt32) (rs : List OddsUpdate) :
    network goesOut seed markets books rs = kept goesOut (UdpSink.feed seed markets books rs) := by
  rw [← @sent_sender goesOut]
  exact (carried_sender seed markets books rs).network

/-- **Broadcasting costs the session file nothing**, whatever the socket does: the file is the one a
    run without a feed writes, byte for byte; the network gets the feed but for the datagrams whose
    `send` failed, under the numbers they would have had; and the two counters printed at the end are
    the length of the feed and the number of failures. -/
theorem fanout_run (goesOut : Nat → Bool) (header : SessionHeader) (seed : UInt64)
    (markets books : UInt32) (rs : List OddsUpdate) :
    let feed := UdpSink.feed seed markets books rs
    ∃ file udp, run goesOut
        [.file (FileSink.start header), .udp (UdpSocketSink.start goesOut seed markets books)] rs =
          [.file file, .udp udp] ∧
      file.file = FileSink.fileOf header rs ∧
      udp.network = kept goesOut feed ∧
      udp.sink.datagramSeq = feed.length.toUInt64 ∧
      udp.sendErrors = ((List.range feed.length).countP fun n => !goesOut n).toUInt64 := by
  intro feed
  have hcarried := @carried_sender goesOut seed markets books rs
  have hsent := @sent_sender goesOut seed markets books rs
  refine ⟨FileSink.finish (rs.foldl FileSink.accept (FileSink.start header)),
    sender goesOut seed markets books rs, ?_, rfl, ?_, ?_, ?_⟩
  · unfold run finish
    rw [foldl_accept, List.map_map]
    show [OutputSink.finish goesOut (rs.foldl _ (.file _)),
      OutputSink.finish goesOut (rs.foldl _ (.udp _))] = _
    rw [foldl_file, foldl_udp]
    rfl
  · rw [hcarried.network, hsent]
  · rw [hcarried.seqNo, hsent]
  · rw [hcarried.sendErrors, hsent]

/-! ## 3. The other end -/

/-- What fails is missing, and a subsequence of the feed is what is heard. -/
theorem network_sublist (goesOut : Nat → Bool) (seed : UInt64) (markets books : UInt32)
    (rs : List OddsUpdate) :
    (network goesOut seed markets books rs).Sublist (UdpSink.feed seed markets books rs) := by
  rw [network_eq]
  exact kept_sublist _ _

theorem nodup_feed (seed : UInt64) (markets books : UInt32) (rs : List OddsUpdate)
    (hlen : (UdpSink.feed seed markets books rs).length ≤ 2 ^ 64) :
    (UdpSink.feed seed markets books rs).Nodup := by
  obtain ⟨pkts, hfeed, hisFeed, -⟩ := UdpSink.isFeed_feed seed markets books rs
  rw [hfeed, List.length_map] at hlen
  rw [hfeed]
  exact hisFeed.nodup_encode hlen _

/-- **What a receiver counts as lost is what failed to be sent**: over a network that loses nothing
    itself, and where some announce got out, a receiver joins at the first one that did, hands out the
    records of every datagram behind it, finds nothing malformed or out of order, and its `lost` is
    the number of sends that failed between that announce and the last datagram that got out. -/
theorem broadcast_received (goesOut : Nat → Bool) (seed : UInt64) {markets books : UInt32}
    (hm : markets ≠ 0) (hb : books ≠ 0) (rs : List OddsUpdate)
    (hlen : (UdpSink.feed seed markets books rs).length ≤ 2 ^ 64)
    (hann : ∃ n, ∃ h : n < (UdpSink.feed seed markets books rs).length,
      goesOut n = true ∧ IsAnnounce (UdpSink.feed seed markets books rs)[n]) :
    let feed := UdpSink.feed seed markets books rs
    let heard := network goesOut seed markets books rs
    ∃ pre a post s t last, Reception seed markets books feed heard pre a post s t ∧
      heard.getLast? = some last ∧ t.reordered = 0 ∧
      t.lost.toNat = (List.range feed.length).countP fun n =>
        !goesOut n && decide (feed.idxOf a < n ∧ n < feed.idxOf last) := by
  intro feed heard
  have hnodup : feed.Nodup := nodup_feed seed markets books rs hlen
  have hheard : heard = kept goesOut feed := network_eq seed markets books rs
  have hjoins : ∃ d ∈ heard, IsAnnounce d := by
    obtain ⟨n, hn, hout, hannounce⟩ := hann
    refine ⟨feed[n], ?_, hannounce⟩
    rw [hheard]
    exact (getElem_mem_kept_iff hnodup goesOut hn).mpr hout
  obtain ⟨pre, a, post, s, t, hreception⟩ :=
    reception_of_sublist seed hm hb rs (network_sublist goesOut seed markets books rs) hjoins
  obtain ⟨last, hlast, hlost⟩ := hreception.lost hlen
  refine ⟨pre, a, post, s, t, last, hreception, hlast, hreception.reordered hlen, ?_⟩
  have hmissing := missingBetween_kept hnodup goesOut a last
  rw [hlost, ← hmissing, ← hheard]

/-- The second send fails. -/
theorem broadcast_received_second :
    ∃ pre a post s t last,
      Reception 7 1 1 shortFeed (network (fun n => n != 1) 7 1 1
        (firstBatch.records ++ secondBatch.records)) pre a post s t ∧
      (network (fun n => n != 1) 7 1 1 (firstBatch.records ++ secondBatch.records)).getLast? =
        some last ∧
      t.lost.toNat = (List.range shortFeed.length).countP fun n =>
        !(n != 1) && decide (shortFeed.idxOf a < n ∧ n < shortFeed.idxOf last) := by
  have hlen : shortFeed.length ≤ 2 ^ 64 := by
    rw [shortFeed_eq]
    decide
  have hfirst : ∃ n, ∃ h : n < shortFeed.length, (n != 1) = true ∧ IsAnnounce shortFeed[n] := by
    refine ⟨0, by rw [shortFeed_eq]; decide, rfl, ?_⟩
    rw [List.getElem_of_eq shortFeed_eq, List.getElem_map]
    exact (isAnnounce_encode _ _).mpr rfl
  obtain ⟨pre, a, post, s, t, last, hreception, hlast, -, hlost⟩ :=
    broadcast_received (fun n => n != 1) 7 (show (1 : UInt32) ≠ 0 by decide)
      (show (1 : UInt32) ≠ 0 by decide) (firstBatch.records ++ secondBatch.records) hlen hfirst
  exact ⟨pre, a, post, s, t, last, hreception, hlast, hlost⟩

end FanoutSink

end OddsEngine
