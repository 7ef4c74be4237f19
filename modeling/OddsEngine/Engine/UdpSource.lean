/-
  File:      OddsEngine/Engine/UdpSource.lean
  Subject:   The receiver of the live feed (engine/UdpSource.hpp).

  One buffer of 1040 bytes takes every datagram, announces included; `next` reads the records of
  the last data datagram out of it, one call each, and receives again when they are used up. The
  network is the list of the datagrams still to come: behind it there is silence, which ends the
  stream.

  Over the packets of a feed, in whatever order they come:
  * `readDatagram_encode` -- every packet is accepted, and counted against the sequence number;
  * `delivers_packets` -- `next` hands out the records of the data packets, datagram after datagram;
  * `start_packets` -- and a fresh source does so from the first announce on.
-/
import OddsEngine.Engine.Command
import OddsEngine.Lib.Source
import OddsEngine.Proto.UdpFraming

namespace OddsEngine

open Lib

structure UdpSource where
  header : SessionHeader := {}
  buf : List UInt8 := List.replicate kMaxDatagramBytes 0
  inBuffer : Nat := 0
  cursor : Nat := 0
  lastCount : UInt8 := 0
  expectedSeq : UInt64 := 0
  datagrams : UInt64 := 0
  records : UInt64 := 0
  lost : UInt64 := 0
  reordered : UInt64 := 0
  malformed : UInt64 := 0
  preAnnounce : UInt64 := 0
  announces : UInt64 := 0

namespace UdpSource

theorem buf_length_init : ({} : UdpSource).buf.length = kMaxDatagramBytes := List.length_replicate

/-- What `read_datagram` answers for a datagram that arrived: -1, 0 or 1. -/
inductive Read where
  | unusable
  | data
  | announce
  deriving DecidableEq, Repr

/-- Sequence accounting spans both types of datagram. -/
def account (s : UdpSource) (seq : UInt64) : UdpSource :=
  if s.expectedSeq < seq then
    { s with lost := s.lost + (seq - s.expectedSeq), expectedSeq := seq + 1 }
  else if seq < s.expectedSeq then { s with reordered := s.reordered + 1 }
  else { s with expectedSeq := s.expectedSeq + 1 }

def countMalformed (s : UdpSource) : UdpSource × Read :=
  ({ s with malformed := s.malformed + 1 }, .unusable)

/-- `read_datagram`, where a datagram arrives: `recv` overwrites as much of the buffer as the
    datagram is long, and cuts off what does not fit. -/
def readDatagram (s : UdpSource) (d : Datagram) : UdpSource × Read :=
  let n := min d.length kMaxDatagramBytes
  let s := { s with buf := d.take n ++ s.buf.drop n }
  if n < UdpDatagramHeader.size then s.countMalformed
  else
    let h := UdpDatagramHeader.ofBytes s.buf
    if h.magic ≠ kUdpMagic ∨ h.version ≠ kUdpVersion then s.countMalformed
    else if h.recordCount = 0 then s.countMalformed
    else
      let announce := h.type == UdpDatagramType.announce.code
      let want := if announce then UdpDatagramHeader.size + AnnounceRecord.size
        else UdpDatagramHeader.size + h.recordCount.toNat * OddsUpdate.size
      if !announce && decide (h.recordCount.toNat > kRecordsPerDatagram) then s.countMalformed
      else if n ≠ want then s.countMalformed
      else
        let s := s.account h.datagramSeq
        ({ s with datagrams := s.datagrams + 1, lastCount := h.recordCount },
          if announce then .announce else .data)

def readAnnouncePayload (s : UdpSource) : AnnounceRecord :=
  AnnounceRecord.ofBytes (s.buf.drop UdpDatagramHeader.size)

/-- Wait for the first announce. Data that comes before it is discarded: its shape is not known. -/
def awaitAnnounce (s : UdpSource) : List Datagram → Except Bytes (UdpSource × List Datagram)
  | [] => .error (ascii
      "timed out waiting for an announce datagram (is the simulator broadcasting?)")
  | d :: inbox =>
    match s.readDatagram d with
    | (s, .unusable) => awaitAnnounce s inbox
    | (s, .data) => awaitAnnounce { s with preAnnounce := s.preAnnounce + 1 } inbox
    | (s, .announce) =>
      let a := s.readAnnouncePayload
      if a.recordSize ≠ OddsUpdate.size.toUInt32 then
        .error (ascii "announce record size mismatch: sender and engine disagree")
      else if a.markets = 0 ∨ a.books = 0 then
        .error (ascii "announce declares zero markets or books")
      else
        .ok ({ s with
          header := { magic := kSessionMagic, version := kSessionVersion,
                      recordSize := OddsUpdate.size.toUInt16, seed := a.seed, markets := a.markets,
                      books := a.books }
          announces := s.announces + 1
          -- what was missed before the first announce is our own late start, not loss
          lost := 0
          reordered := 0
          inBuffer := 0
          cursor := 0 }, inbox)

/-- The constructor, on a socket that will receive `inbox`. -/
def start (inbox : List Datagram) : Except Bytes (UdpSource × List Datagram) :=
  awaitAnnounce {} inbox

/-- The next data datagram into the buffer; `false` where the silence comes first. -/
def receiveOne (s : UdpSource) : List Datagram → Except Bytes (Bool × UdpSource × List Datagram)
  | [] => .ok (false, s, [])
  | d :: inbox =>
    match s.readDatagram d with
    | (s, .unusable) => receiveOne s inbox
    | (s, .announce) =>
      let a := s.readAnnouncePayload
      if a.markets ≠ s.header.markets ∨ a.books ≠ s.header.books ∨ a.seed ≠ s.header.seed then
        .error (ascii "announce changed mid-stream: feed reconfigured")
      else receiveOne { s with announces := s.announces + 1 } inbox
    | (s, .data) => .ok (true, { s with inBuffer := s.lastCount.toNat, cursor := 0 }, inbox)

/-- The source as `receive_one` leaves it, whether it returns or throws: an announce that ends the
    run has been counted by then. -/
def afterReceive (s : UdpSource) : List Datagram → UdpSource
  | [] => s
  | d :: inbox =>
    match s.readDatagram d with
    | (s, .unusable) => afterReceive s inbox
    | (s, .announce) =>
      let a := s.readAnnouncePayload
      if a.markets ≠ s.header.markets ∨ a.books ≠ s.header.books ∨ a.seed ≠ s.header.seed then s
      else afterReceive { s with announces := s.announces + 1 } inbox
    | (s, .data) => { s with inBuffer := s.lastCount.toNat, cursor := 0 }

/-- A datagram received is a datagram less to come. -/
theorem receiveOne_lt {s s' : UdpSource} {inbox inbox' : List Datagram}
    (h : receiveOne s inbox = .ok (true, s', inbox')) : inbox'.length < inbox.length := by
  induction inbox generalizing s with
  | nil => cases h
  | cons d inbox ih =>
    unfold receiveOne at h
    rw [List.length_cons]
    split at h
    · exact (ih h).trans (Nat.lt_succ_self _)
    · dsimp only at h
      split at h
      · cases h
      · exact (ih h).trans (Nat.lt_succ_self _)
    · cases h
      exact Nat.lt_succ_self _

/-- Record `i` of the datagram in the buffer. -/
def recordAt (s : UdpSource) (i : Nat) : OddsUpdate :=
  OddsUpdate.ofBytes (s.buf.drop (UdpDatagramHeader.size + i * OddsUpdate.size))

def next (st : UdpSource × List Datagram) :
    Except Bytes (Option OddsUpdate × UdpSource × List Datagram) :=
  let (s, inbox) := st
  if s.cursor < s.inBuffer then
    .ok (some (s.recordAt s.cursor),
      { s with cursor := s.cursor + 1, records := s.records + 1 }, inbox)
  else
    match _h : receiveOne s inbox with
    | .error e => .error e
    | .ok (false, s, inbox) => .ok (none, s, inbox)
    | .ok (true, s, inbox) => next (s, inbox)
termination_by st.2.length
decreasing_by exact receiveOne_lt _h

/-! ## 1. One packet -/

/-- The sequence accounting of a source. -/
structure Tally where
  expectedSeq : UInt64
  lost : UInt64
  reordered : UInt64

/-- One sequence number, counted. -/
def Tally.count (t : Tally) (seq : UInt64) : Tally :=
  if t.expectedSeq < seq then
    { t with lost := t.lost + (seq - t.expectedSeq), expectedSeq := seq + 1 }
  else if seq < t.expectedSeq then { t with reordered := t.reordered + 1 }
  else { t with expectedSeq := t.expectedSeq + 1 }

def tally (s : UdpSource) : Tally := ⟨s.expectedSeq, s.lost, s.reordered⟩

/-- The source after the packet `p` came in. -/
def received (s : UdpSource) (a : AnnounceRecord) (p : Packet) : UdpSource :=
  let t := s.tally.count p.seq
  { s with
    buf := p.encode a ++ s.buf.drop (p.encode a).length
    expectedSeq := t.expectedSeq
    lost := t.lost
    reordered := t.reordered
    datagrams := s.datagrams + 1
    lastCount := p.recordCount }

def Read.ofType : UdpDatagramType → Read
  | .data => .data
  | .announce => .announce

theorem account_eq (s : UdpSource) (seq : UInt64) :
    s.account seq = { s with
      expectedSeq := (s.tally.count seq).expectedSeq
      lost := (s.tally.count seq).lost
      reordered := (s.tally.count seq).reordered } := by
  unfold account Tally.count tally
  dsimp only
  split
  · rfl
  · split
    · rfl
    · rfl

/-- **Every packet of a feed is accepted**, and counted against its sequence number. -/
theorem readDatagram_encode (s : UdpSource) (a : AnnounceRecord) (p : Packet) :
    s.readDatagram (p.encode a) = (s.received a p, Read.ofType p.type) := by
  have hlen := Packet.length_encode_le a p
  have hmin : min (p.encode a).length kMaxDatagramBytes = (p.encode a).length := min_eq_left hlen
  have hheader : UdpDatagramHeader.ofBytes (p.encode a ++ s.buf.drop (p.encode a).length) =
      p.header := Packet.ofBytes_encode a p _
  unfold readDatagram
  dsimp only
  rw [hmin, List.take_length, hheader, account_eq]
  cases p with
  | announce seq =>
    rw [if_neg (by rw [Packet.length_encode_announce]; decide)]
    rw [Packet.length_encode_announce]
    rfl
  | data seq batch =>
    have hcount := Packet.recordCount_data seq batch
    have hpos : 0 < batch.records.length := List.length_pos_of_ne_nil batch.nonempty
    have hle : batch.records.length ≤ kRecordsPerDatagram := batch.length_le
    have hlength := Packet.length_encode_data a seq batch
    have hn : ¬ ((Packet.data seq batch).encode a).length < UdpDatagramHeader.size := by
      rw [hlength]
      omega
    have hzero : ¬ (Packet.data seq batch).header.recordCount = 0 := by
      intro h
      have hnat : (Packet.data seq batch).recordCount.toNat = 0 := congrArg UInt8.toNat h
      omega
    have hmagic : ¬ ((Packet.data seq batch).header.magic ≠ kUdpMagic ∨
        (Packet.data seq batch).header.version ≠ kUdpVersion) := by
      rintro (h | h)
      · exact h rfl
      · exact h rfl
    have htype : ((Packet.data seq batch).header.type == UdpDatagramType.announce.code) = false := rfl
    have hmany : ¬ (Packet.data seq batch).header.recordCount.toNat > kRecordsPerDatagram := by
      show ¬ (Packet.data seq batch).recordCount.toNat > kRecordsPerDatagram
      omega
    have hwant : ((Packet.data seq batch).encode a).length =
        UdpDatagramHeader.size +
          (Packet.data seq batch).header.recordCount.toNat * OddsUpdate.size := by
      show _ = _ + (Packet.data seq batch).recordCount.toNat * _
      rw [hcount, hlength]
    rw [if_neg hn, if_neg hmagic, if_neg hzero, htype]
    simp only [hmany, decide_false, Bool.not_false, Bool.and_false, Bool.false_eq_true, if_false]
    rw [if_neg (fun h => h hwant)]
    rfl

theorem received_buf_length {s : UdpSource} (h : s.buf.length = kMaxDatagramBytes)
    (a : AnnounceRecord) (p : Packet) : (s.received a p).buf.length = kMaxDatagramBytes := by
  have hlen := Packet.length_encode_le a p
  show (p.encode a ++ s.buf.drop (p.encode a).length).length = _
  rw [List.length_append, List.length_drop]
  omega

theorem readAnnouncePayload_received (s : UdpSource) (a : AnnounceRecord) (seq : UInt64) :
    (s.received a (.announce seq)).readAnnouncePayload = a := by
  have hsize : (Packet.announce seq).header.toBytes.length = UdpDatagramHeader.size :=
    UdpDatagramHeader.toBytes_length _
  show AnnounceRecord.ofBytes (List.drop _ (_ ++ a.toBytes ++ _)) = a
  rw [List.append_assoc, ← hsize, List.drop_left, AnnounceRecord.ofBytes_toBytes]

theorem recordAt_received (s : UdpSource) (a : AnnounceRecord) (seq : UInt64) (batch : Batch)
    {i : Nat} {u : OddsUpdate} (h : batch.records[i]? = some u) :
    (s.received a (.data seq batch)).recordAt i = u := by
  have hsize : (Packet.data seq batch).header.toBytes.length = UdpDatagramHeader.size :=
    UdpDatagramHeader.toBytes_length _
  show OddsUpdate.ofBytes (List.drop _ (_ ++ batch.records.flatMap OddsUpdate.toBytes ++ _)) = u
  rw [List.append_assoc, ← List.drop_drop, ← hsize, List.drop_left]
  exact Packet.ofBytes_drop_flatMap _ _ h

/-! ## 2. A stream of packets -/

/-- The source `s` is ready for the packets of a feed that announces `a`. -/
structure Ready (a : AnnounceRecord) (s : UdpSource) : Prop where
  buf : s.buf.length = kMaxDatagramBytes
  markets : s.header.markets = a.markets
  books : s.header.books = a.books
  seed : s.header.seed = a.seed

/-- What the packets `pkts` leave of `s`, and what they make of its counters. -/
structure Follows (s : UdpSource) (pkts : List Packet) (s' : UdpSource) : Prop where
  buf : s.buf.length = kMaxDatagramBytes → s'.buf.length = kMaxDatagramBytes
  header : s'.header = s.header
  malformed : s'.malformed = s.malformed
  preAnnounce : s'.preAnnounce = s.preAnnounce
  tally : s'.tally = pkts.foldl (fun t p => t.count p.seq) s.tally

theorem Follows.refl (s : UdpSource) : Follows s [] s := ⟨id, rfl, rfl, rfl, rfl⟩

theorem Follows.trans {s s' s'' : UdpSource} {p q : List Packet} (h : Follows s p s')
    (h' : Follows s' q s'') : Follows s (p ++ q) s'' where
  buf hb := h'.buf (h.buf hb)
  header := h'.header.trans h.header
  malformed := h'.malformed.trans h.malformed
  preAnnounce := h'.preAnnounce.trans h.preAnnounce
  tally := by rw [h'.tally, h.tally, List.foldl_append]

theorem Follows.ready {a : AnnounceRecord} {s s' : UdpSource} {pkts : List Packet}
    (h : Follows s pkts s') (hr : Ready a s) : Ready a s' where
  buf := h.buf hr.buf
  markets := by rw [h.header]; exact hr.markets
  books := by rw [h.header]; exact hr.books
  seed := by rw [h.header]; exact hr.seed

/-- The source after an announce in mid-stream. -/
def announced (s : UdpSource) (a : AnnounceRecord) (seq : UInt64) : UdpSource :=
  let r := s.received a (.announce seq)
  { r with announces := r.announces + 1 }

/-- The source with a data datagram in the buffer. -/
def filled (s : UdpSource) (a : AnnounceRecord) (seq : UInt64) (batch : Batch) : UdpSource :=
  { s.received a (.data seq batch) with inBuffer := batch.records.length, cursor := 0 }

theorem follows_announced (s : UdpSource) (a : AnnounceRecord) (seq : UInt64) :
    Follows s [.announce seq] (s.announced a seq) :=
  ⟨fun hb => received_buf_length hb a _, rfl, rfl, rfl, rfl⟩

theorem follows_filled (s : UdpSource) (a : AnnounceRecord) (seq : UInt64) (batch : Batch) :
    Follows s [.data seq batch] (s.filled a seq batch) :=
  ⟨fun hb => received_buf_length hb a _, rfl, rfl, rfl, rfl⟩

/-- An announce that says the same again is passed over. -/
theorem receiveOne_announce {a : AnnounceRecord} {s : UdpSource} (h : Ready a s) (seq : UInt64)
    (inbox : List Datagram) :
    receiveOne s ((Packet.announce seq).encode a :: inbox) =
      receiveOne (s.announced a seq) inbox := by
  have hsame : ¬ (a.markets ≠ s.header.markets ∨ a.books ≠ s.header.books ∨
      a.seed ≠ s.header.seed) := by
    rw [h.markets, h.books, h.seed]
    simp
  have hrest : receiveOne s ((Packet.announce seq).encode a :: inbox) =
      if (s.received a (.announce seq)).readAnnouncePayload.markets ≠ s.header.markets ∨
          (s.received a (.announce seq)).readAnnouncePayload.books ≠ s.header.books ∨
          (s.received a (.announce seq)).readAnnouncePayload.seed ≠ s.header.seed then
        .error (ascii "announce changed mid-stream: feed reconfigured")
      else receiveOne (s.announced a seq) inbox := by
    conv_lhs => unfold receiveOne
    rw [readDatagram_encode]
    rfl
  rw [hrest, readAnnouncePayload_received, if_neg hsame]

theorem receiveOne_data (a : AnnounceRecord) (s : UdpSource) (seq : UInt64) (batch : Batch)
    (inbox : List Datagram) :
    receiveOne s ((Packet.data seq batch).encode a :: inbox) =
      .ok (true, s.filled a seq batch, inbox) := by
  have hcount : (s.received a (.data seq batch)).lastCount.toNat = batch.records.length :=
    Packet.recordCount_data seq batch
  unfold receiveOne filled
  rw [readDatagram_encode, ← hcount]
  rfl

/-- One call of `next`. -/
theorem next_eq (s : UdpSource) (inbox : List Datagram) :
    next (s, inbox) =
      if s.cursor < s.inBuffer then
        .ok (some (s.recordAt s.cursor),
          { s with cursor := s.cursor + 1, records := s.records + 1 }, inbox)
      else
        match receiveOne s inbox with
        | .error e => .error e
        | .ok (false, s, inbox) => .ok (none, s, inbox)
        | .ok (true, s, inbox) => next (s, inbox) := by
  rw [next]
  split
  · rfl
  · split
    · next h => rw [h]
    · next h => rw [h]
    · next h => rw [h]

/-- The records of the datagram in the buffer, from the cursor on. -/
def buffered (s : UdpSource) : List OddsUpdate :=
  (List.range' s.cursor (s.inBuffer - s.cursor)).map s.recordAt

/-- What is in the buffer comes first, and the receiver has heard nothing new after it. -/
theorem reads_buffer (s : UdpSource) (inbox : List Datagram) :
    ∃ s', Reads next (s, inbox) s.buffered (s', inbox) ∧
      s'.cursor = max s.cursor s.inBuffer ∧ s'.inBuffer = s.inBuffer ∧ Follows s [] s' := by
  unfold buffered
  induction hn : s.inBuffer - s.cursor generalizing s with
  | zero => exact ⟨s, .refl _, by omega, rfl, Follows.refl s⟩
  | succ n ih =>
    obtain ⟨s', hreads, hcursor, hin, hfollows⟩ :=
      ih { s with cursor := s.cursor + 1, records := s.records + 1 } (by
        show s.inBuffer - (s.cursor + 1) = n
        omega)
    refine ⟨s', .more ?_ hreads, ?_, hin, ⟨hfollows.buf, hfollows.header, hfollows.malformed,
      hfollows.preAnnounce, hfollows.tally⟩⟩
    · rw [next_eq, if_pos (by omega)]
    · rw [hcursor]
      show max (s.cursor + 1) s.inBuffer = _
      omega

/-- A data packet just received: its records are the buffer's. -/
theorem buffered_filled (s : UdpSource) (a : AnnounceRecord) (seq : UInt64) (batch : Batch) :
    (s.filled a seq batch).buffered = batch.records := by
  refine List.ext_getElem (by simp [buffered, filled]) fun i hi hi' => ?_
  have hget : batch.records[i]? = some batch.records[i] := List.getElem?_eq_getElem hi'
  simp only [buffered, List.getElem_map, List.getElem_range']
  rw [show (s.filled a seq batch).cursor + 1 * i = i from by simp [filled]]
  exact recordAt_received s a seq batch hget

/-- **`next` hands out the records of the data packets**, in the order the packets come in,
    whatever that order is. -/
theorem delivers_packets {a : AnnounceRecord} (pkts : List Packet) {s : UdpSource} (hr : Ready a s)
    (hdone : s.cursor = s.inBuffer) :
    ∃ s', Delivers next (s, pkts.map (Packet.encode a)) (pkts.flatMap Packet.records) (s', []) ∧
      Follows s pkts s' := by
  have hno : ∀ s : UdpSource, s.cursor = s.inBuffer → ¬ s.cursor < s.inBuffer :=
    fun s h => by omega
  induction pkts generalizing s with
  | nil =>
    refine ⟨s, .done ?_, Follows.refl s⟩
    rw [next_eq, if_neg (hno s hdone)]
    rfl
  | cons p pkts ih =>
    cases p with
    | announce seq =>
      have hfollows := follows_announced s a seq
      obtain ⟨s', hdel, hrest⟩ := ih (hfollows.ready hr) (show s.cursor = s.inBuffer from hdone)
      refine ⟨s', ?_, hfollows.trans hrest⟩
      refine Delivers.of_next_eq ?_ hdel
      rw [List.map_cons, next_eq, if_neg (hno s hdone), receiveOne_announce hr, next_eq]
      exact (if_neg (hno s hdone)).symm
    | data seq batch =>
      have hfollows := follows_filled s a seq batch
      obtain ⟨s1, hreads, hcursor, hin, hfollows1⟩ :=
        reads_buffer (s.filled a seq batch) (pkts.map (Packet.encode a))
      have hboth := hfollows.trans hfollows1
      have hdone1 : s1.cursor = s1.inBuffer := by
        rw [hcursor, hin]
        exact Nat.max_eq_right (Nat.zero_le _)
      obtain ⟨s', hdel, hrest⟩ := ih (hboth.ready hr) hdone1
      refine ⟨s', ?_, hboth.trans hrest⟩
      rw [buffered_filled] at hreads
      refine Delivers.of_next_eq ?_ (hreads.delivers hdel)
      rw [List.map_cons, next_eq, if_neg (hno s hdone), receiveOne_data]

/-! ## 3. Joining the feed -/

/-- The header a source makes of an announce. -/
def headerOf (a : AnnounceRecord) : SessionHeader :=
  { magic := kSessionMagic, version := kSessionVersion, recordSize := OddsUpdate.size.toUInt16,
    seed := a.seed, markets := a.markets, books := a.books }

/-- An announce the source accepts. -/
structure Admissible (a : AnnounceRecord) : Prop where
  recordSize : a.recordSize = OddsUpdate.size.toUInt32
  markets : a.markets ≠ 0
  books : a.books ≠ 0

/-- The source that joined at the announce `p`, after it let the data packets `pre` go by. -/
structure Joined (a : AnnounceRecord) (s : UdpSource) (pre : List Packet) (p : Packet)
    (s' : UdpSource) : Prop where
  buf : s'.buf.length = kMaxDatagramBytes
  header : s'.header = headerOf a
  malformed : s'.malformed = s.malformed
  preAnnounce : s'.preAnnounce = s.preAnnounce + pre.length.toUInt64
  tally : s'.tally = ⟨((pre ++ [p]).foldl (fun t p => t.count p.seq) s.tally).expectedSeq, 0, 0⟩
  inBuffer : s'.inBuffer = 0
  cursor : s'.cursor = 0

theorem Joined.ready {a : AnnounceRecord} {s s' : UdpSource} {pre : List Packet} {p : Packet}
    (h : Joined a s pre p s') : Ready a s' where
  buf := h.buf
  markets := by rw [h.header]; rfl
  books := by rw [h.header]; rfl
  seed := by rw [h.header]; rfl

/-- The first announce starts the source; the data packets before it only count. -/
theorem awaitAnnounce_packets {a : AnnounceRecord} (ha : Admissible a) (pre : List Packet)
    (seq : UInt64) (inbox : List Datagram) {s : UdpSource} (hb : s.buf.length = kMaxDatagramBytes)
    (hpre : ∀ p ∈ pre, p.type = .data) :
    ∃ s', awaitAnnounce s (pre.map (Packet.encode a) ++ (Packet.announce seq).encode a :: inbox) =
        .ok (s', inbox) ∧ Joined a s pre (.announce seq) s' := by
  induction pre generalizing s with
  | nil =>
    have hpayload := readAnnouncePayload_received s a seq
    refine ⟨{ s.received a (.announce seq) with
      header := headerOf a, announces := s.announces + 1, lost := 0, reordered := 0,
      inBuffer := 0, cursor := 0 }, ?_,
      ⟨received_buf_length hb a _, rfl, rfl, (UInt64.add_zero _).symm, rfl, rfl, rfl⟩⟩
    rw [List.map_nil, List.nil_append]
    unfold awaitAnnounce
    rw [readDatagram_encode]
    show (if (s.received a (.announce seq)).readAnnouncePayload.recordSize ≠ _ then _ else _) = _
    rw [hpayload, if_neg (fun h => h ha.recordSize),
      if_neg (fun h => h.elim ha.markets ha.books)]
    rfl
  | cons p pre ih =>
    have hp : p.type = .data := hpre p List.mem_cons_self
    obtain ⟨s', hawait, hjoined⟩ := @ih
      { s.received a p with preAnnounce := (s.received a p).preAnnounce + 1 }
      (received_buf_length hb a p) (fun q hq => hpre q (List.mem_cons_of_mem p hq))
    have hcount : s.preAnnounce + 1 + pre.length.toUInt64 =
        s.preAnnounce + (p :: pre).length.toUInt64 := by
      rw [List.length_cons, UInt64.add_assoc]
      congr 1
      rw [show (pre.length + 1).toUInt64 = pre.length.toUInt64 + 1 from UInt64.ofNat_add _ _]
      exact UInt64.add_comm _ _
    refine ⟨s', ?_, ⟨hjoined.buf, hjoined.header, hjoined.malformed,
      hjoined.preAnnounce.trans hcount, hjoined.tally, hjoined.inBuffer, hjoined.cursor⟩⟩
    rw [List.map_cons, List.cons_append]
    unfold awaitAnnounce
    rw [readDatagram_encode, hp]
    exact hawait

/-- **A fresh source joins at the first announce** it hears, and hands out the records that come
    after it. -/
theorem start_packets {a : AnnounceRecord} (ha : Admissible a) {pre : List Packet}
    (hpre : ∀ p ∈ pre, p.type = .data) (seq : UInt64) (post : List Packet) :
    ∃ s t, start (pre.map (Packet.encode a) ++ (Packet.announce seq).encode a ::
          post.map (Packet.encode a)) = .ok (s, post.map (Packet.encode a)) ∧
      Delivers next (s, post.map (Packet.encode a)) (post.flatMap Packet.records) (t, []) ∧
      Joined a {} pre (.announce seq) s ∧ Follows s post t := by
  obtain ⟨s, hstart, hjoined⟩ :=
    awaitAnnounce_packets ha pre seq (post.map (Packet.encode a)) buf_length_init hpre
  obtain ⟨t, hdel, hfollows⟩ := delivers_packets post hjoined.ready
    (hjoined.cursor.trans hjoined.inBuffer.symm)
  exact ⟨s, t, hstart, hdel, hjoined, hfollows⟩

end UdpSource

end OddsEngine
