/-
  File:      OddsEngine/Proto/UdpFraming.lean
  Subject:   Datagram framing of the live feed (proto/udp_framing.hpp).

  A datagram is a 16-byte header and a payload: records (`Data`) or one announce (`Announce`).
  Sender and receiver share this file and nothing else. A `Packet` is a datagram before it is laid
  out in bytes; it cannot hold an empty batch, nor one of more than 16 records.
-/
import OddsEngine.Lib.Frames
import OddsEngine.Proto.Messages

namespace OddsEngine

open Lib

/-- A datagram as the network carries it. -/
abbrev Datagram := List UInt8

inductive UdpDatagramType where
  | data
  | announce
  deriving DecidableEq, Repr

/-- The byte that stands for the type on the wire. -/
def UdpDatagramType.code : UdpDatagramType → UInt8
  | .data => 0
  | .announce => 1

structure UdpDatagramHeader where
  magic : UInt32 := 0
  version : UInt16 := 0
  type : UInt8 := 0
  recordCount : UInt8 := 0
  datagramSeq : UInt64 := 0
  deriving DecidableEq

/-- 'UODP' little-endian. -/
def kUdpMagic : UInt32 := 0x50444F55

/-- Version 1 had no type field. -/
def kUdpVersion : UInt16 := 2

/-- What a consumer joining mid-stream must be told. -/
structure AnnounceRecord where
  seed : UInt64 := 0
  tickIntervalNs : UInt64 := 0
  markets : UInt32 := 0
  books : UInt32 := 0
  recordSize : UInt32 := 0
  pad : UInt32 := 0
  deriving DecidableEq

def kRecordsPerDatagram : Nat := 16

/-- One announce per this many data datagrams, plus one before any data. -/
def kAnnounceInterval : UInt64 := 64

namespace UdpDatagramHeader

/-- `sizeof(UdpDatagramHeader)`. -/
def size : Nat := 16

def toBytes (h : UdpDatagramHeader) : List UInt8 :=
  u32 h.magic ++ (u16 h.version ++ (h.type :: (h.recordCount :: (u64 h.datagramSeq ++ []))))

def ofBytes (bs : List UInt8) : UdpDatagramHeader :=
  let (magic, bs) := getU32 bs
  let (version, bs) := getU16 bs
  let (type, bs) := getU8 bs
  let (recordCount, bs) := getU8 bs
  let (datagramSeq, _) := getU64 bs
  { magic, version, type, recordCount, datagramSeq }

@[simp] theorem toBytes_length (h : UdpDatagramHeader) : h.toBytes.length = size := by
  simp [toBytes, size]

@[simp] theorem ofBytes_toBytes (h : UdpDatagramHeader) (bs : List UInt8) :
    ofBytes (h.toBytes ++ bs) = h := by
  simp only [toBytes, ofBytes, List.append_assoc, List.cons_append, List.nil_append, getU64_u64,
    getU16_u16, getU32_u32, getU8_cons]

/-- The header is read from its own 16 bytes. -/
theorem ofBytes_append {bs : List UInt8} (h : size ≤ bs.length) (rest : List UInt8) :
    ofBytes (bs ++ rest) = ofBytes bs := by
  have hlen : 16 ≤ bs.length := h
  simp (disch := (try simp only [getU32_length, getU16_length, getU8_length]) <;> omega) only
    [ofBytes, getU32_append, getU16_append, getU8_append, getU64_append]

end UdpDatagramHeader

namespace AnnounceRecord

/-- `sizeof(AnnounceRecord)`. -/
def size : Nat := 32

def toBytes (a : AnnounceRecord) : List UInt8 :=
  u64 a.seed ++ (u64 a.tickIntervalNs ++ (u32 a.markets ++ (u32 a.books ++
    (u32 a.recordSize ++ (u32 a.pad ++ [])))))

def ofBytes (bs : List UInt8) : AnnounceRecord :=
  let (seed, bs) := getU64 bs
  let (tickIntervalNs, bs) := getU64 bs
  let (markets, bs) := getU32 bs
  let (books, bs) := getU32 bs
  let (recordSize, bs) := getU32 bs
  let (pad, _) := getU32 bs
  { seed, tickIntervalNs, markets, books, recordSize, pad }

@[simp] theorem toBytes_length (a : AnnounceRecord) : a.toBytes.length = size := by
  simp [toBytes, size]

@[simp] theorem ofBytes_toBytes (a : AnnounceRecord) (bs : List UInt8) :
    ofBytes (a.toBytes ++ bs) = a := by
  simp only [toBytes, ofBytes, List.append_assoc, List.nil_append, getU64_u64, getU32_u32]

theorem ofBytes_append {bs : List UInt8} (h : size ≤ bs.length) (rest : List UInt8) :
    ofBytes (bs ++ rest) = ofBytes bs := by
  have hlen : 32 ≤ bs.length := h
  simp (disch := (try simp only [getU64_length, getU32_length]) <;> omega) only
    [ofBytes, getU32_append, getU64_append]

end AnnounceRecord

/-- The largest datagram of the feed: 1040 bytes, below one Ethernet frame's payload. -/
def kMaxDatagramBytes : Nat := UdpDatagramHeader.size + kRecordsPerDatagram * OddsUpdate.size

/-! ## Packets -/

/-- The records of one data datagram. -/
structure Batch where
  records : List OddsUpdate
  nonempty : records ≠ []
  length_le : records.length ≤ kRecordsPerDatagram

inductive Packet where
  | announce (seq : UInt64)
  | data (seq : UInt64) (batch : Batch)

namespace Packet

def seq : Packet → UInt64
  | announce seq => seq
  | data seq _ => seq

def type : Packet → UdpDatagramType
  | announce _ => .announce
  | data _ _ => .data

/-- The quotes a packet carries. -/
def records : Packet → List OddsUpdate
  | announce _ => []
  | data _ batch => batch.records

def recordCount : Packet → UInt8
  | announce _ => 1
  | data _ batch => batch.records.length.toUInt8

def header (p : Packet) : UdpDatagramHeader :=
  { magic := kUdpMagic, version := kUdpVersion, type := p.type.code, recordCount := p.recordCount,
    datagramSeq := p.seq }

def payload (a : AnnounceRecord) : Packet → List UInt8
  | announce _ => a.toBytes
  | data _ batch => batch.records.flatMap OddsUpdate.toBytes

/-- The datagram of a packet, in the feed that announces `a`. -/
def encode (a : AnnounceRecord) (p : Packet) : Datagram := p.header.toBytes ++ p.payload a

/-- Records lie in the payload one after the other. -/
theorem length_flatMap_toBytes (rs : List OddsUpdate) :
    (rs.flatMap OddsUpdate.toBytes).length = rs.length * OddsUpdate.size :=
  length_flatMap_of_length OddsUpdate.toBytes_length rs

theorem recordCount_data (seq : UInt64) (batch : Batch) :
    (data seq batch).recordCount.toNat = batch.records.length := by
  have hle : batch.records.length ≤ 16 := batch.length_le
  show (batch.records.length.toUInt8).toNat = _
  rw [UInt8.toNat_ofNat']
  omega

theorem length_encode_announce (a : AnnounceRecord) (seq : UInt64) :
    ((announce seq).encode a).length = UdpDatagramHeader.size + AnnounceRecord.size := by
  unfold encode payload
  rw [List.length_append, UdpDatagramHeader.toBytes_length, AnnounceRecord.toBytes_length]

theorem length_encode_data (a : AnnounceRecord) (seq : UInt64) (batch : Batch) :
    ((data seq batch).encode a).length =
      UdpDatagramHeader.size + batch.records.length * OddsUpdate.size := by
  unfold encode payload
  rw [List.length_append, UdpDatagramHeader.toBytes_length, length_flatMap_toBytes]

/-- No packet is longer than the receive buffer. -/
theorem length_encode_le (a : AnnounceRecord) (p : Packet) :
    (p.encode a).length ≤ kMaxDatagramBytes := by
  cases p with
  | announce seq =>
    rw [length_encode_announce]
    decide
  | data seq batch =>
    have hle : batch.records.length ≤ 16 := batch.length_le
    rw [length_encode_data]
    show 16 + batch.records.length * 64 ≤ 16 + 16 * 64
    omega

theorem ofBytes_encode (a : AnnounceRecord) (p : Packet) (bs : List UInt8) :
    UdpDatagramHeader.ofBytes (p.encode a ++ bs) = p.header := by
  unfold encode
  rw [List.append_assoc, UdpDatagramHeader.ofBytes_toBytes]

/-- The `i`-th record of a payload, read where it lies. -/
theorem ofBytes_drop_flatMap (rs : List OddsUpdate) (bs : List UInt8) {i : Nat} {u : OddsUpdate}
    (h : rs[i]? = some u) :
    OddsUpdate.ofBytes ((rs.flatMap OddsUpdate.toBytes ++ bs).drop (i * OddsUpdate.size)) = u := by
  induction rs generalizing i with
  | nil => cases h
  | cons v rs ih =>
    cases i with
    | zero =>
      have hv : v = u := Option.some.inj h
      rw [Nat.zero_mul, List.drop_zero, List.flatMap_cons, List.append_assoc,
        OddsUpdate.ofBytes_toBytes, hv]
    | succ i =>
      have hskip : (i + 1) * OddsUpdate.size = OddsUpdate.size + i * OddsUpdate.size := by ring
      have hlen : v.toBytes.length = OddsUpdate.size := OddsUpdate.toBytes_length v
      rw [hskip, List.flatMap_cons, List.append_assoc, ← List.drop_drop, ← hlen,
        List.drop_left, hlen]
      exact ih h

end Packet

/-! ## What a datagram says -/

/-- The type byte of a datagram says `Announce`. -/
def IsAnnounce (d : Datagram) : Prop :=
  (UdpDatagramHeader.ofBytes d).type = UdpDatagramType.announce.code

instance (d : Datagram) : Decidable (IsAnnounce d) := inferInstanceAs (Decidable (_ = _))

/-- The record batch of a data datagram; none of an announce. -/
def batchOf (d : Datagram) : List OddsUpdate :=
  if IsAnnounce d then []
  else (List.range (UdpDatagramHeader.ofBytes d).recordCount.toNat).map fun i =>
    OddsUpdate.ofBytes (d.drop (UdpDatagramHeader.size + i * OddsUpdate.size))

theorem ofBytes_encode_nil (a : AnnounceRecord) (p : Packet) :
    UdpDatagramHeader.ofBytes (p.encode a) = p.header := by
  have h := Packet.ofBytes_encode a p []
  rw [List.append_nil] at h
  exact h

theorem isAnnounce_encode (a : AnnounceRecord) (p : Packet) :
    IsAnnounce (p.encode a) ↔ p.type = .announce := by
  unfold IsAnnounce
  rw [ofBytes_encode_nil]
  cases p with
  | announce seq => exact ⟨fun _ => rfl, fun _ => rfl⟩
  | data seq batch => exact ⟨fun h => absurd (show (0 : UInt8) = 1 from h) (by decide), nofun⟩

theorem batchOf_encode (a : AnnounceRecord) (p : Packet) : batchOf (p.encode a) = p.records := by
  unfold batchOf
  rw [ofBytes_encode_nil]
  cases p with
  | announce seq =>
    rw [if_pos ((isAnnounce_encode a _).mpr rfl)]
    rfl
  | data seq batch =>
    have hno : ¬ IsAnnounce ((Packet.data seq batch).encode a) := by
      rw [isAnnounce_encode]
      exact fun h => nomatch h
    have hcount : (Packet.data seq batch).header.recordCount.toNat = batch.records.length :=
      Packet.recordCount_data seq batch
    have hsize : (Packet.data seq batch).header.toBytes.length = UdpDatagramHeader.size :=
      UdpDatagramHeader.toBytes_length _
    rw [if_neg hno, hcount]
    refine List.ext_getElem (by simp [Packet.records]) fun i _ hi => ?_
    have hget : batch.records[i]? = some batch.records[i] := List.getElem?_eq_getElem hi
    rw [List.getElem_map, List.getElem_range]
    show OddsUpdate.ofBytes (List.drop _ (_ ++ batch.records.flatMap OddsUpdate.toBytes)) = _
    rw [← List.drop_drop, ← hsize, List.drop_left]
    have hdrop := Packet.ofBytes_drop_flatMap batch.records [] hget
    rw [List.append_nil] at hdrop
    exact hdrop

/-- The records of a row of packets, read off their datagrams. -/
theorem flatMap_batchOf (a : AnnounceRecord) (ps : List Packet) :
    (ps.map (Packet.encode a)).flatMap batchOf = ps.flatMap Packet.records := by
  rw [List.flatMap_map]
  exact congrArg (fun f => ps.flatMap f) (funext fun p => batchOf_encode a p)

end OddsEngine
