/-
  File:      OddsEngine/Engine/BetLog.lean
  Subject:   The bet log's file (engine/BetLog.hpp).

  The writer is the session writer's twin: header first with a count of zero, records in buffers
  of 4096, and `finish` patches the count. The header also carries the seed of the session the bets
  were made on. `fileOf_eq` is the file of a run that finished, `flushed_eq` what a run has written
  that did not.
-/
import OddsEngine.Engine.Market
import OddsEngine.Sim.FileSink

namespace OddsEngine

open Lib

/-- `memcpy` into a double. -/
class FromBits (F : Type) where
  ofBits : UInt64 → F

attribute [local instance] two_atLeastTwo in
/-- The number a double's 64 bits stand for; infinities and what is not a number read as zero. -/
noncomputable instance instFromBitsReal : FromBits ℝ where
  ofBits b :=
    let sign : ℝ := if b >>> 63 = 0 then 1 else -1
    let exponent := ((b >>> 52) &&& 0x7FF).toNat
    let fraction := (b &&& 0xFFFFFFFFFFFFF).toNat
    if exponent = 2047 then 0
    else if exponent = 0 then sign * fraction * 2 ^ (-1074 : Int)
    else sign * (2 ^ 52 + fraction) * 2 ^ ((exponent : Int) - 1075)

/-! ## 1. The format -/

structure BetLogHeader where
  magic : UInt32 := 0
  version : UInt16 := 0
  recordSize : UInt16 := 0
  /-- The session seed this bet log was produced from. -/
  seed : UInt64 := 0
  /-- Patched in `finish`. -/
  recordCount : UInt64 := 0
  deriving DecidableEq

/-- 'KETS'. -/
def kBetLogMagic : UInt32 := 0x5354454B

def kBetLogVersion : UInt16 := 1

namespace BetLogHeader

/-- `sizeof(BetLogHeader)`. -/
def size : Nat := 24

/-- `offsetof(BetLogHeader, record_count)`. -/
def recordCountOffset : Nat := 16

def toBytes (h : BetLogHeader) : List UInt8 :=
  u32 h.magic ++ (u16 h.version ++ (u16 h.recordSize ++ (u64 h.seed ++ (u64 h.recordCount ++ []))))

def ofBytes (bs : List UInt8) : BetLogHeader :=
  let (magic, bs) := getU32 bs
  let (version, bs) := getU16 bs
  let (recordSize, bs) := getU16 bs
  let (seed, bs) := getU64 bs
  let (recordCount, _) := getU64 bs
  { magic, version, recordSize, seed, recordCount }

@[simp] theorem toBytes_length (h : BetLogHeader) : h.toBytes.length = size := by
  simp [toBytes, size]

@[simp] theorem ofBytes_toBytes (h : BetLogHeader) (bs : List UInt8) :
    ofBytes (h.toBytes ++ bs) = h := by
  simp only [toBytes, ofBytes, List.append_assoc, List.nil_append, getU64_u64, getU16_u16,
    getU32_u32]

end BetLogHeader

namespace BetRecord

variable {F : Type}

/-- `sizeof(BetRecord)`. -/
def size : Nat := 40

/-- The struct as it lies in memory. The engine zeroes it before it fills it in, padding
    included. -/
def toBytes [Convert F] (r : BetRecord F) : List UInt8 :=
  u64 r.simTimestampNs ++ (u16 r.marketId ++ (r.outcome :: (List.replicate 5 0 ++
    (u64 (Convert.bits r.stake) ++ (u32 r.oddsMilliTaken ++ (List.replicate 4 0 ++
      (u64 (Convert.bits r.fairProb) ++ [])))))))

def ofBytes [FromBits F] (bs : List UInt8) : BetRecord F :=
  let (simTimestampNs, bs) := getU64 bs
  let (marketId, bs) := getU16 bs
  let (outcome, bs) := getU8 bs
  let bs := bs.drop 5
  let (stake, bs) := getU64 bs
  let (oddsMilliTaken, bs) := getU32 bs
  let bs := bs.drop 4
  let (fairProb, _) := getU64 bs
  { simTimestampNs, marketId, outcome, stake := FromBits.ofBits stake, oddsMilliTaken,
    fairProb := FromBits.ofBits fairProb }

@[simp] theorem toBytes_length [Convert F] (r : BetRecord F) : r.toBytes.length = size := by
  simp [toBytes, size]

/-- A record survives the way through the file but for its doubles, which come out as whatever
    their bits stand for. -/
theorem ofBytes_toBytes [Convert F] [FromBits F] (r : BetRecord F) (bs : List UInt8) :
    (ofBytes (r.toBytes ++ bs) : BetRecord F) =
      { r with stake := FromBits.ofBits (Convert.bits r.stake)
               fairProb := FromBits.ofBits (Convert.bits r.fairProb) } := by
  have hskip : ∀ (n : Nat) (rest : List UInt8), (List.replicate n 0 ++ rest).drop n = rest := by
    intro n rest
    rw [List.drop_append_of_le_length (by simp)]
    simp
  simp only [toBytes, ofBytes, List.append_assoc, List.cons_append, List.nil_append, getU64_u64,
    getU16_u16, getU32_u32, getU8_cons, hskip]

end BetRecord

/-! ## 2. The writer -/

structure BetLogSink (F : Type) where
  file : List UInt8
  /-- `buffer_[0 .. fill_)`. -/
  buffer : List (BetRecord F) := []
  recordCount : UInt64 := 0

namespace BetLogSink

variable {F : Type}

def kBufferRecords : Nat := 4096

/-- The header a log starts with. -/
def startHeader (seed : UInt64) : BetLogHeader :=
  { magic := kBetLogMagic, version := kBetLogVersion, recordSize := BetRecord.size.toUInt16, seed }

/-- The constructor. -/
def start (seed : UInt64) : BetLogSink F := { file := (startHeader seed).toBytes }

variable [Convert F]

def flush (s : BetLogSink F) : BetLogSink F :=
  if s.buffer.isEmpty then s
  else { s with file := s.file ++ s.buffer.flatMap BetRecord.toBytes, buffer := [] }

def accept (s : BetLogSink F) (r : BetRecord F) : BetLogSink F :=
  let s := { s with buffer := s.buffer ++ [r] }
  let s := if s.buffer.length = kBufferRecords then s.flush else s
  { s with recordCount := s.recordCount + 1 }

def finish (s : BetLogSink F) : BetLogSink F :=
  let s := s.flush
  { s with file := overwrite s.file BetLogHeader.recordCountOffset (u64 s.recordCount) }

/-- The log of a run: every bet accepted, then `finish()`. -/
def fileOf (seed : UInt64) (rs : List (BetRecord F)) : List UInt8 :=
  (finish (rs.foldl accept (start seed))).file

/-- What the writer keeps: file and buffer together are the header without its count and the
    records `rs`. -/
structure Written (seed : UInt64) (s : BetLogSink F) (rs : List (BetRecord F)) : Prop where
  bytes : s.file ++ s.buffer.flatMap BetRecord.toBytes =
    (startHeader seed).toBytes ++ rs.flatMap BetRecord.toBytes
  count : s.recordCount = rs.length.toUInt64

theorem flush_file (s : BetLogSink F) :
    s.flush.file = s.file ++ s.buffer.flatMap BetRecord.toBytes := by
  unfold flush
  split
  · next h => rw [List.isEmpty_iff.mp h, List.flatMap_nil, List.append_nil]
  · rfl

@[simp] theorem flush_recordCount (s : BetLogSink F) : s.flush.recordCount = s.recordCount := by
  unfold flush
  split
  · rfl
  · rfl

/-- A flush only moves bytes. -/
theorem flush_bytes (s : BetLogSink F) :
    s.flush.file ++ s.flush.buffer.flatMap BetRecord.toBytes =
      s.file ++ s.buffer.flatMap BetRecord.toBytes := by
  have hempty : s.flush.buffer = [] := by
    unfold flush
    split
    · next h => exact List.isEmpty_iff.mp h
    · rfl
  rw [flush_file, hempty, List.flatMap_nil, List.append_nil]

theorem Written.accept {seed : UInt64} {s : BetLogSink F} {rs : List (BetRecord F)}
    (h : Written seed s rs) (r : BetRecord F) : Written seed (s.accept r) (rs ++ [r]) := by
  have hbytes : s.file ++ (s.buffer ++ [r]).flatMap BetRecord.toBytes =
      (startHeader seed).toBytes ++ (rs ++ [r]).flatMap BetRecord.toBytes := by
    rw [List.flatMap_append, List.flatMap_append, ← List.append_assoc, h.bytes, List.append_assoc]
  have hcount : s.recordCount + 1 = (rs ++ [r]).length.toUInt64 := by
    rw [h.count, List.length_append, List.length_singleton]
    exact (UInt64.ofNat_add _ _).symm
  unfold BetLogSink.accept
  dsimp only
  split
  · exact ⟨(flush_bytes _).trans hbytes, (congrArg (· + 1) (flush_recordCount _)).trans hcount⟩
  · exact ⟨hbytes, hcount⟩

theorem written_foldl {seed : UInt64} {s : BetLogSink F} {rs : List (BetRecord F)}
    (us : List (BetRecord F)) (h : Written seed s rs) :
    Written seed (us.foldl accept s) (rs ++ us) := by
  induction us generalizing s rs with
  | nil =>
    rw [List.append_nil]
    exact h
  | cons u us ih =>
    have hus := ih (h.accept u)
    rw [List.append_assoc] at hus
    exact hus

theorem written_start (seed : UInt64) : Written seed (start seed : BetLogSink F) [] := ⟨rfl, rfl⟩

/-- What has been written when the bets `rs` were accepted and `finish()` has flushed them. -/
theorem flushed_eq (seed : UInt64) (rs : List (BetRecord F)) :
    (rs.foldl accept (start seed)).flush.file =
      (startHeader seed).toBytes ++ rs.flatMap BetRecord.toBytes := by
  have h : Written seed (rs.foldl accept (start seed)) rs := written_foldl rs (written_start seed)
  rw [flush_file, h.bytes]

/-- **The log of a run** is the header with the number of bets, and the bets in order. -/
theorem fileOf_eq (seed : UInt64) (rs : List (BetRecord F)) :
    fileOf seed rs = { startHeader seed with recordCount := rs.length.toUInt64 }.toBytes ++
      rs.flatMap BetRecord.toBytes := by
  have h : Written seed (rs.foldl accept (start seed)) rs := written_foldl rs (written_start seed)
  let front : List UInt8 := u32 kBetLogMagic ++ (u16 kBetLogVersion ++
    (u16 BetRecord.size.toUInt16 ++ u64 seed))
  have hfront : front.length = BetLogHeader.recordCountOffset := by
    simp [front, BetLogHeader.recordCountOffset]
  have hbytes : ∀ (m : UInt64) (bs : List UInt8),
      { startHeader seed with recordCount := m }.toBytes ++ bs = front ++ (u64 m ++ bs) := by
    intro m bs
    simp [BetLogHeader.toBytes, startHeader, front, List.append_assoc]
  have hold : (startHeader seed).toBytes ++ rs.flatMap BetRecord.toBytes =
      front ++ (u64 0 ++ rs.flatMap BetRecord.toBytes) := hbytes 0 _
  have hwidth : ∀ m : UInt64, (u64 m).length = (u64 0).length := by
    intro m
    rw [u64_length, u64_length]
  unfold fileOf finish
  dsimp only
  rw [flushed_eq, flush_recordCount, h.count, hold, hbytes]
  unfold overwrite
  rw [← hfront, List.take_left, ← List.drop_drop, List.drop_left, hwidth, List.drop_left,
    List.append_assoc]

end BetLogSink

end OddsEngine
