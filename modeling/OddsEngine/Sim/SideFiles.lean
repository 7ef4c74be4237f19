/-
  File:      OddsEngine/Sim/SideFiles.lean
  Subject:   The files a simulation writes beside its session, and their readers: the truth file
             (sim/TruthSink.hpp, engine/TruthReader.hpp), the jump timeline and the settlement
             (sim/JumpSink.hpp, sim/SettlementSink.hpp, read by analytics/analyze_bets.cpp).

  The truth file has no header, the other two have one of 24 bytes with a magic and no count. None of
  the three can tell that it was cut off, so their readers take what is there: the records that lie
  whole before the cut (`load_take`, `readJumps_take`, `readSettlement_take`).

  A double goes through its bits and comes out as whatever these stand for.
-/
import OddsEngine.Analytics.AnalyzeBets
import OddsEngine.Tools.ValidateDevig

namespace OddsEngine

open Lib

/-! ## 1. The truth file -/

namespace TruthRecord

variable {F : Type}

/-- `sizeof(TruthRecord)`. -/
def size : Nat := 64

theorem probs_neZero : NeZero 4 := inferInstance

attribute [local instance] probs_neZero in
/-- The struct as it lies in memory, zeroed before it was filled in. -/
def toBytes [Convert F] (r : TruthRecord F) : List UInt8 :=
  u64 r.tick ++ (u16 r.marketId ++ (r.outcomeCount :: (List.replicate 5 0 ++
    (u64 (Convert.bits (r.prob 0)) ++ (u64 (Convert.bits (r.prob 1)) ++
      (u64 (Convert.bits (r.prob 2)) ++ (u64 (Convert.bits (r.prob 3)) ++
        List.replicate 16 0)))))))

def ofBytes [FromBits F] (bs : List UInt8) : TruthRecord F :=
  let (tick, bs) := getU64 bs
  let (marketId, bs) := getU16 bs
  let (outcomeCount, bs) := getU8 bs
  let bs := bs.drop 5
  let (p0, bs) := getU64 bs
  let (p1, bs) := getU64 bs
  let (p2, bs) := getU64 bs
  let (p3, _) := getU64 bs
  { tick, marketId, outcomeCount
    prob := fun i => FromBits.ofBits
      (if i.val = 0 then p0 else if i.val = 1 then p1 else if i.val = 2 then p2 else p3) }

/-- The record, its doubles as their bits stand for. -/
def throughBits [Convert F] [FromBits F] (r : TruthRecord F) : TruthRecord F :=
  { r with prob := fun i => FromBits.ofBits (Convert.bits (r.prob i)) }

theorem toBytes_length [Convert F] (r : TruthRecord F) : r.toBytes.length = size := by
  simp [toBytes, size]

theorem ofBytes_toBytes [Convert F] [FromBits F] (r : TruthRecord F) :
    (ofBytes r.toBytes : TruthRecord F) = r.throughBits := by
  have hskip : ∀ rest : List UInt8, (List.replicate 5 0 ++ rest).drop 5 = rest := fun rest => rfl
  unfold toBytes ofBytes throughBits
  simp only [getU64_u64, getU16_u16, getU8_cons, hskip]
  congr 1
  funext i
  match i with
  | 0 => rfl
  | 1 => rfl
  | 2 => rfl
  | 3 => rfl

end TruthRecord

structure TruthSink (F : Type) where
  file : List UInt8 := []
  /-- `buffer_[0 .. fill_)`. -/
  buffer : List (TruthRecord F) := []

namespace TruthSink

variable {F : Type} [Convert F]

def kBufferRecords : Nat := 4096

def flush (s : TruthSink F) : TruthSink F :=
  if s.buffer.isEmpty then s
  else { file := s.file ++ s.buffer.flatMap TruthRecord.toBytes }

def accept (s : TruthSink F) (r : TruthRecord F) : TruthSink F :=
  let s := { s with buffer := s.buffer ++ [r] }
  if s.buffer.length = kBufferRecords then s.flush else s

def finish (s : TruthSink F) : TruthSink F := s.flush

/-- What is in the file and what is still in the buffer. -/
def bytes (s : TruthSink F) : List UInt8 := s.file ++ s.buffer.flatMap TruthRecord.toBytes

/-- A flush moves bytes and makes none. -/
theorem flush_file (s : TruthSink F) : s.flush.file = s.bytes := by
  unfold flush bytes
  split
  · next h => rw [List.isEmpty_iff.mp h, List.flatMap_nil, List.append_nil]
  · rfl

theorem bytes_flush (s : TruthSink F) : s.flush.bytes = s.bytes := by
  unfold flush bytes
  split
  · rfl
  · exact List.append_nil _

theorem bytes_accept (s : TruthSink F) (r : TruthRecord F) :
    (s.accept r).bytes = s.bytes ++ r.toBytes := by
  have hbuffered : ({ s with buffer := s.buffer ++ [r] } : TruthSink F).bytes =
      s.bytes ++ r.toBytes := by
    unfold bytes
    rw [List.flatMap_append, List.flatMap_singleton, List.append_assoc]
  unfold accept
  dsimp only
  split
  · rw [bytes_flush, hbuffered]
  · exact hbuffered

theorem bytes_foldl (rs : List (TruthRecord F)) (s : TruthSink F) :
    (rs.foldl accept s).bytes = s.bytes ++ rs.flatMap TruthRecord.toBytes := by
  induction rs generalizing s with
  | nil => exact (List.append_nil _).symm
  | cons r rs ih => rw [List.foldl_cons, ih, bytes_accept, List.flatMap_cons, List.append_assoc]

/-- **The truth file of a run**: its records in order. -/
theorem file_finish (rs : List (TruthRecord F)) :
    (finish (rs.foldl accept {})).file = rs.flatMap TruthRecord.toBytes := by
  unfold finish
  rw [flush_file, bytes_foldl]
  rfl

end TruthSink

namespace TruthReader

variable {F : Type}

/-- The constructor, on the bytes of the file at `path`; `none`: it cannot be opened. What it keeps
    is asked with `find`. -/
def load [FromBits F] (path : Bytes) : Option (List UInt8) → Except Bytes (List (TruthRecord F))
  | none => .error (ascii "cannot open truth file: " ++ path)
  | some bytes =>
    let records := readFrames TruthRecord.size TruthRecord.ofBytes bytes
    if records.isEmpty then .error (ascii "truth file is empty: " ++ path) else .ok records

/-- **A truth file cut off anywhere** is read up to the cut, or refused where no record lies before
    it. -/
theorem load_take [Convert F] [FromBits F] (path : Bytes) (rs : List (TruthRecord F)) (cut : Nat) :
    load path (some ((rs.flatMap TruthRecord.toBytes).take cut)) =
      if (rs.take (cut / 64)).isEmpty then .error (ascii "truth file is empty: " ++ path)
      else .ok ((rs.take (cut / 64)).map TruthRecord.throughBits) := by
  have hread := readFrames_take (show 0 < TruthRecord.size by decide) TruthRecord.toBytes_length
    TruthRecord.ofBytes_toBytes rs cut
  unfold load
  dsimp only
  rw [hread, List.isEmpty_map]
  rfl

/-- A key that is found in a file is found in every longer one, and the record is the same. -/
theorem find_take {rs : List (TruthRecord F)} {n : Nat} {tick : UInt64} {m : UInt16}
    {r : TruthRecord F} (h : find (rs.take n) tick m = some r) : find rs tick m = some r := by
  unfold find at h ⊢
  rw [← List.take_append_drop n rs, List.find?_append, h]
  rfl

theorem find_throughBits [Convert F] [FromBits F] (rs : List (TruthRecord F)) (tick : UInt64)
    (m : UInt16) :
    find (rs.map TruthRecord.throughBits) tick m = (find rs tick m).map TruthRecord.throughBits := by
  unfold find
  rw [List.find?_map]
  rfl

end TruthReader

/-! ## 2. The jump timeline and the settlement -/

/-- The two headers: they differ in their magic and version only. -/
def sideHeader (magic : UInt32) (version : UInt16) (seed : UInt64) (markets : UInt32) :
    List UInt8 :=
  u32 magic ++ (u16 version ++ (u16 0 ++ (u64 seed ++ (u32 markets ++ u32 0))))

theorem sideHeader_length (magic : UInt32) (version : UInt16) (seed : UInt64) (markets : UInt32) :
    (sideHeader magic version seed markets).length = 24 := by
  simp [sideHeader]

def kJumpVersion : UInt16 := 1

def kSettlementVersion : UInt16 := 1

/-- `JumpHeader`. -/
def jumpHeader (seed : UInt64) (markets : UInt32) : List UInt8 :=
  sideHeader AnalyzeBets.kJumpMagic kJumpVersion seed markets

/-- `SettlementHeader`. -/
def settlementHeader (seed : UInt64) (markets : UInt32) : List UInt8 :=
  sideHeader AnalyzeBets.kSettlementMagic kSettlementVersion seed markets

namespace AnalyzeBets

def JumpRecord.toBytes (r : JumpRecord) : List UInt8 :=
  u64 r.tick ++ (u16 r.marketId ++ List.replicate 6 0)

def SettlementRecord.toBytes (r : SettlementRecord) : List UInt8 :=
  u16 r.marketId ++ (r.winner :: r.outcomeCount :: List.replicate 4 0)

theorem JumpRecord.toBytes_length (r : JumpRecord) : r.toBytes.length = 16 := by
  simp [JumpRecord.toBytes]

theorem SettlementRecord.toBytes_length (r : SettlementRecord) : r.toBytes.length = 8 := by
  simp [SettlementRecord.toBytes]

theorem JumpRecord.ofBytes_toBytes (r : JumpRecord) : JumpRecord.ofBytes r.toBytes = r := by
  unfold JumpRecord.toBytes JumpRecord.ofBytes
  simp only [getU64_u64, getU16_u16]

theorem SettlementRecord.ofBytes_toBytes (r : SettlementRecord) :
    SettlementRecord.ofBytes r.toBytes = r := by
  unfold SettlementRecord.toBytes SettlementRecord.ofBytes
  simp only [getU16_u16, getU8_cons]

/-- A side file with its magic opens, whatever follows the header. -/
theorem opens_sideHeader {files : Bytes → Option (List UInt8)} {path : Bytes} {magic : UInt32}
    {version : UInt16} {seed : UInt64} {markets : UInt32} {rest : List UInt8}
    (hfile : files path = some (sideHeader magic version seed markets ++ rest)) :
    Opens files path magic (sideHeader magic version seed markets ++ rest) where
  found := hfile
  long := by
    rw [List.length_append, sideHeader_length]
    omega
  magic := by
    unfold sideHeader
    rw [List.append_assoc, getU32_u32]

theorem drop_sideHeader (magic : UInt32) (version : UInt16) (seed : UInt64) (markets : UInt32)
    (rest : List UInt8) : (sideHeader magic version seed markets ++ rest).drop 24 = rest := by
  rw [← sideHeader_length magic version seed markets, List.drop_left]

/-- **A jump file cut off behind its header** is read up to the cut. -/
theorem readJumps_take {files : Bytes → Option (List UInt8)} {path : Bytes} {seed : UInt64}
    {markets : UInt32} {rs : List JumpRecord} {cut : Nat} (hpath : path ≠ [])
    (hfile : files path =
      some (jumpHeader seed markets ++ (rs.flatMap JumpRecord.toBytes).take cut)) :
    readJumps files path = .ok (some (jumpTicks (rs.take (cut / 16)))) := by
  have hread := readFrames_take (show 0 < 16 by decide) JumpRecord.toBytes_length
    JumpRecord.ofBytes_toBytes rs cut
  rw [List.map_id'] at hread
  unfold readJumps
  rw [if_neg hpath, openFile_of_opens (opens_sideHeader hfile)]
  show Except.ok (some (jumpTicks (readFrames 16 JumpRecord.ofBytes (List.drop 24 _)))) = _
  rw [drop_sideHeader, hread]

/-- **So is a settlement file.** -/
theorem readSettlement_take {files : Bytes → Option (List UInt8)} {path : Bytes} {seed : UInt64}
    {markets : UInt32} {rs : List SettlementRecord} {cut : Nat} (hpath : path ≠ [])
    (hfile : files path =
      some (settlementHeader seed markets ++ (rs.flatMap SettlementRecord.toBytes).take cut)) :
    readSettlement files path = .ok (some (winners (rs.take (cut / 8)))) := by
  have hread := readFrames_take (show 0 < 8 by decide) SettlementRecord.toBytes_length
    SettlementRecord.ofBytes_toBytes rs cut
  rw [List.map_id'] at hread
  unfold readSettlement
  rw [if_neg hpath, openFile_of_opens (opens_sideHeader hfile)]
  show Except.ok (some (winners (readFrames 8 SettlementRecord.ofBytes (List.drop 24 _)))) = _
  rw [drop_sideHeader, hread]

end AnalyzeBets

end OddsEngine
