/-
  File:      OddsEngine/Sim/FileSink.lean
  Subject:   The writer of session files (sim/OutputSink.hpp).

  The header goes out first, with a record count of zero; records are buffered and leave 4096 at a
  time; `finish` writes the rest and then the count over the zero. `fileOf_eq` says what the file
  of a run is: the header with the number of records in it, and the records in order.

  The file is the bytes written so far, on a disk with room for them.
-/
import OddsEngine.Proto.Messages

namespace OddsEngine

open Lib

structure FileSink where
  file : List UInt8
  /-- `buffer_[0 .. fill_)`. -/
  buffer : List OddsUpdate := []
  recordCount : UInt64 := 0

/-- The header the simulator writes for a run (`main` of sim/main.cpp). -/
def runHeader (seed : UInt64) (markets books : UInt32) (ticks : UInt64) : SessionHeader :=
  { magic := kSessionMagic, version := kSessionVersion, recordSize := OddsUpdate.size.toUInt16,
    seed, markets, books, ticks }

/-- `fseek` to `offset`, and `fwrite` over what is there. -/
def overwrite (file : List UInt8) (offset : Nat) (bytes : List UInt8) : List UInt8 :=
  file.take offset ++ bytes ++ file.drop (offset + bytes.length)

/-- Where as many bytes go as are written, the rest of the file stays. -/
theorem overwrite_between {front old new : List UInt8} {offset : Nat} (hfront : front.length = offset)
    (hlen : old.length = new.length) (back : List UInt8) :
    overwrite (front ++ (old ++ back)) offset new = front ++ (new ++ back) := by
  unfold overwrite
  rw [← hfront, List.take_left, ← List.drop_drop, List.drop_left, ← hlen, List.drop_left,
    List.append_assoc]

namespace FileSink

def kBufferRecords : Nat := 4096

/-- The constructor. The record count is patched in `finish`; a crashed run leaves it zero. -/
def start (header : SessionHeader) : FileSink :=
  { file := { header with recordCount := 0 }.toBytes }

def flush (s : FileSink) : FileSink :=
  if s.buffer.isEmpty then s
  else { s with file := s.file ++ s.buffer.flatMap OddsUpdate.toBytes, buffer := [] }

def accept (s : FileSink) (update : OddsUpdate) : FileSink :=
  let s := { s with buffer := s.buffer ++ [update] }
  let s := if s.buffer.length = kBufferRecords then s.flush else s
  { s with recordCount := s.recordCount + 1 }

def finish (s : FileSink) : FileSink :=
  let s := s.flush
  { s with file := overwrite s.file SessionHeader.recordCountOffset (u64 s.recordCount) }

/-- The file of a run: every record accepted, then `finish()`. -/
def fileOf (header : SessionHeader) (rs : List OddsUpdate) : List UInt8 :=
  (finish (rs.foldl accept (start header))).file

/-- What the writer keeps: file and buffer together are the header without its count and the
    records `rs`; the buffer is never full between two calls. -/
structure Written (header : SessionHeader) (s : FileSink) (rs : List OddsUpdate) : Prop where
  bytes : s.file ++ s.buffer.flatMap OddsUpdate.toBytes =
    { header with recordCount := 0 }.toBytes ++ rs.flatMap OddsUpdate.toBytes
  count : s.recordCount = rs.length.toUInt64
  room : s.buffer.length < kBufferRecords

theorem written_start (header : SessionHeader) : Written header (start header) [] where
  bytes := rfl
  count := rfl
  room := Nat.zero_lt_succ _

@[simp] theorem flush_buffer (s : FileSink) : s.flush.buffer = [] := by
  unfold flush
  split
  · next h => exact List.isEmpty_iff.mp h
  · rfl

@[simp] theorem flush_recordCount (s : FileSink) : s.flush.recordCount = s.recordCount := by
  unfold flush
  split
  · rfl
  · rfl

/-- A flush moves the buffer into the file. -/
theorem flush_file (s : FileSink) :
    s.flush.file = s.file ++ s.buffer.flatMap OddsUpdate.toBytes := by
  unfold flush
  split
  · next h => rw [List.isEmpty_iff.mp h, List.flatMap_nil, List.append_nil]
  · rfl

theorem written_accept {header : SessionHeader} {s : FileSink} {rs : List OddsUpdate}
    (h : Written header s rs) (u : OddsUpdate) : Written header (s.accept u) (rs ++ [u]) := by
  have hbytes : s.file ++ (s.buffer ++ [u]).flatMap OddsUpdate.toBytes =
      { header with recordCount := 0 }.toBytes ++ (rs ++ [u]).flatMap OddsUpdate.toBytes := by
    rw [List.flatMap_append, List.flatMap_append, ← List.append_assoc, h.bytes, List.append_assoc]
  have hcount : s.recordCount + 1 = (rs ++ [u]).length.toUInt64 := by
    rw [h.count, List.length_append, List.length_singleton]
    exact (UInt64.ofNat_add _ _).symm
  have hlen : (s.buffer ++ [u]).length ≤ kBufferRecords := by
    rw [List.length_append, List.length_singleton]
    exact h.room
  unfold accept
  dsimp only
  by_cases hfull : (s.buffer ++ [u]).length = kBufferRecords
  · rw [if_pos hfull]
    refine ⟨?_, ?_, ?_⟩
    · dsimp only
      rw [flush_buffer, flush_file, List.flatMap_nil, List.append_nil]
      exact hbytes
    · dsimp only
      rw [flush_recordCount]
      exact hcount
    · dsimp only
      rw [flush_buffer]
      decide
  · rw [if_neg hfull]
    exact ⟨hbytes, hcount, lt_of_le_of_ne hlen hfull⟩

theorem written_foldl {header : SessionHeader} {s : FileSink} {rs : List OddsUpdate}
    (us : List OddsUpdate) (h : Written header s rs) :
    Written header (us.foldl accept s) (rs ++ us) := by
  induction us generalizing s rs with
  | nil =>
    rw [List.append_nil]
    exact h
  | cons u us ih =>
    have hus := ih (written_accept h u)
    rw [List.append_assoc] at hus
    exact hus

/-- The count is 8 bytes of the header, with 32 bytes before it that do not depend on it. -/
theorem toBytes_around_count (header : SessionHeader) :
    ∃ front : List UInt8, front.length = SessionHeader.recordCountOffset ∧
      ∀ (m : UInt64) (bs : List UInt8), { header with recordCount := m }.toBytes ++ bs =
        front ++ (u64 m ++ (List.ofFn header.pad ++ bs)) := by
  refine ⟨u32 header.magic ++ (u16 header.version ++ (u16 header.recordSize ++
    (u64 header.seed ++ (u32 header.markets ++ (u32 header.books ++ u64 header.ticks))))), ?_, ?_⟩
  · simp [SessionHeader.recordCountOffset]
  · intro m bs
    simp [SessionHeader.toBytes, List.append_assoc]

/-- Writing there changes the count and nothing else. -/
theorem overwrite_recordCount (header : SessionHeader) (n : UInt64) (bs : List UInt8) :
    overwrite (header.toBytes ++ bs) SessionHeader.recordCountOffset (u64 n) =
      { header with recordCount := n }.toBytes ++ bs := by
  obtain ⟨front, hfront, hbytes⟩ := toBytes_around_count header
  have hold : header.toBytes ++ bs =
      front ++ (u64 header.recordCount ++ (List.ofFn header.pad ++ bs)) :=
    hbytes header.recordCount bs
  have hwidth : (u64 n).length = (u64 header.recordCount).length := by
    rw [u64_length, u64_length]
  unfold overwrite
  rw [hold, hbytes n, ← hfront, List.take_left, ← List.drop_drop, List.drop_left, hwidth,
    List.drop_left, List.append_assoc]

/-- **The file of a run** is the header with the number of records, and the records in order. -/
theorem fileOf_eq (header : SessionHeader) (rs : List OddsUpdate) :
    fileOf header rs =
      { header with recordCount := rs.length.toUInt64 }.toBytes ++ rs.flatMap OddsUpdate.toBytes := by
  have h : Written header (rs.foldl accept (start header)) rs :=
    written_foldl rs (written_start header)
  unfold fileOf finish
  dsimp only
  rw [flush_file, flush_recordCount, h.bytes, h.count, overwrite_recordCount]

end FileSink

end OddsEngine
