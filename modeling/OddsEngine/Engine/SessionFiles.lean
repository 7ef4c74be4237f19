/-
  File:      OddsEngine/Engine/SessionFiles.lean
  Subject:   Session files from the writer to the reader: finished ones, and those of a run that
             stopped (sim/OutputSink.hpp, engine/SessionReader.hpp).

  The bytes go out in order, the count last and over the zero of the first write. So whatever is on
  disk before the count is a front of the header with no count and the records (`LeftBehind`), and
  the reader refuses it: too short for a header, or no count.

  * `session_files` -- both halves: a finished file of at least one and fewer than 2^64 records is
    read back as it was written, and what a stopped run leaves is refused;
  * `session_files_limits` -- why the count must fit its 64 bits, and why the run must stop before
    the first byte of it: the zero is what the reader goes by.
-/
import OddsEngine.Engine.SessionReader

namespace OddsEngine

open Lib

namespace FileSink

/-- What the writer has handed to `fwrite` when the records `rs` were accepted and `finish()` has
    flushed them. -/
def flushed (header : SessionHeader) (rs : List OddsUpdate) : List UInt8 :=
  (rs.foldl accept (start header)).flush.file

theorem flushed_eq (header : SessionHeader) (rs : List OddsUpdate) :
    flushed header rs = { header with recordCount := 0 }.toBytes ++ rs.flatMap OddsUpdate.toBytes := by
  have h : Written header (rs.foldl accept (start header)) rs :=
    written_foldl rs (written_start header)
  rw [flushed, flush_file, h.bytes]

/-- The file of a run over `rs` that stopped before it came to the count: it had accepted some of
    the records, and of what it had handed on a front reached the file. -/
def LeftBehind (header : SessionHeader) (rs : List OddsUpdate) (file : List UInt8) : Prop :=
  ∃ n, file <+: flushed header (rs.take n)

end FileSink

namespace SessionReader

/-- A front of a file with no count in its header is refused. -/
theorem refused_of_prefix (path : Bytes) {h : SessionHeader} (hh : WellFormed h)
    (hcount : h.recordCount = 0) {bs file : List UInt8} (hfile : file <+: h.toBytes ++ bs) :
    ∃ e, start path (some file) = .error e := by
  by_cases hlong : file.length < SessionHeader.size
  · refine ⟨ascii "session file too short for header", ?_⟩
    unfold start
    dsimp only
    rw [if_pos hlong]
  · have hheader : h.toBytes <+: file :=
      List.prefix_of_prefix_length_le (List.prefix_append _ _) hfile
        (by rw [SessionHeader.toBytes_length]; exact Nat.not_lt.mp hlong)
    obtain ⟨rest, rfl⟩ := hheader
    exact ⟨_, (start_toBytes path hh rest).trans (if_pos hcount)⟩

/-- **What a stopped run leaves is refused.** -/
theorem leftBehind_refused (path : Bytes) {h : SessionHeader} (hh : WellFormed h)
    {rs : List OddsUpdate} {file : List UInt8} (hfile : FileSink.LeftBehind h rs file) :
    ∃ e, start path (some file) = .error e := by
  obtain ⟨n, hn⟩ := hfile
  rw [FileSink.flushed_eq] at hn
  have hzero : WellFormed { h with recordCount := 0 } := ⟨hh.magic, hh.version, hh.recordSize⟩
  exact refused_of_prefix path hzero rfl hn

/-- A finished file reads back: the records in order, then `false`, under the header as it was but
    for the number of records in it. -/
def ReadsBack (path : Bytes) (h : SessionHeader) (rs : List OddsUpdate) (file : List UInt8) : Prop :=
  ∃ s t, start path (some file) = .ok s ∧ Delivers next s rs t ∧
    s.header = { h with recordCount := s.header.recordCount } ∧
    s.header.recordCount.toNat = rs.length ∧ t.header = s.header

/-- **Session files, finished and not**: a file of at least one record, and fewer than 2^64, reads
    back; a file whose run stopped before the count is refused. -/
theorem session_files (path : Bytes) {h : SessionHeader} (hh : WellFormed h)
    (rs : List OddsUpdate) :
    (rs ≠ [] → rs.length < 2 ^ 64 → ReadsBack path h rs (FileSink.fileOf h rs)) ∧
      ∀ file, FileSink.LeftBehind h rs file → ∃ e, start path (some file) = .error e := by
  refine ⟨fun hne hlen => ?_, fun file hfile => leftBehind_refused path hh hfile⟩
  obtain ⟨s, t, hstart, hdel, hheader, hend⟩ := delivers_fileOf path hh hne hlen
  refine ⟨s, t, hstart, hdel, ?_, ?_, hend⟩
  · rw [hheader]
  · rw [hheader]
    exact UInt64.toNat_ofNat_of_lt' hlen

/-- A run of two records: read back when finished, refused when it stopped inside the second. -/
theorem session_files_two :
    ReadsBack [] (runHeader 42 1 1 1) [{ seqNo := 0 }, { seqNo := 1 }]
        (FileSink.fileOf (runHeader 42 1 1 1) [{ seqNo := 0 }, { seqNo := 1 }]) ∧
      ∃ e, start [] (some ((FileSink.flushed (runHeader 42 1 1 1)
        [{ seqNo := 0 }, { seqNo := 1 }]).take 150)) = .error e := by
  obtain ⟨hround, hstop⟩ := @session_files [] (runHeader 42 1 1 1) ⟨rfl, rfl, rfl⟩
    [{ seqNo := 0 }, { seqNo := 1 }]
  exact ⟨hround (by simp) (by decide), hstop _ ⟨2, List.take_prefix _ _⟩⟩

/-- The first byte of the count of 257 records, over the zero. -/
theorem overwrite_torn (h : SessionHeader) (bs : List UInt8) :
    overwrite ({ h with recordCount := 0 }.toBytes ++ bs) SessionHeader.recordCountOffset
        ((u64 257).take 1) = { h with recordCount := 1 }.toBytes ++ bs := by
  have hzero : ∀ rest : List UInt8, u64 0 ++ rest = 0 :: ((u64 0).tail ++ rest) := fun _ => rfl
  have hone : ∀ rest : List UInt8, u64 1 ++ rest = 1 :: ((u64 0).tail ++ rest) := fun _ => rfl
  have hbyte : (u64 257).take 1 = [1] := by decide
  obtain ⟨front, hfront, hbytes⟩ := FileSink.toBytes_around_count h
  unfold overwrite
  rw [hbyte, hbytes 0, hbytes 1, hzero, hone, ← hfront, List.take_left, ← List.drop_drop,
    List.drop_left, List.append_assoc]
  rfl

/-- Neither bound can go. A run of 2^64 records, finished, is refused like one that stopped; and
    of a run of 257 records that stopped behind the first byte of the count, the file is taken for
    one of a single record. -/
theorem session_files_limits :
    (¬ ∀ (h : SessionHeader) (rs : List OddsUpdate), WellFormed h → rs ≠ [] →
      ReadsBack [] h rs (FileSink.fileOf h rs)) ∧
    ∃ s, start [] (some (overwrite
      (FileSink.flushed (runHeader 42 1 1 1) (List.replicate 257 {}))
        SessionHeader.recordCountOffset ((u64 257).take 1))) = .ok s ∧ s.header.recordCount = 1 := by
  constructor
  · intro hall
    have hlen : (List.replicate (2 ^ 64) ({} : OddsUpdate)).length.toUInt64 = 0 := by
      rw [List.length_replicate]
      rfl
    have hne : List.replicate (2 ^ 64) ({} : OddsUpdate) ≠ [] := by
      rw [Ne, List.replicate_eq_nil_iff]
      decide
    obtain ⟨s, t, hstart, _⟩ := hall (runHeader 42 1 1 1) _ ⟨rfl, rfl, rfl⟩ hne
    rw [start_fileOf_of_zero [] ⟨rfl, rfl, rfl⟩ hlen] at hstart
    cases hstart
  · rw [FileSink.flushed_eq, overwrite_torn, start_toBytes [] ⟨rfl, rfl, rfl⟩, if_neg (by decide)]
    exact ⟨_, rfl, rfl⟩

end SessionReader

end OddsEngine
