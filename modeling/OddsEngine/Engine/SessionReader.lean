/-
  File:      OddsEngine/Engine/SessionReader.lean
  Subject:   The reader of session files (engine/SessionReader.hpp).

  The constructor checks the header; `next` reads one record after the other, as many as the
  header says. A file written by the writer is read back record for record (`delivers_fileOf`),
  provided its count fits 64 bits: a run whose count comes out as zero is taken for one that
  crashed (`start_fileOf_of_zero`).
-/
import OddsEngine.Engine.Command
import OddsEngine.Lib.Source
import OddsEngine.Lib.Words
import OddsEngine.Sim.FileSink

namespace OddsEngine

open Lib

structure SessionReader where
  /-- What the file still holds. -/
  file : List UInt8
  header : SessionHeader
  read : UInt64 := 0

namespace SessionReader

/-- The constructor, on the bytes of the file at `path`; `none`: it cannot be opened. -/
def start (path : Bytes) : Option (List UInt8) → Except Bytes SessionReader
  | none => .error (ascii "cannot open session file: " ++ path)
  | some bytes =>
    let header := SessionHeader.ofBytes bytes
    if bytes.length < SessionHeader.size then
      .error (ascii "session file too short for header")
    else if header.magic ≠ kSessionMagic then .error (ascii "not a session file (bad magic)")
    else if header.version ≠ kSessionVersion then .error (ascii "unsupported session version")
    else if header.recordSize ≠ OddsUpdate.size.toUInt16 then .error (ascii "record size mismatch")
    else if header.recordCount = 0 then
      .error (ascii "record count is zero: session was truncated")
    else .ok { file := bytes.drop SessionHeader.size, header }

def next (s : SessionReader) : Except Bytes (Option OddsUpdate × SessionReader) :=
  if s.header.recordCount ≤ s.read then .ok (none, s)
  else if s.file.length < OddsUpdate.size then
    .error (ascii "session file truncated before declared record count")
  else
    .ok (some (OddsUpdate.ofBytes s.file),
      { s with file := s.file.drop OddsUpdate.size, read := s.read + 1 })

/-- A record handed out is gone from the file. -/
theorem next_shrinks {s t : SessionReader} {u : OddsUpdate} (h : next s = .ok (some u, t)) :
    t.file.length < s.file.length := by
  unfold next at h
  split at h
  · cases h
  · next hmore =>
    split at h
    · cases h
    · next hlong =>
      cases h
      have hsize : OddsUpdate.size = 64 := rfl
      show (s.file.drop OddsUpdate.size).length < s.file.length
      rw [List.length_drop]
      omega

/-- `while (reader.next(u))`, as the tools read a session: every record, or the exception. -/
def readAll (s : SessionReader) : Except Bytes (List OddsUpdate) :=
  match _ : s.next with
  | .error e => .error e
  | .ok (none, _) => .ok []
  | .ok (some u, t) => (t.readAll).map (u :: ·)
  termination_by s.file.length
  decreasing_by exact next_shrinks ‹_›

/-- The loop ends without an exception exactly on what the source delivers. -/
theorem readAll_eq_ok_iff {s : SessionReader} {rs : List OddsUpdate} :
    s.readAll = .ok rs ↔ ∃ t, Delivers next s rs t := by
  fun_induction readAll s generalizing rs with
  | case1 s e h =>
    constructor
    · intro he
      cases he
    · rintro ⟨t, hd⟩
      cases hd with
      | done hn => rw [h] at hn; cases hn
      | more hn _ => rw [h] at hn; cases hn
  | case2 s t h =>
    constructor
    · intro he
      cases he
      exact ⟨t, .done h⟩
    · rintro ⟨t, hd⟩
      cases hd with
      | done hn => rfl
      | more hn _ => rw [h] at hn; cases hn
  | case3 s u t h ih =>
    constructor
    · intro he
      cases hrest : t.readAll with
      | error e => rw [hrest] at he; cases he
      | ok us =>
        rw [hrest] at he
        cases he
        obtain ⟨t', hd⟩ := ih.mp hrest
        exact ⟨t', .more h hd⟩
    · rintro ⟨t', hd⟩
      cases hd with
      | done hn => rw [h] at hn; cases hn
      | more hn hrest =>
        rw [h] at hn
        cases hn
        rw [ih.mpr ⟨_, hrest⟩]
        rfl

/-- A header the reader accepts, but for its count. -/
structure WellFormed (h : SessionHeader) : Prop where
  magic : h.magic = kSessionMagic
  version : h.version = kSessionVersion
  recordSize : h.recordSize = OddsUpdate.size.toUInt16

/-- The header checks, on a file that has a header. -/
theorem start_toBytes (path : Bytes) {h : SessionHeader} (hh : WellFormed h) (bs : List UInt8) :
    start path (some (h.toBytes ++ bs)) =
      if h.recordCount = 0 then .error (ascii "record count is zero: session was truncated")
      else .ok { file := bs, header := h } := by
  have hlong : ¬ (h.toBytes ++ bs).length < SessionHeader.size := by
    rw [List.length_append, SessionHeader.toBytes_length]
    omega
  have hdrop : (h.toBytes ++ bs).drop SessionHeader.size = bs := by
    rw [← SessionHeader.toBytes_length h, List.drop_left]
  unfold start
  dsimp only
  rw [SessionHeader.ofBytes_toBytes, hdrop, if_neg hlong, if_neg (fun hne => hne hh.magic),
    if_neg (fun hne => hne hh.version), if_neg (fun hne => hne hh.recordSize)]

/-- The records still to come are read in order. -/
theorem delivers_records (rs : List OddsUpdate) {s : SessionReader}
    (hfile : s.file = rs.flatMap OddsUpdate.toBytes)
    (hcount : s.read.toNat + rs.length = s.header.recordCount.toNat) :
    ∃ t, Delivers next s rs t ∧ t.header = s.header := by
  induction rs generalizing s with
  | nil =>
    refine ⟨s, .done ?_, rfl⟩
    unfold next
    rw [if_pos]
    rw [UInt64.le_iff_toNat_le]
    rw [List.length_nil] at hcount
    omega
  | cons u rs ih =>
    rw [List.length_cons] at hcount
    rw [List.flatMap_cons] at hfile
    have hmore : ¬ s.header.recordCount ≤ s.read := by
      rw [UInt64.le_iff_toNat_le]
      omega
    have hlong : ¬ s.file.length < OddsUpdate.size := by
      rw [hfile, List.length_append, OddsUpdate.toBytes_length]
      omega
    have hdrop : s.file.drop OddsUpdate.size = rs.flatMap OddsUpdate.toBytes := by
      rw [hfile, ← OddsUpdate.toBytes_length u, List.drop_left]
    have hread : (s.read + 1).toNat = s.read.toNat + 1 := by
      have hlt := s.header.recordCount.toNat_lt
      exact toNat_succ_of_lt (by omega)
    obtain ⟨t, hdel, hheader⟩ :=
      @ih { s with file := s.file.drop OddsUpdate.size, read := s.read + 1 } hdrop (by
        show (s.read + 1).toNat + rs.length = s.header.recordCount.toNat
        omega)
    refine ⟨t, .more ?_ hdel, hheader⟩
    unfold next
    rw [if_neg hmore, if_neg hlong, hfile, OddsUpdate.ofBytes_toBytes]

/-- The constructor, on the file of a run. -/
theorem start_fileOf (path : Bytes) {h : SessionHeader} (hh : WellFormed h)
    (rs : List OddsUpdate) :
    start path (some (FileSink.fileOf h rs)) =
      if rs.length.toUInt64 = 0 then
        .error (ascii "record count is zero: session was truncated")
      else .ok { file := rs.flatMap OddsUpdate.toBytes
                 header := { h with recordCount := rs.length.toUInt64 } } := by
  have hcounted : WellFormed { h with recordCount := rs.length.toUInt64 } :=
    ⟨hh.magic, hh.version, hh.recordSize⟩
  rw [FileSink.fileOf_eq, start_toBytes path hcounted]

/-- **What was written is read back**: the file of a run of fewer than 2^64 records, and at least
    one, gives these records and the run's header. -/
theorem delivers_fileOf (path : Bytes) {h : SessionHeader} (hh : WellFormed h)
    {rs : List OddsUpdate} (hne : rs ≠ []) (hlen : rs.length < 2 ^ 64) :
    ∃ s t, start path (some (FileSink.fileOf h rs)) = .ok s ∧ Delivers next s rs t ∧
      s.header = { h with recordCount := rs.length.toUInt64 } ∧ t.header = s.header := by
  have hcount : rs.length.toUInt64.toNat = rs.length := UInt64.toNat_ofNat_of_lt' hlen
  have hpos : 0 < rs.length := List.length_pos_of_ne_nil hne
  have hnz : ¬ rs.length.toUInt64 = 0 := by
    intro hz
    rw [hz] at hcount
    have hzero : (0 : UInt64).toNat = 0 := rfl
    omega
  obtain ⟨t, hdel, hheader⟩ := @delivers_records rs
    { file := rs.flatMap OddsUpdate.toBytes
      header := { h with recordCount := rs.length.toUInt64 } } rfl (by
      show 0 + rs.length = rs.length.toUInt64.toNat
      omega)
  refine ⟨_, t, ?_, hdel, rfl, hheader⟩
  rw [start_fileOf path hh, if_neg hnz]

/-- A run of 2^64 records, or a multiple, cannot be told from one that crashed. -/
theorem start_fileOf_of_zero (path : Bytes) {h : SessionHeader} (hh : WellFormed h)
    {rs : List OddsUpdate} (hzero : rs.length.toUInt64 = 0) :
    start path (some (FileSink.fileOf h rs)) =
      .error (ascii "record count is zero: session was truncated") := by
  rw [start_fileOf path hh, if_pos hzero]

end SessionReader

end OddsEngine
