/-
  File:      OddsEngine/Tools/VerifySession.lean
  Subject:   The offline checker of session files (tools/verify_session.cpp).

  The tool reads a session record by record and notes every check a record fails; what it keeps
  between two records is the last number of every (market, book) and the last timestamp. A file
  passes when nothing was noted.

  * `report_eq_nil_iff` -- nothing is noted exactly of a stream that is `Sound` for its header and
    as long as the header says: the checker's keys and its one-record memory come to a statement
    about all pairs of records;
  * `run_eq_zero_iff` -- the tool's exit status, over the file.

  The lines on standard output and past the tenth on standard error are not modelled.
-/
import Mathlib.Logic.Function.Basic
import OddsEngine.Engine.SessionReader

namespace OddsEngine.VerifySession

open Lib

/-- What the loop keeps between two records. -/
structure State where
  lastSeq : UInt32 → Option UInt64 := fun _ => none
  lastTs : UInt64 := 0
  count : UInt64 := 0
  /-- What failed, and at which record: the lines for standard error, in order. -/
  failures : List (Bytes × UInt64) := []

/-- `if (bad) fail(what);`. -/
def State.failIf (bad : Prop) [Decidable bad] (what : Bytes) (s : State) : State :=
  if bad then { s with failures := s.failures ++ [(what, s.count)] } else s

/-- The key of a (market, book) in `last_seq`. -/
def slotKey (u : OddsUpdate) : UInt32 := (u.marketId.toUInt32 <<< 16) ||| u.bookId.toUInt32

/-- The checks on one slot of `odds_milli`. -/
def checkSlot (u : OddsUpdate) (s : State) (i : Fin 4) : State :=
  if i.val < u.outcomeCount.toNat then
    s.failIf (u.oddsMilli i < 1001 ∨ 1000000 < u.oddsMilli i) (ascii "odds out of bounds")
  else s.failIf (u.oddsMilli i ≠ 0) (ascii "unused odds slot not zero")

/-- One round of the loop. -/
def checkRecord (h : SessionHeader) (s : State) (u : OddsUpdate) : State :=
  let s := s.failIf (h.markets ≤ u.marketId.toUInt32) (ascii "market_id out of range")
  let s := s.failIf (u.outcomeCount < 2 ∨ 4 < u.outcomeCount) (ascii "bad outcome_count")
  let s := s.failIf (∃ last ∈ s.lastSeq (slotKey u), u.seqNo ≤ last)
    (ascii "seq_no not increasing")
  let s := { s with lastSeq := Function.update s.lastSeq (slotKey u) (some u.seqNo) }
  let s := s.failIf (u.simTimestampNs < s.lastTs) (ascii "timestamp went backwards")
  let s := { s with lastTs := u.simTimestampNs }
  let s := (List.finRange 4).foldl (checkSlot u) s
  { s with count := s.count + 1 }

/-- Everything that fails in the records of a session. -/
def report (h : SessionHeader) (rs : List OddsUpdate) : List (Bytes × UInt64) :=
  let s := rs.foldl (checkRecord h) {}
  (s.failIf (s.count ≠ h.recordCount) (ascii "record count mismatch")).failures

/-- The tool's exit status, on the bytes of the file at `path`. -/
def run (path : Bytes) (file : Option (List UInt8)) : Nat :=
  match SessionReader.start path file with
  | .error _ => 1
  | .ok reader =>
    match reader.readAll with
    | .error _ => 1
    | .ok rs => if (report reader.header rs).isEmpty then 0 else 1

/-! ## 1. One record -/

@[simp] theorem failIf_lastSeq (s : State) (bad : Prop) [Decidable bad] (what : Bytes) :
    (s.failIf bad what).lastSeq = s.lastSeq := by
  unfold State.failIf
  split <;> rfl

@[simp] theorem failIf_lastTs (s : State) (bad : Prop) [Decidable bad] (what : Bytes) :
    (s.failIf bad what).lastTs = s.lastTs := by
  unfold State.failIf
  split <;> rfl

@[simp] theorem failIf_count (s : State) (bad : Prop) [Decidable bad] (what : Bytes) :
    (s.failIf bad what).count = s.count := by
  unfold State.failIf
  split <;> rfl

@[simp] theorem failIf_failures_eq_nil (s : State) (bad : Prop) [Decidable bad] (what : Bytes) :
    (s.failIf bad what).failures = [] ↔ s.failures = [] ∧ ¬ bad := by
  unfold State.failIf
  by_cases h : bad
  · simp [h]
  · simp [h]

/-- What a record's own fields must satisfy. -/
structure RecordOk (h : SessionHeader) (u : OddsUpdate) : Prop where
  market : u.marketId.toUInt32 < h.markets
  count : 2 ≤ u.outcomeCount ∧ u.outcomeCount ≤ 4
  odds : ∀ i : Fin 4, i.val < u.outcomeCount.toNat →
    1001 ≤ u.oddsMilli i ∧ u.oddsMilli i ≤ 1000000
  unused : ∀ i : Fin 4, u.outcomeCount.toNat ≤ i.val → u.oddsMilli i = 0

/-- One slot is in order. -/
def SlotOk (u : OddsUpdate) (i : Fin 4) : Prop :=
  (i.val < u.outcomeCount.toNat → 1001 ≤ u.oddsMilli i ∧ u.oddsMilli i ≤ 1000000) ∧
    (u.outcomeCount.toNat ≤ i.val → u.oddsMilli i = 0)

theorem checkSlot_keeps (u : OddsUpdate) (s : State) (i : Fin 4) :
    (checkSlot u s i).lastSeq = s.lastSeq ∧ (checkSlot u s i).lastTs = s.lastTs ∧
      (checkSlot u s i).count = s.count := by
  unfold checkSlot
  split
  · simp
  · simp

theorem checkSlot_failures_eq_nil (u : OddsUpdate) (s : State) (i : Fin 4) :
    (checkSlot u s i).failures = [] ↔ s.failures = [] ∧ SlotOk u i := by
  unfold checkSlot SlotOk
  by_cases h : i.val < u.outcomeCount.toNat
  · simp [h]
  · simp [h, Nat.not_lt.mp h]

/-- The loop over the slots notes nothing exactly if every slot is in order. -/
theorem foldl_checkSlot (u : OddsUpdate) (is : List (Fin 4)) (s : State) :
    ((is.foldl (checkSlot u) s).lastSeq = s.lastSeq ∧
      (is.foldl (checkSlot u) s).lastTs = s.lastTs ∧
      (is.foldl (checkSlot u) s).count = s.count) ∧
    ((is.foldl (checkSlot u) s).failures = [] ↔ s.failures = [] ∧ ∀ i ∈ is, SlotOk u i) := by
  induction is generalizing s with
  | nil => simp
  | cons i is ih =>
    obtain ⟨⟨hseq, hts, hcount⟩, hfail⟩ := ih (checkSlot u s i)
    obtain ⟨kseq, kts, kcount⟩ := checkSlot_keeps u s i
    refine ⟨⟨hseq.trans kseq, hts.trans kts, hcount.trans kcount⟩, ?_⟩
    rw [List.foldl_cons, hfail, checkSlot_failures_eq_nil, List.forall_mem_cons, and_assoc]

theorem recordOk_iff (h : SessionHeader) (u : OddsUpdate) :
    RecordOk h u ↔ ¬ h.markets ≤ u.marketId.toUInt32 ∧
      ¬ (u.outcomeCount < 2 ∨ 4 < u.outcomeCount) ∧ ∀ i ∈ List.finRange 4, SlotOk u i := by
  constructor
  · intro ok
    refine ⟨UInt32.not_le.mpr ok.market, ?_, fun i _ => ⟨ok.odds i, ok.unused i⟩⟩
    rintro (hlt | hlt)
    · exact UInt8.not_lt.mpr ok.count.1 hlt
    · exact UInt8.not_lt.mpr ok.count.2 hlt
  · rintro ⟨hm, hc, hs⟩
    exact
      { market := UInt32.not_le.mp hm
        count := ⟨UInt8.not_lt.mp fun hlt => hc (Or.inl hlt),
          UInt8.not_lt.mp fun hlt => hc (Or.inr hlt)⟩
        odds := fun i hi => (hs i (List.mem_finRange i)).1 hi
        unused := fun i hi => (hs i (List.mem_finRange i)).2 hi }

/-- **One round**: what it remembers, and when it notes nothing. -/
theorem checkRecord_step (h : SessionHeader) (s : State) (u : OddsUpdate) :
    ((checkRecord h s u).lastSeq = Function.update s.lastSeq (slotKey u) (some u.seqNo) ∧
      (checkRecord h s u).lastTs = u.simTimestampNs ∧
      (checkRecord h s u).count = s.count + 1) ∧
    ((checkRecord h s u).failures = [] ↔ s.failures = [] ∧ RecordOk h u ∧
      (∀ last ∈ s.lastSeq (slotKey u), last < u.seqNo) ∧ s.lastTs ≤ u.simTimestampNs) := by
  unfold checkRecord
  dsimp only
  obtain ⟨⟨hseq, hts, hcount⟩, hfail⟩ := foldl_checkSlot u (List.finRange 4) _
  refine ⟨⟨?_, ?_, ?_⟩, ?_⟩
  · rw [hseq]
    simp
  · rw [hts]
  · rw [hcount]
    simp
  · rw [hfail, recordOk_iff]
    simp only [failIf_failures_eq_nil, failIf_lastSeq, failIf_lastTs, not_exists, not_and,
      UInt64.not_le, UInt64.not_lt]
    tauto

/-! ## 2. A whole session -/

/-- A stream in order for a header: every record is, and of two records the later one has no
    earlier timestamp and, on the same market and book, a larger number. -/
structure Sound (h : SessionHeader) (rs : List OddsUpdate) : Prop where
  records : ∀ u ∈ rs, RecordOk h u
  seqs : rs.Pairwise fun u v => u.marketId = v.marketId → u.bookId = v.bookId → u.seqNo < v.seqNo
  times : rs.Pairwise fun u v => u.simTimestampNs ≤ v.simTimestampNs

theorem toNat_slotKey (u : OddsUpdate) :
    (slotKey u).toNat = u.marketId.toNat * 65536 + u.bookId.toNat := by
  have hm := u.marketId.toNat_lt
  have hb := u.bookId.toNat_lt
  have hshift : (u.marketId.toUInt32 <<< 16).toNat = u.marketId.toNat <<< 16 := by
    rw [UInt32.toNat_shiftLeft, UInt16.toNat_toUInt32]
    have h16 : (16 : UInt32).toNat % 32 = 16 := rfl
    rw [h16, Nat.shiftLeft_eq]
    omega
  rw [slotKey, UInt32.toNat_or, hshift, UInt16.toNat_toUInt32,
    ← Nat.shiftLeft_add_eq_or_of_lt hb, Nat.shiftLeft_eq]

/-- A key names one market and one book. -/
theorem slotKey_eq_iff (u v : OddsUpdate) :
    slotKey u = slotKey v ↔ u.marketId = v.marketId ∧ u.bookId = v.bookId := by
  have hu := u.bookId.toNat_lt
  have hv := v.bookId.toNat_lt
  rw [← UInt32.toNat_inj, toNat_slotKey, toNat_slotKey, ← UInt16.toNat_inj, ← UInt16.toNat_inj]
  omega

/-- The loop, from any memory: what was remembered bounds everything that comes. -/
theorem foldl_checkRecord (h : SessionHeader) (rs : List OddsUpdate) (s : State) :
    (rs.foldl (checkRecord h) s).count = s.count + rs.length.toUInt64 ∧
    ((rs.foldl (checkRecord h) s).failures = [] ↔ s.failures = [] ∧ Sound h rs ∧
      (∀ u ∈ rs, ∀ last ∈ s.lastSeq (slotKey u), last < u.seqNo) ∧
      ∀ u ∈ rs, s.lastTs ≤ u.simTimestampNs) := by
  induction rs generalizing s with
  | nil =>
    refine ⟨(UInt64.add_zero _).symm, ?_⟩
    have hsound : Sound h [] := ⟨by simp, List.Pairwise.nil, List.Pairwise.nil⟩
    simp [hsound]
  | cons u rs ih =>
    obtain ⟨ihCount, ihFail⟩ := ih (checkRecord h s u)
    obtain ⟨⟨hseq, hts, hcount⟩, hfail⟩ := checkRecord_step h s u
    constructor
    · rw [List.foldl_cons, ihCount, hcount, List.length_cons, UInt64.add_assoc]
      congr 1
      rw [UInt64.add_comm]
      exact (UInt64.ofNat_add _ _).symm
    · rw [List.foldl_cons, ihFail, hfail, hseq, hts]
      constructor
      · rintro ⟨⟨hnil, hok, hlast, hle⟩, hsound, hnext, htimes⟩
        have hsame : ∀ v ∈ rs, slotKey u = slotKey v → u.seqNo < v.seqNo := by
          intro v hv hkey
          refine hnext v hv u.seqNo ?_
          rw [← hkey, Function.update_self]
          exact rfl
        refine ⟨hnil, ⟨?_, ?_, ?_⟩, ?_, ?_⟩
        · exact List.forall_mem_cons.mpr ⟨hok, hsound.records⟩
        · refine List.pairwise_cons.mpr ⟨fun v hv hm hb => ?_, hsound.seqs⟩
          exact hsame v hv ((slotKey_eq_iff u v).mpr ⟨hm, hb⟩)
        · exact List.pairwise_cons.mpr ⟨htimes, hsound.times⟩
        · refine List.forall_mem_cons.mpr ⟨hlast, fun v hv last hlv => ?_⟩
          by_cases hkey : slotKey u = slotKey v
          · exact UInt64.lt_trans (hlast last (by rw [hkey]; exact hlv)) (hsame v hv hkey)
          · refine hnext v hv last ?_
            rw [Function.update_of_ne (Ne.symm hkey)]
            exact hlv
        · exact List.forall_mem_cons.mpr
            ⟨hle, fun v hv => UInt64.le_trans hle (htimes v hv)⟩
      · rintro ⟨hnil, hsound, hlast, hle⟩
        obtain ⟨hok, hrecords⟩ := List.forall_mem_cons.mp hsound.records
        obtain ⟨hfirst, hseqs⟩ := List.pairwise_cons.mp hsound.seqs
        obtain ⟨hearly, htimes⟩ := List.pairwise_cons.mp hsound.times
        refine ⟨⟨hnil, hok, (List.forall_mem_cons.mp hlast).1, (List.forall_mem_cons.mp hle).1⟩,
          ⟨hrecords, hseqs, htimes⟩, fun v hv last hlv => ?_, hearly⟩
        by_cases hkey : slotKey u = slotKey v
        · rw [← hkey, Function.update_self] at hlv
          cases hlv
          obtain ⟨hm, hb⟩ := (slotKey_eq_iff u v).mp hkey
          exact hfirst v hv hm hb
        · rw [Function.update_of_ne (Ne.symm hkey)] at hlv
          exact (List.forall_mem_cons.mp hlast).2 v hv last hlv

/-- **The checker notes nothing exactly of a sound stream of the length the header states.** -/
theorem report_eq_nil_iff (h : SessionHeader) (rs : List OddsUpdate) :
    report h rs = [] ↔ Sound h rs ∧ rs.length.toUInt64 = h.recordCount := by
  obtain ⟨hcount, hfail⟩ := foldl_checkRecord h rs {}
  have hzero : ({} : State).count + rs.length.toUInt64 = rs.length.toUInt64 := UInt64.zero_add _
  unfold report
  dsimp only
  rw [failIf_failures_eq_nil, hfail, hcount, hzero, not_not]
  simp

/-- The tool's exit status is 0 exactly on a file that is read to its end and of which nothing is
    noted. -/
theorem run_eq_zero_iff (path : Bytes) (file : Option (List UInt8)) :
    run path file = 0 ↔ ∃ s rs, SessionReader.start path file = .ok s ∧ s.readAll = .ok rs ∧
      report s.header rs = [] := by
  unfold run
  cases hstart : SessionReader.start path file with
  | error e => simp
  | ok s =>
    cases hread : s.readAll with
    | error e => simp [hread]
    | ok rs => simp [hread]

/-- The tool accepts the file of a sound stream. -/
theorem run_fileOf (path : Bytes) {h : SessionHeader} (hh : SessionReader.WellFormed h)
    {rs : List OddsUpdate} (hne : rs ≠ []) (hlen : rs.length < 2 ^ 64)
    (hs : Sound { h with recordCount := rs.length.toUInt64 } rs) :
    run path (some (FileSink.fileOf h rs)) = 0 := by
  obtain ⟨s, t, hstart, hdel, hheader, _⟩ := SessionReader.delivers_fileOf path hh hne hlen
  refine (run_eq_zero_iff path _).mpr
    ⟨s, rs, hstart, SessionReader.readAll_eq_ok_iff.mpr ⟨t, hdel⟩, ?_⟩
  rw [hheader]
  exact (report_eq_nil_iff _ _).mpr ⟨hs, rfl⟩

end OddsEngine.VerifySession
