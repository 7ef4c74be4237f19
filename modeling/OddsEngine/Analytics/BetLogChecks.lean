/-
  File:      OddsEngine/Analytics/BetLogChecks.lean
  Subject:   Which bet logs the analysis scores, and which it should.

  A log names the session its bets were made on and how many there are; the count is patched when
  the run is done, so a log left behind by a run that failed says zero (`complete_fileOf`,
  `not_complete_leftBehind`). The analysis reads neither field. It checks the magic and the record
  size, then takes whatever records follow.

  * `scoresOnlyComplete_iff` -- it scores complete logs only, and reports an error of every other,
    exactly where the log is complete or one of the checks that are made does not pass.
-/
import OddsEngine.Analytics.AnalyzeBets
import OddsEngine.Tools.VerifiedReplay

namespace OddsEngine.AnalyzeBets

open Lib

variable {F : Type} [DoubleArith F] [Neg F] [FromBits F]

/-- The log is one the engine completed for a session with this header: its own header matches the
    format and the session, the count is that of the records, and each of them bets on a market of
    the session and one of four outcomes. -/
structure CompleteLog (F : Type) [FromBits F] (h : SessionHeader) (log : List UInt8) : Prop where
  long : BetLogHeader.size ≤ log.length
  magic : (BetLogHeader.ofBytes log).magic = kBetLogMagic
  version : (BetLogHeader.ofBytes log).version = kBetLogVersion
  recordSize : (BetLogHeader.ofBytes log).recordSize = BetRecord.size.toUInt16
  seed : (BetLogHeader.ofBytes log).seed = h.seed
  count : (BetLogHeader.ofBytes log).recordCount.toNat =
    (log.length - BetLogHeader.size) / BetRecord.size
  bets : ∀ br ∈ (betsOf log : List (BetRecord F)), br.marketId.toUInt32 < h.markets ∧ br.outcome < 4

/-- The session can be read, and the bet log is complete for it. -/
def Complete (F : Type) [FromBits F] (args : Args) (files : Bytes → Option (List UInt8)) : Prop :=
  ∃ s rs log, SessionReader.start args.session (files args.session) = .ok s ∧
    s.readAll = .ok rs ∧ files args.bets = some log ∧ CompleteLog F s.header log

/-- Scores are reported of a complete log only; of every other an error is. -/
def ScoresOnlyComplete (F : Type) [DoubleArith F] [Neg F] [FromBits F] (args : Args)
    (files : Bytes → Option (List UInt8)) : Prop :=
  (∀ scores : Scores F, run args files = .ok scores → Complete F args files) ∧
    (¬ Complete F args files →
      ∃ e, (run args files : Except Failure (Scores F)) = .error (.exception e))

/-- Where the checks pass, the analysis does not end in an exception: it scores the bets, or leaves
    the closing odds of a market. -/
theorem run_not_exception {args : Args} {files : Bytes → Option (List UInt8)} {s : SessionReader}
    {log : List UInt8} (h : ChecksPass args files s log) (e : Bytes) :
    (run args files : Except Failure (Scores F)) ≠ .error (.exception e) := by
  obtain ⟨ref, -, -, -, hrun⟩ := @run_of_checks F _ _ _ args files s log h
  rw [hrun]
  rcases foldlM_scoreBet ref (betsOf log) (Scores.init : Scores F) with ⟨_, s', hok⟩ | ⟨_, e', he⟩
  · rw [hok]
    exact fun h => nomatch h
  · rw [he]
    exact fun h => nomatch h

/-- **Scores for complete logs only, and an error for the rest, exactly where** the log is complete,
    or one of the checks the analysis makes does not pass. -/
theorem scoresOnlyComplete_iff (args : Args) (files : Bytes → Option (List UInt8)) :
    ScoresOnlyComplete F args files ↔
      Complete F args files ∨ ∀ s log, ¬ ChecksPass args files s log := by
  constructor
  · rintro ⟨_, herror⟩
    by_cases hcomplete : Complete F args files
    · exact Or.inl hcomplete
    · refine Or.inr fun s log hpass => ?_
      obtain ⟨e, he⟩ := herror hcomplete
      exact run_not_exception hpass e he
  · rintro (hcomplete | hfails)
    · exact ⟨fun _ _ => hcomplete, fun hn => absurd hcomplete hn⟩
    · obtain ⟨e, he⟩ := @run_of_not_checks F _ _ _ args files hfails
      refine ⟨fun scores hok => ?_, fun _ => ⟨e, he⟩⟩
      rw [he] at hok
      cases hok

/-! ## 1. What the engine leaves -/

section Logs

variable [Convert F]

omit [DoubleArith F] [Neg F] in
/-- The bets of a written log, as far as the checks look at them. -/
theorem betsOf_toBytes (h : BetLogHeader) (rs : List (BetRecord F)) :
    (betsOf (h.toBytes ++ rs.flatMap BetRecord.toBytes) : List (BetRecord F)) =
      rs.map fun r => { r with stake := FromBits.ofBits (Convert.bits r.stake)
                               fairProb := FromBits.ofBits (Convert.bits r.fairProb) } := by
  have hdrop : (h.toBytes ++ rs.flatMap BetRecord.toBytes).drop BetLogHeader.size =
      rs.flatMap BetRecord.toBytes := by
    rw [← BetLogHeader.toBytes_length h, List.drop_left]
  have hread : ∀ r : BetRecord F, (BetRecord.ofBytes r.toBytes : BetRecord F) =
      { r with stake := FromBits.ofBits (Convert.bits r.stake)
               fairProb := FromBits.ofBits (Convert.bits r.fairProb) } := fun r => by
    rw [← BetRecord.ofBytes_toBytes r [], List.append_nil]
  rw [betsOf, hdrop, ← List.append_nil (rs.flatMap BetRecord.toBytes)]
  exact readFrames_flatMap (by decide) BetRecord.toBytes_length hread rs (by decide)

omit [DoubleArith F] [Neg F] [FromBits F] in
theorem length_flatMap_toBytes (rs : List (BetRecord F)) :
    (rs.flatMap BetRecord.toBytes).length = rs.length * BetRecord.size :=
  length_flatMap_of_length BetRecord.toBytes_length rs

omit [DoubleArith F] [Neg F] in
/-- **A log the engine completed is complete**, for the session it names. -/
theorem complete_fileOf {h : SessionHeader} {rs : List (BetRecord F)} (hlen : rs.length < 2 ^ 64)
    (hbets : ∀ r ∈ rs, r.marketId.toUInt32 < h.markets ∧ r.outcome < 4) :
    CompleteLog F h (BetLogSink.fileOf h.seed rs) := by
  rw [BetLogSink.fileOf_eq]
  refine ⟨?_, ?_, ?_, ?_, ?_, ?_, ?_⟩
  · rw [List.length_append, BetLogHeader.toBytes_length]
    omega
  · rw [BetLogHeader.ofBytes_toBytes]
    rfl
  · rw [BetLogHeader.ofBytes_toBytes]
    rfl
  · rw [BetLogHeader.ofBytes_toBytes]
    rfl
  · rw [BetLogHeader.ofBytes_toBytes]
    rfl
  · rw [BetLogHeader.ofBytes_toBytes, List.length_append, BetLogHeader.toBytes_length,
      Nat.add_sub_cancel_left, length_flatMap_toBytes, Nat.mul_div_cancel _ (by decide)]
    exact UInt64.toNat_ofNat_of_lt' hlen
  · intro br hbr
    rw [betsOf_toBytes] at hbr
    obtain ⟨r, hr, rfl⟩ := List.mem_map.mp hbr
    exact hbets r hr

omit [DoubleArith F] [Neg F] in
/-- **A log left behind with bets in it is not**: nobody has patched its count. -/
theorem not_complete_leftBehind (h : SessionHeader) (seed : UInt64) {rs : List (BetRecord F)}
    (hne : rs ≠ []) (rest : List UInt8) :
    ¬ CompleteLog F h ((BetLogSink.startHeader seed).toBytes ++
      (rs.flatMap BetRecord.toBytes ++ rest)) := by
  intro hcomplete
  have hcount := hcomplete.count
  have hpos : 0 < rs.length := List.length_pos_of_ne_nil hne
  have hsize : 0 < BetRecord.size := by decide
  have hrecords : (rs.length * BetRecord.size + rest.length) / BetRecord.size =
      rest.length / BetRecord.size + rs.length := by
    rw [Nat.add_comm, Nat.add_mul_div_right _ _ hsize]
  rw [BetLogHeader.ofBytes_toBytes, List.length_append, BetLogHeader.toBytes_length,
    Nat.add_sub_cancel_left, List.length_append, length_flatMap_toBytes, hrecords] at hcount
  have hzero : (BetLogSink.startHeader seed).recordCount.toNat = 0 := rfl
  have hle : rs.length ≤ rest.length / BetRecord.size + rs.length := Nat.le_add_left _ _
  rw [← hcount, hzero] at hle
  omega

end Logs

/-! ## 2. A log left behind by a failed run -/

/-- A bet on market 0. -/
noncomputable def loggedBet : BetRecord ℝ :=
  { simTimestampNs := 0, marketId := 0, outcome := 0, stake := 0, oddsMilliTaken := 1900,
    fairProb := 0 }

/-- What a run on the session `smallHeader` had written when it failed with one bet flushed. -/
noncomputable def orphanedLog : List UInt8 :=
  ([loggedBet].foldl BetLogSink.accept (BetLogSink.start 42)).flush.file

/-- The session, and beside it the log. -/
noncomputable def orphanedFiles (path : Bytes) : Option (List UInt8) :=
  if path = ascii "session" then
    some (FileSink.fileOf VerifySession.smallHeader [VerifySession.evenRecord])
  else some orphanedLog

def orphanedArgs : Args := { bets := ascii "bets", session := ascii "session" }

theorem checksPass_orphaned :
    ∃ s, ChecksPass orphanedArgs orphanedFiles s orphanedLog ∧
      s.header = { VerifySession.smallHeader with recordCount := 1 } := by
  obtain ⟨s, t, hstart, hdel, hheader, _⟩ := @SessionReader.delivers_fileOf (ascii "session")
    VerifySession.smallHeader ⟨rfl, rfl, rfl⟩ [VerifySession.evenRecord] (by simp) (by decide)
  have hlog : orphanedFiles (ascii "bets") = some orphanedLog := if_neg (by decide)
  have hbytes : orphanedLog = (BetLogSink.startHeader 42).toBytes ++
      [loggedBet].flatMap BetRecord.toBytes := BetLogSink.flushed_eq 42 [loggedBet]
  refine ⟨s, ⟨?_, by rw [hheader]; decide, ⟨_, SessionReader.readAll_eq_ok_iff.mpr ⟨t, hdel⟩⟩,
    Or.inl rfl, Or.inl rfl, ?_⟩, hheader⟩
  · have hsession : orphanedFiles (ascii "session") =
        some (FileSink.fileOf VerifySession.smallHeader [VerifySession.evenRecord]) := if_pos rfl
    show SessionReader.start (ascii "session") (orphanedFiles (ascii "session")) = .ok s
    rw [hsession]
    exact hstart
  · refine ⟨⟨hlog, ?_, ?_⟩, ?_⟩
    · rw [hbytes, List.length_append, BetLogHeader.toBytes_length]
      exact Nat.le_add_right _ _
    · rw [hbytes]
      exact congrArg BetLogHeader.magic (BetLogHeader.ofBytes_toBytes _ _)
    · rw [hbytes, BetLogHeader.ofBytes_toBytes]
      rfl

/-- The bet is scored, though the log was never completed. -/
theorem orphaned_scored :
    (∃ scores : Scores ℝ, run orphanedArgs orphanedFiles = .ok scores) ∧
      ¬ ScoresOnlyComplete ℝ orphanedArgs orphanedFiles := by
  obtain ⟨s, hpass, hheader⟩ := checksPass_orphaned
  have hbytes : orphanedLog = (BetLogSink.startHeader 42).toBytes ++
      [loggedBet].flatMap BetRecord.toBytes := BetLogSink.flushed_eq 42 [loggedBet]
  obtain ⟨ref, -, -, -, hrun⟩ := @run_of_checks ℝ _ _ _ _ _ _ _ hpass
  have hscores : ∃ scores : Scores ℝ, run orphanedArgs orphanedFiles = .ok scores := by
    rw [hrun]
    rcases foldlM_scoreBet ref (betsOf orphanedLog) (Scores.init : Scores ℝ) with
      ⟨_, hok⟩ | ⟨⟨br, hbr, hstray⟩, _⟩
    · exact hok
    · rw [hbytes, betsOf_toBytes] at hbr
      obtain ⟨r, hr, rfl⟩ := List.mem_map.mp hbr
      rw [List.mem_singleton.mp hr] at hstray
      exact absurd hstray.2 (by decide)
  refine ⟨hscores, fun honly => ?_⟩
  obtain ⟨scores, hok⟩ := hscores
  obtain ⟨s', _, log, hstart, _, hlog, hcomplete⟩ := honly.1 scores hok
  rw [Option.some.inj (hlog.symm.trans hpass.bets.opens.found), hbytes] at hcomplete
  refine not_complete_leftBehind s'.header 42 (List.cons_ne_nil loggedBet []) [] ?_
  rw [List.append_nil]
  exact hcomplete

end OddsEngine.AnalyzeBets
