/-
  File:      OddsEngine/Analytics/AnalyzeBets.lean
  Subject:   Scoring a bet log against the session it was produced from (analytics/analyze_bets.cpp,
             with the records of sim/SettlementSink.hpp and sim/JumpSink.hpp).

  The tool reads the session for the closing odds of every market, then the settlement and the jump
  file where they are given, then the bet log record by record. `run` is its `main` up to the
  printing: the sums it prints from, an exception, or an access outside an array.

  * `run_of_checks` -- where every check passes, the result is that of the loop over the bets;
  * `run_of_not_checks` -- where one does not, it is an exception;
  * `foldlM_scoreBet` -- the loop ends, but for a bet on a market of the session with an outcome
    past the four a market can have.

  A session of too many markets and books for one vector ends the tool before it opens another file
  (`allocateQuotes`); memory is otherwise taken to suffice. The printed lines are not modelled; they
  read the sums and nothing else.
-/
import OddsEngine.Engine.BetLog
import OddsEngine.Engine.SessionReader
import OddsEngine.Lib.Frames

namespace OddsEngine.AnalyzeBets

open Lib

structure Args where
  bets : Bytes
  session : Bytes
  /-- Empty: no settlement file. -/
  settle : Bytes := []
  /-- Empty: no jump file. -/
  jumps : Bytes := []

/-- How `main` can leave its `try` block without scores. -/
inductive Failure where
  | exception (what : Bytes)
  | outOfBounds (e : OutOfBounds)
  deriving DecidableEq

/-! ## 1. The closing odds -/

/-- `last_odds` and `last_count`. -/
structure Closing where
  lastOdds : Nat → Fin 4 → UInt32 := fun _ _ => 0
  lastCount : Nat → UInt8 := fun _ => 0

/-- One record of the session: the last one of a (market, book) stays. -/
def readQuote (markets books : Nat) (c : Closing) (u : OddsUpdate) : Closing :=
  if markets ≤ u.marketId.toNat ∨ books ≤ u.bookId.toNat then c
  else
    let idx := u.marketId.toNat * books + u.bookId.toNat
    { lastOdds := Function.update c.lastOdds idx fun i => u.oddsMilli i
      lastCount := Function.update c.lastCount idx u.outcomeCount }

def closingQuotes (markets books : Nat) (rs : List OddsUpdate) : Closing :=
  rs.foldl (readQuote markets books) {}

/-- One book's closing odds against the best so far. -/
def raiseClosing (c : Closing) (best : Fin 4 → UInt32) (idx : Nat) : Fin 4 → UInt32 :=
  (List.finRange 4).foldl (fun best i =>
    if i.val < (c.lastCount idx).toNat ∧ best i < c.lastOdds idx i then
      Function.update best i (c.lastOdds idx i)
    else best) best

/-- `closing_best[m]`. -/
def closingBest (books : Nat) (c : Closing) (m : Nat) : Fin 4 → UInt32 :=
  (List.range books).foldl (fun best b => raiseClosing c best (m * books + b)) fun _ => 0

/-! ## 2. The files beside the session -/

/-- `fopen`, the header, its magic; the three files differ in their texts and magics only. All
    three headers have 24 bytes. -/
def openFile (files : Bytes → Option (List UInt8)) (path cannotOpen short badMagic : Bytes)
    (magic : UInt32) : Except Failure (List UInt8) :=
  match files path with
  | none => .error (.exception cannotOpen)
  | some bytes =>
    if bytes.length < 24 then .error (.exception short)
    else if (getU32 bytes).1 ≠ magic then .error (.exception badMagic)
    else .ok bytes

/-- 'STTL'. -/
def kSettlementMagic : UInt32 := 0x4C545453

structure SettlementRecord where
  marketId : UInt16
  winner : UInt8
  outcomeCount : UInt8
  deriving DecidableEq

def SettlementRecord.ofBytes (bs : List UInt8) : SettlementRecord :=
  let (marketId, bs) := getU16 bs
  let (winner, bs) := getU8 bs
  let (outcomeCount, _) := getU8 bs
  { marketId, winner, outcomeCount }

/-- `winner`: of a market settled twice, the last record's. A market never settled has none. -/
def winners (records : List SettlementRecord) (m : Nat) : Option UInt8 :=
  (records.filter fun r => r.marketId.toNat == m).getLast?.map SettlementRecord.winner

/-- The settlement file, where one is given. -/
def readSettlement (files : Bytes → Option (List UInt8)) (path : Bytes) :
    Except Failure (Option (Nat → Option UInt8)) :=
  if path = [] then .ok none
  else do
    let bytes ← openFile files path (ascii "cannot open settlement file")
      (ascii "settlement header short") (ascii "bad settlement magic") kSettlementMagic
    return some (winners (readFrames 8 SettlementRecord.ofBytes (bytes.drop 24)))

/-- 'JUMP'. -/
def kJumpMagic : UInt32 := 0x504D554A

structure JumpRecord where
  tick : UInt64
  marketId : UInt16
  deriving DecidableEq

def JumpRecord.ofBytes (bs : List UInt8) : JumpRecord :=
  let (tick, bs) := getU64 bs
  let (marketId, _) := getU16 bs
  { tick, marketId }

/-- `jump_ticks[m]`, sorted. -/
def jumpTicks (records : List JumpRecord) (m : Nat) : List UInt64 :=
  ((records.filter fun r => r.marketId.toNat == m).map JumpRecord.tick).mergeSort
    fun a b => decide (a ≤ b)

/-- The jump file, where one is given. -/
def readJumps (files : Bytes → Option (List UInt8)) (path : Bytes) :
    Except Failure (Option (Nat → List UInt64)) :=
  if path = [] then .ok none
  else do
    let bytes ← openFile files path (ascii "cannot open jump file") (ascii "jump header short")
      (ascii "bad jump magic") kJumpMagic
    return some (jumpTicks (readFrames 16 JumpRecord.ofBytes (bytes.drop 24)))

/-- Ticks since the last jump at or before `tick`, in a sorted list of jumps; -1: there is none. -/
def ticksSinceJump (jt : List UInt64) (tick : UInt64) : Int :=
  match (jt.takeWhile fun j => decide (j ≤ tick)).getLast? with
  | none => -1
  | some last => (tick.toNat : Int) - last.toNat

def bucketOf (tsj : Int) : Fin 8 :=
  if tsj < 0 then 7
  else if tsj < 10 then 0
  else if tsj < 25 then 1
  else if tsj < 50 then 2
  else if tsj < 100 then 3
  else if tsj < 200 then 4
  else if tsj < 500 then 5
  else 6

/-- The episode of a bet: its market and the tick of the last jump, packed; 0 for "no jump yet" in
    the place of the tick plus one. -/
def episodeKey (marketId : UInt16) (tick : UInt64) (tsj : Int) : UInt64 :=
  let lastJump : Int := if 0 ≤ tsj then (tick.toNat : Int) - tsj else -1
  (marketId.toUInt64 <<< 40) ^^^ UInt64.ofInt (lastJump + 1)

/-! ## 3. The loop over the bets -/

variable {F : Type} [DoubleArith F] [Neg F] [FromBits F]

/-- The sums `main` prints from. -/
structure Scores (F : Type) where
  nBets : UInt64 := 0
  totalStake : F
  believedEdgeStakewt : F
  nClv : UInt64 := 0
  beat : UInt64 := 0
  clvSum : F
  clvStakeSum : F
  stakeForClv : F
  beatStake : F
  pnlMarket : Nat → F
  marketBet : Nat → Bool := fun _ => false
  totalPnl : F
  totalStakeSettled : F
  bCnt : Fin 8 → UInt64 := fun _ => 0
  bStake : Fin 8 → F
  bEdge : Fin 8 → F
  bPnl : Fin 8 → F
  bPnlStake : Fin 8 → F
  /-- `episode_edge`: each key once, in the order of their first bets. -/
  episodeEdge : List (UInt64 × F) := []
  totalEdgeMass : F

def Scores.init : Scores F :=
  { totalStake := 0, believedEdgeStakewt := 0, clvSum := 0, clvStakeSum := 0, stakeForClv := 0,
    beatStake := 0, pnlMarket := fun _ => 0, totalPnl := 0, totalStakeSettled := 0,
    bStake := fun _ => 0, bEdge := fun _ => 0, bPnl := fun _ => 0, bPnlStake := fun _ => 0,
    totalEdgeMass := 0 }

/-- `map[key] += x`, from zero for a new key. -/
def addTo (key : UInt64) (x : F) : List (UInt64 × F) → List (UInt64 × F)
  | [] => [(key, 0 + x)]
  | (k, v) :: rest => if k = key then (k, v + x) :: rest else (k, v) :: addTo key x rest

/-- The closing-line value of a bet whose market closed at `cb`. -/
def Scores.addClosing (s : Scores F) (br : BetRecord F) (oTake : F) (cb : UInt32) : Scores F :=
  if cb < 1001 then s
  else
    let oClose : F := decimalOdds cb
    let clv := oTake / oClose - 1
    let s := { s with clvSum := s.clvSum + clv, clvStakeSum := s.clvStakeSum + br.stake * clv,
                      stakeForClv := s.stakeForClv + br.stake, nClv := s.nClv + 1 }
    if oClose < oTake then { s with beat := s.beat + 1, beatStake := s.beatStake + br.stake } else s

/-- What a bet on a settled market brought. -/
def pnlOf (br : BetRecord F) (oTake : F) (winner : UInt8) : F :=
  if winner = br.outcome then br.stake * (oTake - 1) else -br.stake

def Scores.addSettled (s : Scores F) (br : BetRecord F) (pnl : F) : Scores F :=
  let m := br.marketId.toNat
  { s with marketBet := Function.update s.marketBet m true
           pnlMarket := Function.update s.pnlMarket m (s.pnlMarket m + pnl)
           totalPnl := s.totalPnl + pnl
           totalStakeSettled := s.totalStakeSettled + br.stake }

/-- The post-jump profile of a bet; `pnl` where its market is settled. -/
def Scores.addJump (s : Scores F) (br : BetRecord F) (edgeMass : F) (pnl : Option F)
    (jt : List UInt64) : Scores F :=
  let tick := br.simTimestampNs / kTickIntervalNs
  let tsj := ticksSinceJump jt tick
  let bk := bucketOf tsj
  let s := { s with bCnt := Function.update s.bCnt bk (s.bCnt bk + 1)
                    bStake := Function.update s.bStake bk (s.bStake bk + br.stake)
                    bEdge := Function.update s.bEdge bk (s.bEdge bk + edgeMass) }
  let s := match pnl with
    | none => s
    | some pnl => { s with bPnl := Function.update s.bPnl bk (s.bPnl bk + pnl)
                           bPnlStake := Function.update s.bPnlStake bk (s.bPnlStake bk + br.stake) }
  { s with totalEdgeMass := s.totalEdgeMass + edgeMass
           episodeEdge := addTo (episodeKey br.marketId tick tsj) (Libm.abs edgeMass) s.episodeEdge }

/-- What the loop over the bets has to go by. -/
structure Reference where
  markets : Nat
  closing : Nat → Fin 4 → UInt32
  winner : Option (Nat → Option UInt8)
  jumps : Option (Nat → List UInt64)

/-- One bet. -/
def scoreBet (ref : Reference) (s : Scores F) (br : BetRecord F) : Except Failure (Scores F) :=
  let oTake : F := decimalOdds br.oddsMilliTaken
  let edge := br.fairProb * oTake - 1
  let edgeMass := br.stake * edge
  let s := { s with nBets := s.nBets + 1, totalStake := s.totalStake + br.stake
                    believedEdgeStakewt := s.believedEdgeStakewt + edgeMass }
  let m := br.marketId.toNat
  if m < ref.markets then do
    let cb ← (rd (ref.closing m) br.outcome.toNat).mapError Failure.outOfBounds
    let s := s.addClosing br oTake cb
    let pnl := (ref.winner.bind fun winner => winner m).map (pnlOf br oTake)
    let s := match pnl with
      | none => s
      | some pnl => s.addSettled br pnl
    return match ref.jumps with
      | none => s
      | some jumps => s.addJump br edgeMass pnl (jumps m)
  else return s

/-- The bets of a log: the whole records behind its header. -/
def betsOf (log : List UInt8) : List (BetRecord F) :=
  readFrames BetRecord.size BetRecord.ofBytes (log.drop BetLogHeader.size)

/-- The bet log's own checks. -/
def openBetLog (files : Bytes → Option (List UInt8)) (path : Bytes) :
    Except Failure (List UInt8) := do
  let log ← openFile files path (ascii "cannot open bet log") (ascii "bet header short")
    (ascii "bad bet log magic") kBetLogMagic
  if (BetLogHeader.ofBytes log).recordSize ≠ BetRecord.size.toUInt16 then
    .error (.exception (ascii "bet record size mismatch"))
  else return log

/-- `std::vector<std::array<uint32_t, 4>>::max_size()`: as many elements of 16 bytes as PTRDIFF_MAX
    bytes hold. -/
def kMaxQuotes : Nat := (2 ^ 63 - 1) / 16

/-- `last_odds(M * B)`: the product fits `size_t`, but a vector has a longest length. -/
def allocateQuotes (markets books : Nat) : Except Failure Unit :=
  if kMaxQuotes < markets * books then
    .error (.exception (ascii "cannot create std::vector larger than max_size()"))
  else return ()

/-- `main`, on the files of a file system. -/
def run (args : Args) (files : Bytes → Option (List UInt8)) : Except Failure (Scores F) := do
  let reader ← (SessionReader.start args.session (files args.session)).mapError .exception
  let markets := reader.header.markets.toNat
  let books := reader.header.books.toNat
  allocateQuotes markets books
  let rs ← reader.readAll.mapError .exception
  let closing := closingBest books (closingQuotes markets books rs)
  let winner ← readSettlement files args.settle
  let jumps ← readJumps files args.jumps
  let log ← openBetLog files args.bets
  (betsOf log).foldlM (scoreBet { markets, closing, winner, jumps }) Scores.init

/-! ## 4. What the checks let through -/

/-- The file is there, holds a header, and the header has the magic. -/
structure Opens (files : Bytes → Option (List UInt8)) (path : Bytes) (magic : UInt32)
    (bytes : List UInt8) : Prop where
  found : files path = some bytes
  long : 24 ≤ bytes.length
  magic : (getU32 bytes).1 = magic

theorem openFile_of_opens {files : Bytes → Option (List UInt8)} {path : Bytes} {magic : UInt32}
    {bytes : List UInt8} (h : Opens files path magic bytes) (cannotOpen short badMagic : Bytes) :
    openFile files path cannotOpen short badMagic magic = .ok bytes := by
  unfold openFile
  rw [h.found]
  dsimp only
  rw [if_neg (Nat.not_lt.mpr h.long), if_neg (fun hne => hne h.magic)]

theorem openFile_of_not_opens {files : Bytes → Option (List UInt8)} {path : Bytes} {magic : UInt32}
    (h : ∀ bytes, ¬ Opens files path magic bytes) (cannotOpen short badMagic : Bytes) :
    ∃ e, openFile files path cannotOpen short badMagic magic = .error (.exception e) := by
  unfold openFile
  cases hfound : files path with
  | none => exact ⟨_, rfl⟩
  | some bytes =>
    dsimp only
    by_cases hshort : bytes.length < 24
    · exact ⟨_, if_pos hshort⟩
    · by_cases hmagic : (getU32 bytes).1 = magic
      · exact absurd ⟨hfound, Nat.not_lt.mp hshort, hmagic⟩ (h bytes)
      · exact ⟨_, (if_neg hshort).trans (if_pos hmagic)⟩

/-- The settlement and the jump file: not asked for, or one that opens. -/
def SideOpens (files : Bytes → Option (List UInt8)) (path : Bytes) (magic : UInt32) : Prop :=
  path = [] ∨ ∃ bytes, Opens files path magic bytes

/-- A file read only where it was asked for: it is read, or the tool stops with the error. -/
theorem sideFile_cases {β : Type} (files : Bytes → Option (List UInt8)) (path : Bytes)
    (magic : UInt32) (cannotOpen short badMagic : Bytes) (view : List UInt8 → β) :
    let read : Except Failure (Option β) :=
      if path = [] then .ok none
      else do
        let bytes ← openFile files path cannotOpen short badMagic magic
        return some (view bytes)
    (SideOpens files path magic ∧ ∃ r, read = .ok r) ∨
      (¬ SideOpens files path magic ∧ ∃ e, read = .error (.exception e)) := by
  unfold SideOpens
  by_cases hpath : path = []
  · exact Or.inl ⟨Or.inl hpath, none, if_pos hpath⟩
  · rw [if_neg hpath]
    by_cases hopens : ∃ bytes, Opens files path magic bytes
    · obtain ⟨bytes, hbytes⟩ := hopens
      rw [openFile_of_opens hbytes]
      exact Or.inl ⟨Or.inr ⟨bytes, hbytes⟩, _, rfl⟩
    · obtain ⟨e, he⟩ := openFile_of_not_opens (not_exists.mp hopens) cannotOpen short badMagic
      rw [he]
      exact Or.inr ⟨fun h => h.elim hpath hopens, e, rfl⟩

theorem readSettlement_cases (files : Bytes → Option (List UInt8)) (path : Bytes) :
    (SideOpens files path kSettlementMagic ∧ ∃ winner, readSettlement files path = .ok winner) ∨
      (¬ SideOpens files path kSettlementMagic ∧
        ∃ e, readSettlement files path = .error (.exception e)) :=
  sideFile_cases files path kSettlementMagic _ _ _ _

theorem readJumps_cases (files : Bytes → Option (List UInt8)) (path : Bytes) :
    (SideOpens files path kJumpMagic ∧ ∃ jumps, readJumps files path = .ok jumps) ∨
      (¬ SideOpens files path kJumpMagic ∧ ∃ e, readJumps files path = .error (.exception e)) :=
  sideFile_cases files path kJumpMagic _ _ _ _

/-- A bet log the tool reads bets from. -/
structure LogOpens (files : Bytes → Option (List UInt8)) (path : Bytes) (log : List UInt8) :
    Prop where
  opens : Opens files path kBetLogMagic log
  recordSize : (BetLogHeader.ofBytes log).recordSize = BetRecord.size.toUInt16

theorem openBetLog_cases (files : Bytes → Option (List UInt8)) (path : Bytes) :
    (∃ log, LogOpens files path log ∧ openBetLog files path = .ok log) ∨
      ((∀ log, ¬ LogOpens files path log) ∧
        ∃ e, openBetLog files path = .error (.exception e)) := by
  unfold openBetLog
  by_cases hopens : ∃ log, Opens files path kBetLogMagic log
  · obtain ⟨log, hlog⟩ := hopens
    rw [openFile_of_opens hlog]
    by_cases hsize : (BetLogHeader.ofBytes log).recordSize = BetRecord.size.toUInt16
    · exact Or.inl ⟨log, ⟨hlog, hsize⟩, if_neg (fun hne => hne hsize)⟩
    · refine Or.inr ⟨fun log' h => hsize ?_, _, if_pos hsize⟩
      have hsame : log = log' := Option.some.inj (hlog.found.symm.trans h.opens.found)
      rw [hsame]
      exact h.recordSize
  · obtain ⟨e, he⟩ := openFile_of_not_opens (not_exists.mp hopens) (ascii "cannot open bet log")
      (ascii "bet header short") (ascii "bad bet log magic")
    rw [he]
    exact Or.inr ⟨fun log h => hopens ⟨log, h.opens⟩, e, rfl⟩

/-- Everything `main` checks: the session opens as `s`, has room in a vector and is read to its end,
    and the other files open, the bet log as `log`. -/
structure ChecksPass (args : Args) (files : Bytes → Option (List UInt8)) (s : SessionReader)
    (log : List UInt8) : Prop where
  session : SessionReader.start args.session (files args.session) = .ok s
  room : s.header.markets.toNat * s.header.books.toNat ≤ kMaxQuotes
  records : ∃ rs, s.readAll = .ok rs
  settle : SideOpens files args.settle kSettlementMagic
  jumps : SideOpens files args.jumps kJumpMagic
  bets : LogOpens files args.bets log

omit [Neg F] in
/-- The files name the session and the log. -/
theorem ChecksPass.unique {args : Args} {files : Bytes → Option (List UInt8)}
    {s s' : SessionReader} {log log' : List UInt8} (h : ChecksPass args files s log)
    (h' : ChecksPass args files s' log') : s = s' ∧ log = log' :=
  ⟨Except.ok.inj (h.session.symm.trans h'.session),
    Option.some.inj (h.bets.opens.found.symm.trans h'.bets.opens.found)⟩

/-- **Where every check passes, the bets are gone through**, against the markets of the session. -/
theorem run_of_checks {args : Args} {files : Bytes → Option (List UInt8)} {s : SessionReader}
    {log : List UInt8} (h : ChecksPass args files s log) :
    ∃ ref : Reference, ref.markets = s.header.markets.toNat ∧
      readSettlement files args.settle = .ok ref.winner ∧
      readJumps files args.jumps = .ok ref.jumps ∧
      (run args files : Except Failure (Scores F)) =
        (betsOf log).foldlM (scoreBet ref) Scores.init := by
  obtain ⟨rs, hrs⟩ := h.records
  obtain ⟨winner, hwinner⟩ := (readSettlement_cases files args.settle).elim And.right
    fun hn => absurd h.settle hn.1
  obtain ⟨jumps, hjumps⟩ := (readJumps_cases files args.jumps).elim And.right
    fun hn => absurd h.jumps hn.1
  have hlog : openBetLog files args.bets = .ok log := by
    rcases openBetLog_cases files args.bets with ⟨log', hlog', he⟩ | ⟨hn, _⟩
    · rw [he, Option.some.inj (hlog'.opens.found.symm.trans h.bets.opens.found)]
    · exact absurd h.bets (hn log)
  refine ⟨{ markets := s.header.markets.toNat
            closing := closingBest s.header.books.toNat
              (closingQuotes s.header.markets.toNat s.header.books.toNat rs)
            winner, jumps }, rfl, hwinner, hjumps, ?_⟩
  have hroom : allocateQuotes s.header.markets.toNat s.header.books.toNat = .ok () :=
    if_neg (Nat.not_lt.mpr h.room)
  unfold run
  rw [h.session, hwinner, hjumps, hlog]
  simp only [Except.mapError, bind, Except.bind, hroom]
  rw [hrs]

/-- **Where one does not, `main` ends in an exception.** -/
theorem run_of_not_checks {args : Args} {files : Bytes → Option (List UInt8)}
    (h : ∀ s log, ¬ ChecksPass args files s log) :
    ∃ e, (run args files : Except Failure (Scores F)) = .error (.exception e) := by
  unfold run
  cases hstart : SessionReader.start args.session (files args.session) with
  | error e => exact ⟨e, rfl⟩
  | ok s =>
    simp only [Except.mapError, bind, Except.bind]
    by_cases hroom : kMaxQuotes < s.header.markets.toNat * s.header.books.toNat
    · have hlong : allocateQuotes s.header.markets.toNat s.header.books.toNat =
          .error (.exception (ascii "cannot create std::vector larger than max_size()")) :=
        if_pos hroom
      simp only [hlong]
      exact ⟨_, rfl⟩
    · have hfits : allocateQuotes s.header.markets.toNat s.header.books.toNat = .ok () :=
        if_neg hroom
      cases hread : s.readAll with
      | error e =>
        simp only [hfits]
        exact ⟨e, rfl⟩
      | ok rs =>
        simp only [hfits]
        rcases readSettlement_cases files args.settle with ⟨hsettle, w, hw⟩ | ⟨_, e, he⟩
        · rcases readJumps_cases files args.jumps with ⟨hjumps, j, hj⟩ | ⟨_, e, he⟩
          · rcases openBetLog_cases files args.bets with ⟨log, hlog, _⟩ | ⟨_, e, he⟩
            · exact absurd ⟨hstart, Nat.not_lt.mp hroom, ⟨rs, hread⟩, hsettle, hjumps, hlog⟩ (h s log)
            · simp only [hw, hj, he]
              exact ⟨e, rfl⟩
          · simp only [hw, he]
            exact ⟨e, rfl⟩
        · simp only [he]
          exact ⟨e, rfl⟩

/-- A run that ends with scores has read every file it was given, and gone through the bets. -/
theorem run_inv {args : Args} {files : Bytes → Option (List UInt8)} {scores : Scores F}
    (h : run args files = .ok scores) :
    ∃ (ref : Reference) (s : SessionReader) (log : List UInt8), ChecksPass args files s log ∧
      ref.markets = s.header.markets.toNat ∧
      readSettlement files args.settle = .ok ref.winner ∧
      readJumps files args.jumps = .ok ref.jumps ∧
      (betsOf log).foldlM (scoreBet ref) Scores.init = .ok scores := by
  by_cases hpass : ∃ s log, ChecksPass args files s log
  · obtain ⟨s, log, hpass⟩ := hpass
    obtain ⟨ref, hmarkets, hwinner, hjumps, hrun⟩ := @run_of_checks F _ _ _ args files s log hpass
    exact ⟨ref, s, log, hpass, hmarkets, hwinner, hjumps, hrun.symm.trans h⟩
  · push Not at hpass
    obtain ⟨e, he⟩ := @run_of_not_checks F _ _ _ args files hpass
    rw [he] at h
    cases h

/-! ## 5. What the loop over the bets can do -/

omit [DoubleArith F] [Neg F] [FromBits F] in
/-- The bet takes the loop past the end of its market's closing odds. -/
def Strays (markets : Nat) (br : BetRecord F) : Prop :=
  br.marketId.toNat < markets ∧ 4 ≤ br.outcome.toNat

omit [FromBits F] in
theorem scoreBet_cases (ref : Reference) (s : Scores F) (br : BetRecord F) :
    (¬ Strays ref.markets br ∧ ∃ s', scoreBet ref s br = .ok s') ∨
      (Strays ref.markets br ∧
        scoreBet ref s br = .error (.outOfBounds ⟨br.outcome.toNat, 4⟩)) := by
  unfold scoreBet Strays
  dsimp only
  by_cases hm : br.marketId.toNat < ref.markets
  · rw [if_pos hm]
    by_cases ho : br.outcome.toNat < 4
    · rw [rd_of_lt _ ho]
      exact Or.inl ⟨fun h => absurd ho (Nat.not_lt.mpr h.2), _, rfl⟩
    · rw [rd_of_not_lt _ ho]
      exact Or.inr ⟨⟨hm, Nat.not_lt.mp ho⟩, rfl⟩
  · rw [if_neg hm]
    exact Or.inl ⟨fun h => hm h.1, _, rfl⟩

omit [FromBits F] in
/-- **The loop ends with scores unless a bet strays**, and then it goes out of bounds. -/
theorem foldlM_scoreBet (ref : Reference) (brs : List (BetRecord F)) (s : Scores F) :
    ((∀ br ∈ brs, ¬ Strays ref.markets br) ∧ ∃ s', brs.foldlM (scoreBet ref) s = .ok s') ∨
      ((∃ br ∈ brs, Strays ref.markets br) ∧
        ∃ e, brs.foldlM (scoreBet ref) s = .error (.outOfBounds e)) := by
  induction brs generalizing s with
  | nil => exact Or.inl ⟨by simp, s, rfl⟩
  | cons br brs ih =>
    rw [List.foldlM_cons]
    rcases scoreBet_cases ref s br with ⟨hin, s', hs'⟩ | ⟨hout, he⟩
    · rw [hs']
      rcases ih s' with ⟨hall, hok⟩ | ⟨⟨b, hb, hstray⟩, herr⟩
      · exact Or.inl ⟨List.forall_mem_cons.mpr ⟨hin, hall⟩, hok⟩
      · exact Or.inr ⟨⟨b, List.mem_cons_of_mem _ hb, hstray⟩, herr⟩
    · rw [he]
      exact Or.inr ⟨⟨br, List.mem_cons_self, hout⟩, _, rfl⟩

end OddsEngine.AnalyzeBets
