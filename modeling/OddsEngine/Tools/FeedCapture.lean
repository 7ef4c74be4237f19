/-
  File:      OddsEngine/Tools/FeedCapture.lean
  Subject:   A capture of the feed against the feed's own session file, and against the engine that
             listened to the same datagrams (tools/udp_listen.cpp beside sim/OutputSink.hpp and
             engine/UdpSource.hpp).

  The two receivers read every datagram the same way, so a capture is a faithful stand-in for what the
  engine heard:

  * `capture_of_feed` -- of the whole feed it is, byte for byte, the session file without its number
    of ticks, and the checker says of the one what it says of the other;
  * `live_eq_replay` -- whatever datagrams came, the engine that replays the capture is given the
    records the live engine was given, behind those of the datagrams from before the first announce;
    where there were none of these, the two runs are one;
  * `clean_iff` -- of datagrams of one feed, in any order and any number of times, the tool reports
    no gap and none reordered exactly if they are the first ones of the feed, each once and in order.
-/
import OddsEngine.Analytics.AnalyzeBets
import OddsEngine.Engine.Output
import OddsEngine.Engine.UdpCounters
import OddsEngine.Tools.UdpListen
import OddsEngine.Tools.VerifySession

namespace OddsEngine

open Lib

/-! ## 1. The records a receiver hands out of any datagrams -/

namespace UdpSource

open UdpListen

theorem length_of_data {d : Datagram} {seq : UInt64} (h : hear d = .data seq) :
    (recv d).length = UdpDatagramHeader.size +
      (UdpDatagramHeader.ofBytes (recv d)).recordCount.toNat * OddsUpdate.size := by
  have hdata : ((UdpDatagramHeader.ofBytes (recv d)).type == UdpDatagramType.announce.code) = false :=
    beq_eq_false_iff_ne.mpr (not_isAnnounce_of_data h)
  unfold hear at h
  simp only [hdata, Bool.false_eq_true, if_false] at h
  split_ifs at h with hshort hmagic hzero hmany hlen
  exact not_ne_iff.mp hlen

/-- A data datagram just received, whatever was in the buffer before. -/
theorem buffered_accepted {d : Datagram} {seq : UInt64} (h : hear d = .data seq) (s : UdpSource) :
    buffered { s.accepted d with inBuffer := (s.accepted d).lastCount.toNat, cursor := 0 } =
      recordsIn d := by
  have hlen := length_of_data h
  rw [recordsIn_data h]
  unfold buffered
  rw [Nat.sub_zero, ← List.range_eq_range']
  refine List.map_congr_left fun i hi => ?_
  have hi : i < (UdpDatagramHeader.ofBytes (recv d)).recordCount.toNat := List.mem_range.mp hi
  have hsize : OddsUpdate.size = 64 := rfl
  have hhead : UdpDatagramHeader.size = 16 := rfl
  rw [hsize, hhead] at hlen
  show OddsUpdate.ofBytes ((recv d ++ _).drop (UdpDatagramHeader.size + i * OddsUpdate.size)) = _
  rw [List.drop_append_of_le_length (by rw [hsize, hhead, hlen]; omega)]
  refine OddsUpdate.ofBytes_append ?_ _
  rw [List.length_drop, hsize, hhead, hlen]
  omega

/-- A source that has read its buffer hands out the records of whatever comes, where nothing
    reconfigures the feed. -/
theorem delivers_recordsOf (inbox : List Datagram) {s : UdpSource} (hdone : ¬ s.cursor < s.inBuffer)
    (h : ∀ d ∈ inbox, ¬ Reconfigures s.header d) :
    ∃ t, Delivers next (s, inbox) (recordsOf inbox) (t, []) := by
  induction inbox generalizing s with
  | nil =>
    refine ⟨s, .done ?_⟩
    rw [next_eq, if_neg hdone]
    rfl
  | cons d inbox ih =>
    have hrest : ∀ x ∈ inbox, ¬ Reconfigures s.header x :=
      fun x hx => h x (List.mem_cons_of_mem d hx)
    have hread := readDatagram_hear s d
    have hsplit : recordsOf (d :: inbox) = recordsIn d ++ recordsOf inbox := List.flatMap_cons
    cases hd : hear d with
    | unusable =>
      rw [hd] at hread
      obtain ⟨t, hdel⟩ := @ih (s.refused d) hdone hrest
      refine ⟨t, @Delivers.of_next_eq _ _ _ next _ (s.refused d, inbox) _ _ ?_ ?_⟩
      · have hreceive : receiveOne s (d :: inbox) = receiveOne (s.refused d) inbox := by
          conv_lhs => unfold receiveOne
          rw [hread]
        have hdone' : ¬ (s.refused d).cursor < (s.refused d).inBuffer := hdone
        rw [next_eq, if_neg hdone, hreceive, next_eq, if_neg hdone']
      · have hno : recordsIn d = [] := by
          unfold recordsIn
          rw [hd]
        rw [hsplit, hno, List.nil_append]
        exact hdel
    | data seq =>
      rw [hd] at hread
      let filled : UdpSource :=
        { s.accepted d with inBuffer := (s.accepted d).lastCount.toNat, cursor := 0 }
      have hreceive : receiveOne s (d :: inbox) = .ok (true, filled, inbox) := by
        unfold receiveOne
        rw [hread]
      obtain ⟨s1, hreads, hcursor, hin, hfollows⟩ := reads_buffer filled inbox
      have hdone1 : ¬ s1.cursor < s1.inBuffer := by omega
      have hheader : s1.header = s.header := hfollows.header
      obtain ⟨t, hdel⟩ := @ih s1 hdone1 (by rw [hheader]; exact hrest)
      rw [buffered_accepted hd] at hreads
      refine ⟨t, Delivers.of_next_eq ?_ (hreads.delivers hdel)⟩
      rw [next_eq, if_neg hdone, hreceive]
    | announce seq a =>
      rw [hd] at hread
      have hsame : ¬ (a.markets ≠ s.header.markets ∨ a.books ≠ s.header.books ∨
          a.seed ≠ s.header.seed) := fun hne =>
        h d List.mem_cons_self ⟨a, by rw [hd]; rfl, hne⟩
      let said : UdpSource := { s.accepted d with announces := (s.accepted d).announces + 1 }
      obtain ⟨t, hdel⟩ := @ih said hdone hrest
      refine ⟨t, @Delivers.of_next_eq _ _ _ next _ (said, inbox) _ _ ?_ ?_⟩
      · have hreceive : receiveOne s (d :: inbox) = receiveOne said inbox := by
          conv_lhs => unfold receiveOne
          rw [hread]
          dsimp only
          rw [readAnnouncePayload_accepted hd]
          exact if_neg hsame
        have hdone' : ¬ said.cursor < said.inBuffer := hdone
        rw [next_eq, if_neg hdone, hreceive, next_eq, if_neg hdone']
      · have hno : recordsIn d = [] := by
          unfold recordsIn
          rw [hd]
        rw [hsplit, hno, List.nil_append]
        exact hdel

end UdpSource

namespace UdpListen

open UdpSource

/-! ## 2. The capture of a feed -/

theorem recv_encode (a : AnnounceRecord) (p : Packet) : recv (p.encode a) = p.encode a :=
  List.take_of_length_le (Packet.length_encode_le a p)

theorem recordsIn_encode (a : AnnounceRecord) (p : Packet) : recordsIn (p.encode a) = p.records := by
  unfold recordsIn
  rw [hear_encode]
  cases p with
  | announce seq => rfl
  | data seq batch =>
    dsimp only
    rw [recv_encode, batchOf_encode]

/-- The records of any packets, in the order they come. -/
theorem recordsOf_encode (a : AnnounceRecord) (ps : List Packet) :
    recordsOf (ps.map (Packet.encode a)) = ps.flatMap Packet.records := by
  unfold recordsOf
  rw [List.flatMap_map]
  exact congrArg (fun f => ps.flatMap f) (funext fun p => recordsIn_encode a p)

/-- A feed's announces say all the same. -/
theorem lastAnnounce_encode {a : AnnounceRecord} {ps : List Packet}
    (h : ∃ p ∈ ps, p.type = .announce) : lastAnnounce (ps.map (Packet.encode a)) = some a := by
  have hall : ∀ b ∈ announcesIn (ps.map (Packet.encode a)), b = a := by
    intro b hb
    obtain ⟨d, hd, hsaid⟩ := List.mem_filterMap.mp hb
    obtain ⟨p, -, rfl⟩ := List.mem_map.mp hd
    rw [hear_encode] at hsaid
    cases p with
    | announce seq => exact (Option.some.inj hsaid).symm
    | data seq batch => cases hsaid
  have hne : announcesIn (ps.map (Packet.encode a)) ≠ [] := by
    obtain ⟨p, hp, htype⟩ := h
    refine List.ne_nil_of_mem (a := a) (List.mem_filterMap.mpr
      ⟨p.encode a, List.mem_map_of_mem hp, ?_⟩)
    rw [hear_encode]
    cases p with
    | announce seq => rfl
    | data seq batch => cases htype
  unfold lastAnnounce
  rw [List.getLast?_eq_some_getLast hne]
  exact congrArg some (hall _ (List.getLast_mem hne))

/-- The header of a capture that heard an announce of the feed. -/
theorem captureHeader_encode {seed : UInt64} {markets books : UInt32} {ps : List Packet}
    (h : ∃ p ∈ ps, p.type = .announce) :
    captureHeader (ps.map (Packet.encode (announceRecord seed markets books))) =
      { runHeader seed markets books 0 with
        recordCount := (ps.flatMap Packet.records).length.toUInt64 } := by
  unfold captureHeader
  rw [lastAnnounce_encode h, recordsOf_encode]
  rfl

end UdpListen

namespace SessionReader

theorem next_header {s t : SessionReader} {u : Option OddsUpdate} (h : next s = .ok (u, t)) :
    t.header = s.header := by
  unfold next at h
  split at h
  · cases h
    rfl
  · split at h
    · cases h
    · cases h
      rfl

/-- A reader under another header with the same count takes the same step. -/
theorem next_congr (s : SessionReader) {h : SessionHeader}
    (hcount : h.recordCount = s.header.recordCount) :
    next { s with header := h } = (next s).map fun r => (r.1, { r.2 with header := h }) := by
  unfold next
  dsimp only
  rw [hcount]
  split
  · rfl
  · split
    · rfl
    · rfl

theorem readAll_eq (s : SessionReader) :
    s.readAll =
      match s.next with
      | .error e => .error e
      | .ok (none, _) => .ok []
      | .ok (some u, t) => t.readAll.map (u :: ·) := by
  rw [readAll]
  split
  · rename_i e h
    rw [h]
  · rename_i t h
    rw [h]
  · rename_i u t h
    rw [h]

/-- Of the header the reading loop goes by the count only. -/
theorem readAll_congr (s : SessionReader) {h : SessionHeader}
    (hcount : h.recordCount = s.header.recordCount) :
    readAll { s with header := h } = readAll s := by
  fun_induction readAll s with
  | case1 s e hnext =>
    rw [readAll_eq, next_congr s hcount, hnext]
    rfl
  | case2 s t hnext =>
    rw [readAll_eq, next_congr s hcount, hnext]
    rfl
  | case3 s u t hnext ih =>
    rw [readAll_eq, next_congr s hcount, hnext]
    show (readAll { t with header := h }).map (u :: ·) = t.readAll.map (u :: ·)
    rw [ih (by rw [next_header hnext]; exact hcount)]

/-- The number of ticks in the header changes nothing of what is read. -/
theorem start_ticks (path : Bytes) {h : SessionHeader} (hh : WellFormed h) (rs : List OddsUpdate)
    (ticks : UInt64) :
    start path (some (FileSink.fileOf { h with ticks } rs)) =
      (start path (some (FileSink.fileOf h rs))).map fun r =>
        { r with header := { r.header with ticks } } := by
  have hh' : WellFormed { h with ticks } := ⟨hh.magic, hh.version, hh.recordSize⟩
  rw [start_fileOf path hh', start_fileOf path hh]
  split
  · rfl
  · rfl

end SessionReader

/-- The checker does not look at the number of ticks. -/
theorem VerifySession.run_ticks (path : Bytes) {h : SessionHeader}
    (hh : SessionReader.WellFormed h) (rs : List OddsUpdate) (ticks : UInt64) :
    VerifySession.run path (some (FileSink.fileOf { h with ticks } rs)) =
      VerifySession.run path (some (FileSink.fileOf h rs)) := by
  unfold VerifySession.run
  rw [SessionReader.start_ticks path hh]
  cases SessionReader.start path (some (FileSink.fileOf h rs)) with
  | error e => rfl
  | ok r =>
    have hread := @SessionReader.readAll_congr r { r.header with ticks } rfl
    dsimp only [Except.map]
    rw [hread]
    rfl

namespace AnalyzeBets

/-- The files, with this one under the name of the session. -/
def withSession (args : Args) (files : Bytes → Option (List UInt8)) (session : List UInt8)
    (path : Bytes) : Option (List UInt8) :=
  if path = args.session then some session else files path

/-- A session file is none of the other three, whatever is in it. -/
theorem openFile_withSession (args : Args) (files : Bytes → Option (List UInt8))
    {h h' : SessionHeader} (hh : SessionReader.WellFormed h) (hh' : SessionReader.WellFormed h')
    (bs bs' : List UInt8) {magic : UInt32} (hmagic : kSessionMagic ≠ magic)
    (path cannotOpen short badMagic : Bytes) :
    openFile (withSession args files (h.toBytes ++ bs)) path cannotOpen short badMagic magic =
      openFile (withSession args files (h'.toBytes ++ bs')) path cannotOpen short badMagic magic := by
  have hbad : ∀ {h : SessionHeader}, SessionReader.WellFormed h → ∀ bs : List UInt8,
      openFile (fun _ => some (h.toBytes ++ bs)) path cannotOpen short badMagic magic =
        .error (.exception badMagic) := by
    intro h hh bs
    have hlong : ¬ (h.toBytes ++ bs).length < 24 := by
      rw [List.length_append, SessionHeader.toBytes_length]
      have hsize : SessionHeader.size = 64 := rfl
      omega
    have hhead : (getU32 (h.toBytes ++ bs)).1 = kSessionMagic := by
      rw [← hh.magic]
      simp [SessionHeader.toBytes, List.append_assoc]
    unfold openFile
    dsimp only
    rw [if_neg hlong, hhead, if_pos hmagic]
  by_cases hpath : path = args.session
  · have hfound : ∀ session, withSession args files session path = some session :=
      fun session => if_pos hpath
    have hopen := hbad hh bs
    have hopen' := hbad hh' bs'
    unfold openFile at hopen hopen' ⊢
    rw [hfound, hfound]
    exact hopen.trans hopen'.symm
  · unfold openFile withSession
    rw [if_neg hpath, if_neg hpath]

/-- The scores go by the records of the session and its shape, not by its number of ticks. -/
theorem run_ticks {F : Type} [DoubleArith F] [Neg F] [FromBits F] (args : Args)
    (files : Bytes → Option (List UInt8)) {h : SessionHeader} (hh : SessionReader.WellFormed h)
    (rs : List OddsUpdate) (ticks : UInt64) :
    (run args (withSession args files (FileSink.fileOf { h with ticks } rs)) :
        Except Failure (Scores F)) =
      run args (withSession args files (FileSink.fileOf h rs)) := by
  have hh' : SessionReader.WellFormed { h with ticks } := ⟨hh.magic, hh.version, hh.recordSize⟩
  have hcounted : ∀ {h : SessionHeader}, SessionReader.WellFormed h →
      SessionReader.WellFormed { h with recordCount := rs.length.toUInt64 } :=
    fun hh => ⟨hh.magic, hh.version, hh.recordSize⟩
  have hopen : ∀ {magic : UInt32}, kSessionMagic ≠ magic → ∀ path a b c,
      openFile (withSession args files (FileSink.fileOf { h with ticks } rs)) path a b c magic =
        openFile (withSession args files (FileSink.fileOf h rs)) path a b c magic := by
    intro magic hmagic path a b c
    rw [FileSink.fileOf_eq, FileSink.fileOf_eq]
    exact openFile_withSession args files (hcounted hh') (hcounted hh) _ _ hmagic path a b c
  have hsettle : kSessionMagic ≠ kSettlementMagic := by decide
  have hjumps : kSessionMagic ≠ kJumpMagic := by decide
  have hbets : kSessionMagic ≠ kBetLogMagic := by decide
  have hsession : ∀ session, withSession args files session args.session = some session :=
    fun session => if_pos rfl
  unfold run readSettlement readJumps openBetLog
  rw [hopen hsettle, hopen hjumps, hopen hbets, hsession, hsession,
    SessionReader.start_ticks args.session hh]
  cases SessionReader.start args.session (some (FileSink.fileOf h rs)) with
  | error e => rfl
  | ok r =>
    have hread := @SessionReader.readAll_congr r { r.header with ticks } rfl
    show (allocateQuotes r.header.markets.toNat r.header.books.toNat >>= fun _ =>
      (SessionReader.readAll { r with header := { r.header with ticks } }).mapError _ >>= _) = _
    rw [hread]
    rfl

end AnalyzeBets

namespace UdpListen

open UdpSource

/-- **The capture of a whole feed** is the session file of its run without the number of ticks, and
    the checker and the scores of any bets are those of the file. -/
theorem capture_of_feed (seed : UInt64) (markets books : UInt32) (rs : List OddsUpdate)
    (hlen : (UdpSink.feed seed markets books rs).length < 2 ^ 64) (silence : List Event) :
    ∃ t, State.start.listen
        ((UdpSink.feed seed markets books rs).map Event.datagram ++ .timeout :: silence) = some t ∧
      t.finish = FileSink.fileOf (runHeader seed markets books 0) rs ∧
      ∀ ticks, let written := FileSink.fileOf (runHeader seed markets books ticks) rs
        (∀ path, VerifySession.run path (some t.finish) = VerifySession.run path (some written)) ∧
        ∀ (F : Type) [DoubleArith F] [Neg F] [FromBits F] (args : AnalyzeBets.Args)
          (files : Bytes → Option (List UInt8)),
          (AnalyzeBets.run args (AnalyzeBets.withSession args files t.finish) :
              Except AnalyzeBets.Failure (AnalyzeBets.Scores F)) =
            AnalyzeBets.run args (AnalyzeBets.withSession args files written) := by
  obtain ⟨pkts, hfeed, hisFeed, hrecords⟩ := UdpSink.isFeed_feed seed markets books rs
  obtain ⟨more, hpkts⟩ := hisFeed.head
  have hannounce : ∃ p ∈ pkts, p.type = .announce :=
    ⟨.announce 0, by rw [hpkts]; exact List.mem_cons_self, rfl⟩
  have hseqs : seqs (UdpSink.feed seed markets books rs) = pkts.map Packet.seq := by
    rw [hfeed, seqs_encode]
  have hne : seqs (UdpSink.feed seed markets books rs) ≠ [] := by
    rw [hseqs, hpkts]
    exact List.cons_ne_nil _ _
  have hshort : (seqs (UdpSink.feed seed markets books rs)).length < 2 ^ 64 :=
    Nat.lt_of_le_of_lt (List.length_filterMap_le _ _) hlen
  have hfinish : ((UdpSink.feed seed markets books rs).foldl State.receive State.start).finish =
      FileSink.fileOf (runHeader seed markets books 0) rs := by
    rw [(captured_foldl _).finish_eq, FileSink.fileOf_eq, hfeed, captureHeader_encode hannounce,
      recordsOf_encode, hrecords]
  have hwell : SessionReader.WellFormed (runHeader seed markets books 0) := ⟨rfl, rfl, rfl⟩
  refine ⟨_, listen_datagrams hne hshort silence, hfinish, fun ticks => ?_⟩
  rw [hfinish]
  exact ⟨fun path => (VerifySession.run_ticks path hwell rs ticks).symm,
    fun F _ _ _ args files => (AnalyzeBets.run_ticks args files hwell rs ticks).symm⟩

/-- The short feed, and silence. -/
theorem capture_of_feed_shortFeed :
    ∃ t, State.start.listen (shortFeed.map Event.datagram ++ [.timeout]) = some t ∧
      t.finish = FileSink.fileOf (runHeader 7 1 1 0) (firstBatch.records ++ secondBatch.records) ∧
      ∀ path, VerifySession.run path (some t.finish) = VerifySession.run path (some
        (FileSink.fileOf (runHeader 7 1 1 2) (firstBatch.records ++ secondBatch.records))) := by
  have hlen : shortFeed.length < 2 ^ 64 := by
    rw [shortFeed_eq]
    decide
  obtain ⟨t, hlisten, hfile, htools⟩ :=
    capture_of_feed 7 1 1 (firstBatch.records ++ secondBatch.records) hlen []
  exact ⟨t, hlisten, hfile, (htools 2).1⟩

/-! ## 3. The capture beside the engine -/

/-- The header of a capture, where the engine has read all of the datagrams: its own. -/
theorem captureHeader_of_delivers {inbox rest : List Datagram} {s : UdpSource} {us : List OddsUpdate}
    {t : UdpSource × List Datagram} (hstart : UdpSource.start inbox = .ok (s, rest))
    (hdel : Delivers next (s, rest) us t) :
    (captureHeader inbox).seed = s.header.seed ∧
      (captureHeader inbox).markets = s.header.markets ∧
      (captureHeader inbox).books = s.header.books := by
  obtain ⟨pre, d, seq, a, rfl, hpre, hd, -, hjoined⟩ := start_inv hstart
  have hheader := hjoined.header
  have hclean := delivers_clean hdel
  -- the last announce is the first, or one that came later and names the same feed
  have hlast : ∃ b, lastAnnounce (pre ++ d :: rest) = some b ∧ b.markets = a.markets ∧
      b.books = a.books ∧ b.seed = a.seed := by
    have hparts : announcesIn (pre ++ d :: rest) = a :: announcesIn rest := by
      have hnone : announcesIn pre = [] := List.filterMap_eq_nil_iff.mpr hpre
      have hannounce : (hear d).announce? = some a := by rw [hd]; rfl
      have happend : announcesIn (pre ++ d :: rest) = announcesIn pre ++ announcesIn (d :: rest) :=
        List.filterMap_append
      rw [happend, hnone]
      exact List.filterMap_cons_some (f := fun d => (hear d).announce?) hannounce
    unfold lastAnnounce
    rw [hparts, List.getLast?_cons]
    refine ⟨_, rfl, ?_⟩
    cases hmore : (announcesIn rest).getLast? with
    | none => exact ⟨rfl, rfl, rfl⟩
    | some b =>
      obtain ⟨x, hx, hb⟩ := List.mem_filterMap.mp (List.mem_of_getLast? hmore)
      have hsame : ¬ (b.markets ≠ s.header.markets ∨ b.books ≠ s.header.books ∨
          b.seed ≠ s.header.seed) := fun hne => hclean x hx ⟨b, hb, hne⟩
      rw [hheader] at hsame
      push Not at hsame
      exact hsame
  obtain ⟨b, hb, hmarkets, hbooks, hseed⟩ := hlast
  unfold captureHeader
  rw [hb, hheader]
  exact ⟨hseed, hmarkets, hbooks⟩

/-- **Live and from the capture.** Where the engine reads a feed to its silence, a capture of the same
    datagrams holds, behind the records of those from before the first announce, the records the
    engine was given, under the engine's own seed and shape. Where there were none of these, and at
    least one record came, a replay of the capture is the live run: the same records, the same state,
    the same bet log. -/
theorem live_eq_replay {inbox rest : List Datagram} {s : UdpSource} {us : List OddsUpdate}
    {t : UdpSource × List Datagram} (hstart : UdpSource.start inbox = .ok (s, rest))
    (hdel : Delivers next (s, rest) us t) :
    let capture := (inbox.foldl State.receive State.start).finish
    ∃ pre d, inbox = pre ++ d :: rest ∧ (∀ x ∈ pre, (hear x).announce? = none) ∧
      (∃ seq a, hear d = .announce seq a) ∧
      capture = (captureHeader inbox).toBytes ++
        (recordsOf pre ++ us).flatMap OddsUpdate.toBytes ∧
      ((captureHeader inbox).seed = s.header.seed ∧
        (captureHeader inbox).markets = s.header.markets ∧
        (captureHeader inbox).books = s.header.books) ∧
      (recordsOf pre = [] → us ≠ [] → us.length < 2 ^ 64 → ∀ path, ∃ r r',
        SessionReader.start path (some capture) = .ok r ∧
          Delivers SessionReader.next r us r' ∧
          ∀ (F : Type) [DoubleArith F] [Convert F] (opt : Options F) (service : Nat → Service),
            runOver opt service r.header us = runOver opt service s.header us) := by
  intro capture
  obtain ⟨hseed, hmarkets, hbooks⟩ := captureHeader_of_delivers hstart hdel
  obtain ⟨pre, d, seq, a, rfl, hpre, hd, -, hjoined⟩ := start_inv hstart
  obtain ⟨t', hdel'⟩ := delivers_recordsOf rest hjoined.done (delivers_clean hdel)
  obtain ⟨hus, -⟩ := hdel.unique hdel'
  have hno : recordsIn d = [] := by
    unfold recordsIn
    rw [hd]
  have hrecords : recordsOf (pre ++ d :: rest) = recordsOf pre ++ us := by
    rw [recordsOf_append, hus]
    have hcons : recordsOf (d :: rest) = recordsIn d ++ recordsOf rest := List.flatMap_cons
    rw [hcons, hno, List.nil_append]
  have hfile : capture = (captureHeader (pre ++ d :: rest)).toBytes ++
      (recordsOf pre ++ us).flatMap OddsUpdate.toBytes := by
    show ((pre ++ d :: rest).foldl State.receive State.start).finish = _
    rw [(captured_foldl _).finish_eq, hrecords]
  refine ⟨pre, d, rfl, hpre, ⟨seq, a, hd⟩, hfile, ⟨hseed, hmarkets, hbooks⟩,
    fun hnil hne hlen path => ?_⟩
  rw [hnil, List.nil_append] at hrecords hfile
  have hcount : (captureHeader (pre ++ d :: rest)).recordCount.toNat = us.length := by
    show (recordsOf (pre ++ d :: rest)).length.toUInt64.toNat = us.length
    rw [hrecords]
    exact UInt64.toNat_ofNat_of_lt' hlen
  have hpos := List.length_pos_of_ne_nil hne
  have hnz : ¬ (captureHeader (pre ++ d :: rest)).recordCount = 0 := by
    intro hzero
    rw [hzero] at hcount
    have hz : (0 : UInt64).toNat = 0 := rfl
    omega
  obtain ⟨r', hread, -⟩ := @SessionReader.delivers_records us
    { file := us.flatMap OddsUpdate.toBytes, header := captureHeader (pre ++ d :: rest) } rfl (by
      rw [hcount]
      exact Nat.zero_add _)
  refine ⟨_, r', ?_, hread, fun F _ _ opt service => runOver_congr opt service hseed hmarkets hbooks us⟩
  rw [hfile, SessionReader.start_toBytes path (wellFormed_captureHeader _), if_neg hnz]

/-- The short feed. -/
theorem live_eq_replay_shortFeed :
    ∃ s rest t, UdpSource.start shortFeed = .ok (s, rest) ∧
      Delivers next (s, rest) (firstBatch.records ++ secondBatch.records) t ∧
      ∃ r r', SessionReader.start [] (some (shortFeed.foldl State.receive State.start).finish) =
          .ok r ∧ Delivers SessionReader.next r (firstBatch.records ++ secondBatch.records) r' := by
  obtain ⟨s, t, rest, hstart, hdel, -⟩ := delivers_feed 7 (show (1 : UInt32) ≠ 0 by decide)
    (show (1 : UInt32) ≠ 0 by decide) (firstBatch.records ++ secondBatch.records)
  have hstart : UdpSource.start shortFeed = .ok (s, rest) := hstart
  obtain ⟨pre, d, hsplit, hpre, -, -, -, hreplay⟩ := live_eq_replay hstart hdel
  -- the feed starts with its announce
  have hnil : pre = [] := by
    cases pre with
    | nil => rfl
    | cons x pre =>
      rw [shortFeed_eq] at hsplit
      have hx := hpre x List.mem_cons_self
      rw [List.map_cons, List.cons_append, List.cons.injEq] at hsplit
      rw [← hsplit.1, hear_encode] at hx
      cases hx
  obtain ⟨r, r', hopen, hread, -⟩ := hreplay (by rw [hnil]; rfl) (by decide) (by decide) []
  exact ⟨s, rest, _, hstart, hdel, r, r', hopen, hread⟩

/-! ## 4. A clean report -/

theorem concat_eq_range_iff (qs : List UInt64) (q : UInt64) :
    qs ++ [q] = (List.range (qs.length + 1)).map Nat.toUInt64 ↔
      qs = (List.range qs.length).map Nat.toUInt64 ∧ q = qs.length.toUInt64 := by
  rw [List.range_succ, List.map_append]
  constructor
  · intro h
    obtain ⟨hqs, hq⟩ := List.append_inj' h rfl
    exact ⟨hqs, (List.cons.inj hq).1⟩
  · rintro ⟨hqs, hq⟩
    conv_lhs => rw [hqs, hq]
    rfl

/-- The accounting after the numbers `qs`, from 0 on: it is clean exactly if they are 0, 1, 2, … -/
structure Clean (qs : List UInt64) (t : Tally) : Prop where
  lost_le : t.lost.toNat ≤ t.expectedSeq.toNat
  reordered_le : t.reordered.toNat ≤ qs.length
  iff : t.lost = 0 ∧ t.reordered = 0 ↔ qs = (List.range qs.length).map Nat.toUInt64
  expected : qs = (List.range qs.length).map Nat.toUInt64 → t.expectedSeq.toNat = qs.length

/-- **One number more**: a gap or a late one spoils the report for good. -/
theorem Clean.step {qs : List UInt64} {q : UInt64} {t : Tally} (h : Clean qs t)
    (hlen : qs.length + 1 < 2 ^ 64) (hq : q.toNat < 2 ^ 64 - 1) : Clean (qs ++ [q]) (t.count q) := by
  have hlength : (qs ++ [q]).length = qs.length + 1 := by simp
  have hsucc : (q + 1).toNat = q.toNat + 1 := toNat_succ_of_lt hq
  have hcount : qs.length.toUInt64.toNat = qs.length :=
    UInt64.toNat_ofNat_of_lt' (show qs.length < 2 ^ 64 by omega)
  have hlost := h.lost_le
  have hreordered := h.reordered_le
  -- where the numbers are 0, 1, 2, … up to here, the one expected is the next
  have hnext : qs ++ [q] = (List.range (qs ++ [q]).length).map Nat.toUInt64 →
      t.expectedSeq = q := by
    intro hall
    rw [hlength] at hall
    obtain ⟨hqs, hq⟩ := (concat_eq_range_iff qs q).mp hall
    have hn := h.expected hqs
    rw [← UInt64.toNat_inj, hn, hq, hcount]
  have hzero : ∀ {x : UInt64}, 0 < x.toNat → x ≠ 0 := by
    rintro x hpos rfl
    exact absurd hpos (Nat.lt_irrefl 0)
  unfold Tally.count
  split
  · -- a gap
    next hgap =>
    have hnat := UInt64.lt_iff_toNat_lt.mp hgap
    have hdiff : (q - t.expectedSeq).toNat = q.toNat - t.expectedSeq.toNat :=
      UInt64.toNat_sub_of_le _ _ (UInt64.le_iff_toNat_le.mpr hnat.le)
    have hsum : (t.lost + (q - t.expectedSeq)).toNat =
        t.lost.toNat + (q.toNat - t.expectedSeq.toNat) := by
      rw [UInt64.toNat_add, hdiff]
      omega
    refine ⟨?_, by dsimp only; omega, ⟨fun hclean => ?_, fun hall => ?_⟩, fun hall => ?_⟩
    · dsimp only
      omega
    · exact absurd hclean.1 (hzero (by rw [hsum]; omega))
    · exact absurd (hnext hall) hgap.ne
    · exact absurd (hnext hall) hgap.ne
  · next hle =>
    split
    · -- a late one
      next hlate =>
      have hone : (t.reordered + 1).toNat = t.reordered.toNat + 1 := toNat_succ_of_lt (by omega)
      refine ⟨hlost, by dsimp only; omega, ⟨fun hclean => ?_, fun hall => ?_⟩, fun hall => ?_⟩
      · exact absurd hclean.2 (hzero (by rw [hone]; omega))
      · exact absurd (hnext hall) hlate.ne'
      · exact absurd (hnext hall) hlate.ne'
    · -- the one expected
      next hge =>
      have heq : t.expectedSeq = q := le_antisymm (not_lt.mp hge) (not_lt.mp hle)
      have hexpected : (t.expectedSeq + 1).toNat = t.expectedSeq.toNat + 1 := by
        rw [heq, hsucc]
      refine ⟨by dsimp only; omega, by dsimp only; omega, ?_, fun hall => ?_⟩
      · dsimp only
        rw [h.iff, hlength, concat_eq_range_iff]
        refine ⟨fun hqs => ⟨hqs, ?_⟩, And.left⟩
        have hn := h.expected hqs
        rw [← heq, ← UInt64.toNat_inj, hn, hcount]
      · rw [hlength] at hall ⊢
        have hn := h.expected ((concat_eq_range_iff qs q).mp hall).1
        dsimp only
        rw [hexpected, hn]

/-- The accounting of any numbers below the last one there is. -/
theorem clean_after (qs : List UInt64) (hlen : qs.length < 2 ^ 64)
    (hqs : ∀ q ∈ qs, q.toNat < 2 ^ 64 - 1) : Clean qs (Tally.after ⟨0, 0, 0⟩ qs) := by
  induction qs using List.reverseRecOn with
  | nil => exact ⟨le_rfl, le_rfl, ⟨fun _ => rfl, fun _ => ⟨rfl, rfl⟩⟩, fun _ => rfl⟩
  | append_singleton qs q ih =>
    have hlength : (qs ++ [q]).length = qs.length + 1 := by simp
    rw [hlength] at hlen
    rw [Tally.after_append]
    exact (ih (by omega) fun x hx => hqs x (List.mem_append_left _ hx)).step hlen (hqs q (by simp))

/-- Packets of a feed are its first ones exactly if their numbers are 0, 1, 2, … -/
theorem isPrefix_iff_seqs {pkts ps : List Packet} (hfeed : IsFeed pkts)
    (hlen : pkts.length < 2 ^ 64) (hps : ∀ p ∈ ps, p ∈ pkts) (hshort : ps.length < 2 ^ 64) :
    ps <+: pkts ↔ ps.map Packet.seq = (List.range ps.length).map Nat.toUInt64 := by
  constructor
  · rintro ⟨more, rfl⟩
    have hseqs := hfeed.seqs
    rw [List.map_append, List.length_append, List.range_add, List.map_append] at hseqs
    exact (List.append_inj hseqs (by simp)).1
  · intro hseqs
    rw [List.prefix_iff_getElem?]
    intro i hi
    obtain ⟨j, hj, hget⟩ := List.getElem_of_mem (hps ps[i] (List.getElem_mem hi))
    have hseq : ps[i].seq = i.toUInt64 := by
      have hi' := congrArg (fun l : List UInt64 => l[i]?) hseqs
      simpa [hi] using hi'
    have hnat : (i.toUInt64).toNat = i := UInt64.toNat_ofNat_of_lt' (show i < 2 ^ 64 by omega)
    have hnumber := hfeed.toNat_seq hlen.le hj
    rw [hget, hseq, hnat] at hnumber
    subst hnumber
    rw [List.getElem?_eq_getElem hj, hget]

/-- Datagrams of a feed are packets of it. -/
theorem exists_packets {enc : Packet → Datagram} {pkts : List Packet} {ds : List Datagram}
    (hds : ∀ d ∈ ds, d ∈ pkts.map enc) : ∃ ps : List Packet, (∀ p ∈ ps, p ∈ pkts) ∧ ds = ps.map enc := by
  induction ds with
  | nil => exact ⟨[], fun p hp => absurd hp List.not_mem_nil, rfl⟩
  | cons d ds ih =>
    obtain ⟨p, hp, rfl⟩ := List.mem_map.mp (hds d List.mem_cons_self)
    obtain ⟨ps, hps, rfl⟩ := ih fun x hx => hds x (List.mem_cons_of_mem _ hx)
    exact ⟨p :: ps, List.forall_mem_cons.mpr ⟨hp, hps⟩, rfl⟩

/-- **A clean report means a clean capture**, and the other way round: of datagrams of one feed, come
    in any order, some of them lost and some repeated, the tool counts no gap and none reordered
    exactly if they are the first ones of the feed, each once and in order. The records captured are
    then the first ones of the run. -/
theorem clean_iff (seed : UInt64) (markets books : UInt32) (rs : List OddsUpdate)
    (hlen : (UdpSink.feed seed markets books rs).length < 2 ^ 64) {ds : List Datagram}
    (hds : ∀ d ∈ ds, d ∈ UdpSink.feed seed markets books rs) (hshort : ds.length < 2 ^ 64) :
    let t := ds.foldl State.receive State.start
    (t.gaps = 0 ∧ t.reordered = 0 ↔ ds <+: UdpSink.feed seed markets books rs) ∧
      (t.gaps = 0 → t.reordered = 0 → recordsOf ds <+: rs) := by
  obtain ⟨pkts, hfeed, hisFeed, hrecords⟩ := UdpSink.isFeed_feed seed markets books rs
  rw [hfeed] at hlen hds ⊢
  rw [List.length_map] at hlen
  obtain ⟨ps, hps, rfl⟩ := exists_packets hds
  rw [List.length_map] at hshort
  have hprefix := isPrefix_iff_seqs hisFeed hlen hps hshort
  have hbelow : ∀ q ∈ ps.map Packet.seq, q.toNat < 2 ^ 64 - 1 := by
    intro q hq
    obtain ⟨p, hp, rfl⟩ := List.mem_map.mp hq
    obtain ⟨i, hi, rfl⟩ := List.getElem_of_mem (hps p hp)
    rw [hisFeed.toNat_seq hlen.le hi]
    omega
  have hclean := (clean_after (ps.map Packet.seq) (by rw [List.length_map]; exact hshort) hbelow).iff
  have htally := (captured_foldl (ps.map (Packet.encode (announceRecord seed markets books)))).tally
  rw [seqs_encode] at htally
  rw [← htally, List.length_map, ← hprefix] at hclean
  refine ⟨hclean.trans ⟨fun h => h.map _, fun h => ?_⟩, fun hgaps hreordered => ?_⟩
  · obtain ⟨qs, hqs, hsame⟩ := List.prefix_map_iff.mp h
    have hseqs := congrArg seqs hsame
    rw [seqs_encode, seqs_encode] at hseqs
    have hlength := congrArg List.length hsame
    rw [List.length_map, List.length_map] at hlength
    have hqseqs := (isPrefix_iff_seqs hisFeed hlen (fun p hp => hqs.subset hp)
      (by rw [← hlength]; exact hshort)).mp hqs
    exact hprefix.mpr (by rw [hseqs, hlength]; exact hqseqs)
  · obtain ⟨more, hmore⟩ := hclean.mp ⟨hgaps, hreordered⟩
    rw [recordsOf_encode, ← hrecords, ← hmore, List.flatMap_append]
    exact List.prefix_append _ _

/-- The short feed without its first data datagram: a gap. -/
theorem clean_iff_secondOnly :
    ((secondOnly.foldl State.receive State.start).gaps = 0 ∧
        (secondOnly.foldl State.receive State.start).reordered = 0 ↔ secondOnly <+: shortFeed) ∧
      ¬ secondOnly <+: shortFeed := by
  have hmem : ∀ d ∈ secondOnly, d ∈ shortFeed := by
    rw [shortFeed_eq]
    refine fun d hd => List.map_subset _ ?_ hd
    exact (List.Sublist.cons_cons _ (.cons _ (.refl _))).subset
  have hlen : shortFeed.length < 2 ^ 64 := by
    rw [shortFeed_eq]
    decide
  refine ⟨(clean_iff 7 1 1 (firstBatch.records ++ secondBatch.records) hlen hmem (by decide)).1, ?_⟩
  rintro ⟨more, hmore⟩
  have hseqs := congrArg seqs hmore
  have hheard : seqs secondOnly = [0, 2] := seqs_encode _ _
  have hsent : seqs shortFeed = [0, 1, 2] := by
    rw [shortFeed_eq]
    exact seqs_encode _ _
  rw [seqs_append, hheard, hsent] at hseqs
  cases hseqs

end UdpListen

end OddsEngine
