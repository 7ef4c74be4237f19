/-
  File:      OddsEngine/Tools/VerifiedReplay.lean
  Subject:   What the engine makes of a session file the offline checker passes.

  The checker and the engine's table gate look at different fields. In common they have the number
  of a (market, book), which the checker demands to increase and the table not to repeat: of a
  checked file the table refuses nothing for its number (`not_stale_of_sound`). The market is
  checked against the header. The book is checked by nobody before the table, and against the
  table's bound only. And the number that marks a slot never written is checked by nobody: the
  table takes a record that carries it, and every tick passes it over.

  * `replaysClean_iff` -- the engine replays a checked file without rejecting anything, and prices
    every record, exactly if every record's book is one of the header's and none carries the mark.
-/
import OddsEngine.Engine.RejectedRecords
import OddsEngine.Engine.SlotRecords
import OddsEngine.Tools.VerifySession

namespace OddsEngine.VerifySession

open Lib

/-! ## 1. The table after a run -/

section Replay

variable {F : Type} [DoubleArith F] [Convert F]

/-- The record loop of a run, up to the last record. -/
def afterRecords (opt : Options F) (service : Nat → Service) (shape : Shape)
    (rs : List OddsUpdate) : Except OutOfBounds (LoopState (EngineState F)) :=
  rs.foldlM (recordStep (processTick opt service shape))
    { haveTick := false, curTs := 0, table := {}, st := opt.initial }

/-- A run is that, and the last tick. -/
theorem run_eq_afterRecords (opt : Options F) (service : Nat → Service) (shape : Shape)
    (rs : List OddsUpdate) :
    OddsEngine.run opt service shape rs = (do
      let s ← afterRecords opt service shape rs
      if s.haveTick then processTick opt service shape s.curTs s.table s.st else pure s.st) := rfl

/-- The table takes every record of the stream, whatever the ticks come to. -/
theorem table_foldlM {σ ε : Type} {tick : UInt64 → Table → σ → Except ε σ} {rs : List OddsUpdate}
    {s t : LoopState σ} (h : rs.foldlM (recordStep tick) s = .ok t) :
    t.table = rs.foldl BookTable.receive s.table := by
  induction rs generalizing s with
  | nil =>
    cases h
    rfl
  | cons u rs ih =>
    rw [List.foldlM_cons] at h
    cases hstep : recordStep tick s u with
    | error e =>
      rw [hstep] at h
      cases h
    | ok s' =>
      rw [hstep] at h
      have htable : s'.table = s.table.receive u := by
        unfold recordStep at hstep
        split at hstep
        · cases htick : tick s.curTs s.table s.st with
          | error e =>
            rw [htick] at hstep
            cases hstep
          | ok st =>
            rw [htick] at hstep
            cases hstep
            rfl
        · cases hstep
          rfl
      rw [ih h, htable, List.foldl_cons]

/-- The tick of the record's timestamp prices the record: its slot is one the loops go over, and
    holds a quote of that timestamp, the record's own or one that replaced it there, which is not
    passed over as stale under any setting. (What the devig makes of the quote is not said.) -/
def Priced (shape : Shape) (rs : List OddsUpdate) (u : OddsUpdate) : Prop :=
  ∃ (m : Fin shape.markets) (b : Fin shape.books) (table : Table),
    BookTable.slot? u = some (shape.slot m b) ∧ (u.simTimestampNs, table) ∈ ticksOf rs ∧
      (table.get (shape.slot m b)).recvTimestampNs = u.simTimestampNs ∧
      u.seqNo ≤ (table.get (shape.slot m b)).seqNo ∧
      ∀ staleAfterNs, table.isStale (shape.slot m b) u.simTimestampNs staleAfterNs = false

/-- The engine replays `rs` clean: the run comes to its end, the table rejected nothing, and every
    record lies inside the shape the ticks go over and is priced at its tick. -/
structure ReplaysClean (opt : Options F) (service : Nat → Service) (shape : Shape)
    (rs : List OddsUpdate) : Prop where
  ends : ∃ st, OddsEngine.run opt service shape rs = .ok st
  accepted : ∃ s, afterRecords opt service shape rs = .ok s ∧ s.table.rejectedOutOfRange = 0 ∧
    s.table.rejectedStaleSeq = 0
  inside : ∀ u ∈ rs, u.marketId.toNat < shape.markets ∧ u.bookId.toNat < shape.books
  priced : ∀ u ∈ rs, Priced shape rs u

end Replay

/-! ## 2. What the table refuses of a checked file -/

/-- The number of the next record of a sound stream is new to its slot. -/
theorem not_stale_of_sound {h : SessionHeader} {rs : List OddsUpdate} {u : OddsUpdate}
    (hs : Sound h (rs ++ [u])) {s : Fin 1024 × Fin 16} (hslot : BookTable.slot? u = some s) :
    ((rs.foldl BookTable.receive ({} : Table)).get s).seqNo = kEmptySeq ∨
      ((rs.foldl BookTable.receive ({} : Table)).get s).seqNo < u.seqNo := by
  rw [BookTable.get_foldl_receive, BookTable.content_seqNo]
  cases hkept : BookTable.kept (BookTable.recordsAt s rs) with
  | none => exact Or.inl rfl
  | some q =>
    right
    obtain ⟨hq, hqs⟩ := List.mem_filter.mp (BookTable.mem_of_kept hkept)
    obtain ⟨hm, hb⟩ := BookTable.slot?_inj (of_decide_eq_true hqs) hslot
    exact (List.pairwise_append.mp hs.seqs).2.2 q hq u (by simp) hm hb

/-- **A sound stream inside the table's bounds is taken whole.** -/
theorem counters_of_sound {h : SessionHeader} {rs : List OddsUpdate} (hs : Sound h rs)
    (hin : ∀ u ∈ rs, u.marketId.toNat < 1024 ∧ u.bookId.toNat < 16) :
    (rs.foldl BookTable.receive ({} : Table)).rejectedOutOfRange = 0 ∧
      (rs.foldl BookTable.receive ({} : Table)).rejectedStaleSeq = 0 := by
  induction rs using List.reverseRecOn with
  | nil => exact ⟨rfl, rfl⟩
  | append_singleton rs u ih =>
    have hinit : Sound h rs :=
      ⟨fun v hv => hs.records v (List.mem_append_left _ hv),
        (List.pairwise_append.mp hs.seqs).1, (List.pairwise_append.mp hs.times).1⟩
    obtain ⟨hrange, hstale⟩ := ih hinit fun v hv => hin v (List.mem_append_left _ hv)
    have hu : u.marketId.toNat < 1024 ∧ u.bookId.toNat < 16 := hin u (by simp)
    rw [List.foldl_append, List.foldl_cons, List.foldl_nil]
    rcases BookTable.apply_cases (rs.foldl BookTable.receive ({} : Table)) u u.simTimestampNs with
      ⟨hslot, _⟩ | ⟨s, hslot, hne, hle, _⟩ | ⟨_, _, _, e⟩
    · unfold BookTable.slot? at hslot
      rw [dif_pos hu] at hslot
      cases hslot
    · rcases not_stale_of_sound hs hslot with hmark | hlt
      · exact absurd hmark hne
      · exact absurd hlt (UInt64.not_lt.mpr hle)
    · unfold BookTable.receive at e hrange hstale ⊢
      rw [e]
      exact ⟨hrange, hstale⟩

/-! ## 3. What a tick finds of it -/

/-- A record that carries the mark is not priced. -/
theorem ne_mark_of_priced {shape : Shape} {rs : List OddsUpdate} {u : OddsUpdate}
    (h : Priced shape rs u) : u.seqNo ≠ kEmptySeq := by
  obtain ⟨m, b, table, -, -, -, hle, hstale⟩ := h
  intro hmark
  have hslot : (table.get (shape.slot m b)).seqNo = kEmptySeq := by
    rw [hmark] at hle
    have hnat := UInt64.le_iff_toNat_le.mp hle
    have hlt := (table.get (shape.slot m b)).seqNo.toNat_lt
    have hmax : kEmptySeq.toNat = 2 ^ 64 - 1 := rfl
    exact UInt64.toNat_inj.mp (by omega)
  have hskipped : table.isStale (shape.slot m b) u.simTimestampNs 0 = true := if_pos hslot
  rw [hstale] at hskipped
  cases hskipped

/-- Of two records of a sound stream on one slot the one with the larger number is not earlier. -/
theorem times_of_seqs {h : SessionHeader} {rs : List OddsUpdate} (hs : Sound h rs)
    {u v : OddsUpdate} (hu : u ∈ rs) (hv : v ∈ rs) {s : Fin 1024 × Fin 16}
    (hus : BookTable.slot? u = some s) (hvs : BookTable.slot? v = some s)
    (hle : u.seqNo ≤ v.seqNo) : u.simTimestampNs ≤ v.simTimestampNs := by
  obtain ⟨hm, hb⟩ := BookTable.slot?_inj hus hvs
  let R := fun u v : OddsUpdate => u.simTimestampNs ≤ v.simTimestampNs ∧
    (u.marketId = v.marketId → u.bookId = v.bookId → u.seqNo < v.seqNo)
  have hboth : rs.Pairwise fun u v => R u v ∨ R v u :=
    (hs.times.and hs.seqs).imp Or.inl
  have hsymm : Std.Symm fun u v => R u v ∨ R v u := ⟨fun _ _ h => h.symm⟩
  by_cases huv : u = v
  · rw [huv]
  · rcases hboth.forall hu hv huv with hbefore | hafter
    · exact hbefore.1
    · exact absurd (hafter.2 hm.symm hb.symm) (UInt64.not_lt.mpr hle)

/-- **Every other record of a sound stream inside the shape is.** -/
theorem priced_of_sound {h : SessionHeader} {rs : List OddsUpdate} (hs : Sound h rs) {shape : Shape}
    (hmark : ∀ u ∈ rs, u.seqNo ≠ kEmptySeq) {u : OddsUpdate} (hu : u ∈ rs)
    (hm : u.marketId.toNat < shape.markets) (hb : u.bookId.toNat < shape.books) :
    Priced shape rs u := by
  let s := shape.slot ⟨u.marketId.toNat, hm⟩ ⟨u.bookId.toNat, hb⟩
  have hslot : BookTable.slot? u = some s :=
    dif_pos ⟨hm.trans_le shape.markets_le, hb.trans_le shape.books_le⟩
  have hsorted : TimeOrdered rs := List.pairwise_map.mpr hs.times
  -- the records of the slot up to this timestamp, this one among them
  let upTo := rs.filter fun v => decide (v.simTimestampNs ≤ u.simTimestampNs)
  have hmem : ∀ {v}, v ∈ BookTable.recordsAt s upTo ↔
      (v ∈ rs ∧ v.simTimestampNs ≤ u.simTimestampNs) ∧ BookTable.slot? v = some s := by
    intro v
    unfold BookTable.recordsAt
    rw [List.mem_filter, List.mem_filter, decide_eq_true_iff, decide_eq_true_iff]
  have hself : u ∈ BookTable.recordsAt s upTo := hmem.mpr ⟨⟨hu, le_refl _⟩, hslot⟩
  have hbehind : BookTable.behindMark (BookTable.recordsAt s upTo) = BookTable.recordsAt s upTo :=
    List.rtakeWhile_eq_self_iff.mpr fun v hv =>
      decide_eq_true (hmark v (hmem.mp hv).1.1)
  rcases BookTable.kept_cases (BookTable.recordsAt s upTo) with
    ⟨hnil, -⟩ | ⟨q, hkept, before, after, hsplit, hbefore, hafter⟩
  · rw [hbehind] at hnil
    rw [hnil] at hself
    exact absurd hself List.not_mem_nil
  · have hq := hmem.mp (BookTable.mem_of_kept hkept)
    have hle : u.seqNo ≤ q.seqNo := by
      rw [hbehind] at hsplit
      rw [hsplit] at hself
      rcases List.mem_append.mp hself with hmem' | hmem'
      · exact (hbefore u hmem').le
      · rcases List.mem_cons.mp hmem' with rfl | hmem'
        · exact le_refl _
        · exact hafter u hmem'
    have htime : q.simTimestampNs = u.simTimestampNs :=
      le_antisymm hq.1.2 (times_of_seqs hs hu hq.1.1 hslot hq.2 hle)
    have hget : (tableUpTo rs u.simTimestampNs).get s = Quote.ofUpdate q q.simTimestampNs := by
      unfold tableUpTo
      rw [BookTable.get_foldl_receive, hkept]
      rfl
    refine ⟨⟨u.marketId.toNat, hm⟩, ⟨u.bookId.toNat, hb⟩, tableUpTo rs u.simTimestampNs, hslot,
      ?_, ?_, ?_, fun gate => ?_⟩
    · rw [ticksOf_of_sorted hsorted]
      exact List.mem_map_of_mem (mem_tickTimes.mpr ⟨u, hu, rfl⟩)
    · show ((tableUpTo rs u.simTimestampNs).get s).recvTimestampNs = _
      rw [hget]
      exact htime
    · show u.seqNo ≤ ((tableUpTo rs u.simTimestampNs).get s).seqNo
      rw [hget]
      exact hle
    · have hwritten : ((tableUpTo rs u.simTimestampNs).table s).seqNo ≠ kEmptySeq := by
        show ((tableUpTo rs u.simTimestampNs).get s).seqNo ≠ kEmptySeq
        rw [hget]
        exact hmark q hq.1.1
      have hnow : u.simTimestampNs ≤ ((tableUpTo rs u.simTimestampNs).table s).recvTimestampNs := by
        show _ ≤ ((tableUpTo rs u.simTimestampNs).get s).recvTimestampNs
        rw [hget]
        exact htime.ge
      exact (if_neg hwritten).trans (if_pos hnow)

/-! ## 4. The engine and the checker -/

variable {F : Type} [DoubleArith F] [Convert F]

/-- **The engine replays a file the checker passes without rejecting a record, and prices every
    record at its tick, exactly if every record's book is one of the header's and no record carries
    the number that marks a slot never written.** -/
theorem replaysClean_iff (opt : Options F) (service : Nat → Service) {path : Bytes}
    {file : Option (List UInt8)} {s : SessionReader} {rs : List OddsUpdate} {shape : Shape}
    (hpass : run path file = 0) (hstart : SessionReader.start path file = .ok s)
    (hread : s.readAll = .ok rs) (hshape : admitShape s.header = .ok shape) :
    ReplaysClean opt service shape rs ↔
      ∀ u ∈ rs, u.bookId.toUInt32 < s.header.books ∧ u.seqNo ≠ kEmptySeq := by
  obtain ⟨s', rs', hstart', hread', hreport⟩ := (run_eq_zero_iff path file).mp hpass
  rw [hstart] at hstart'
  cases hstart'
  rw [hread] at hread'
  cases hread'
  have hsound := ((report_eq_nil_iff _ _).mp hreport).1
  have hdims : shape.markets = s.header.markets.toNat ∧ shape.books = s.header.books.toNat := by
    unfold admitShape at hshape
    split at hshape
    · cases hshape
    · split at hshape
      · cases hshape
      · cases hshape
        exact ⟨rfl, rfl⟩
  have hmarket : ∀ u ∈ rs, u.marketId.toNat < shape.markets := by
    intro u hu
    have hlt := UInt32.lt_iff_toNat_lt.mp (hsound.records u hu).market
    rw [UInt16.toNat_toUInt32] at hlt
    rw [hdims.1]
    exact hlt
  have hbook : ∀ u : OddsUpdate, u.bookId.toUInt32 < s.header.books ↔
      u.bookId.toNat < shape.books := by
    intro u
    rw [UInt32.lt_iff_toNat_lt, UInt16.toNat_toUInt32, hdims.2]
  constructor
  · intro hclean u hu
    exact ⟨(hbook u).mpr (hclean.inside u hu).2, ne_mark_of_priced (hclean.priced u hu)⟩
  · intro hbooks
    have hinside : ∀ u ∈ rs, u.marketId.toNat < shape.markets ∧ u.bookId.toNat < shape.books :=
      fun u hu => ⟨hmarket u hu, (hbook u).mp (hbooks u hu).1⟩
    have hcounts : ∀ u ∈ rs, u.outcomeCount.toNat ≤ kMaxOutcomes := fun u hu =>
      UInt8.le_iff_toNat_le.mp (hsound.records u hu).count.2
    obtain ⟨st, hrun, _⟩ := run_results opt service shape (countsOk_ticksOf hcounts)
    refine ⟨⟨st, hrun⟩, ?_, hinside, fun u hu => priced_of_sound hsound
      (fun v hv => (hbooks v hv).2) hu (hinside u hu).1 (hinside u hu).2⟩
    rw [run_eq_afterRecords] at hrun
    cases hafter : afterRecords opt service shape rs with
    | error e =>
      rw [hafter] at hrun
      cases hrun
    | ok t =>
      refine ⟨t, rfl, ?_⟩
      rw [table_foldlM hafter]
      exact counters_of_sound hsound fun u hu =>
        ⟨Nat.lt_of_lt_of_le (hinside u hu).1 shape.markets_le,
          Nat.lt_of_lt_of_le (hinside u hu).2 shape.books_le⟩

/-! ## 5. A file with one record too many -/

/-- One market, one book. -/
def smallHeader : SessionHeader := runHeader 42 1 1 1

/-- Its quote of 1.9 on both sides, with the unused slots at zero. -/
def evenRecord : OddsUpdate :=
  { evenQuote with oddsMilli := fun i => if i.val < 2 then 1900 else 0 }

/-- The record of a book the header does not count, and the table has no room for. -/
def strangeRecord : OddsUpdate := { evenRecord with bookId := 20 }

theorem report_evenRecord : report { smallHeader with recordCount := 1 } [evenRecord] = [] := by
  decide

theorem report_strangeRecord :
    report { smallHeader with recordCount := 2 } [evenRecord, strangeRecord] = [] := by
  decide

/-- One record of the header's only book: the file passes, and is replayed clean. -/
theorem replaysClean_evenRecord :
    run [] (some (FileSink.fileOf smallHeader [evenRecord])) = 0 ∧
      ReplaysClean plainOptions noService oneBook [evenRecord] := by
  have hsound := ((report_eq_nil_iff _ _).mp report_evenRecord).1
  have hpass := run_fileOf [] ⟨rfl, rfl, rfl⟩ (List.cons_ne_nil _ []) (by decide) hsound
  obtain ⟨s, t, hstart, hdel, hheader, _⟩ :=
    @SessionReader.delivers_fileOf [] smallHeader ⟨rfl, rfl, rfl⟩ [evenRecord] (by simp) (by decide)
  have hshape : admitShape s.header = .ok oneBook := by
    rw [hheader]
    rfl
  refine ⟨hpass, (replaysClean_iff plainOptions noService hpass hstart
    (SessionReader.readAll_eq_ok_iff.mpr ⟨t, hdel⟩) hshape).mpr ?_⟩
  rw [hheader]
  decide

/-- With the strange book's record behind it the file still passes; the engine rejects that record
    and prices neither its market nor its book. -/
theorem not_replaysClean_strangeRecord :
    ([evenRecord, strangeRecord].foldl BookTable.receive ({} : Table)).rejectedOutOfRange = 1 ∧
      ¬ ∀ (path : Bytes) (file : Option (List UInt8)) (s : SessionReader) (rs : List OddsUpdate)
        (shape : Shape), run path file = 0 → SessionReader.start path file = .ok s →
          s.readAll = .ok rs → admitShape s.header = .ok shape →
            ReplaysClean plainOptions noService shape rs := by
  refine ⟨by decide, fun h => ?_⟩
  have hsound := ((report_eq_nil_iff _ _).mp report_strangeRecord).1
  have hpass := @run_fileOf [] smallHeader ⟨rfl, rfl, rfl⟩ [evenRecord, strangeRecord]
    (List.cons_ne_nil _ _) (by decide) hsound
  obtain ⟨s, t, hstart, hdel, hheader, _⟩ := @SessionReader.delivers_fileOf [] smallHeader
    ⟨rfl, rfl, rfl⟩ [evenRecord, strangeRecord] (by simp) (by decide)
  have hshape : admitShape s.header = .ok oneBook := by
    rw [hheader]
    rfl
  have hclean := h [] _ s _ oneBook hpass hstart
    (SessionReader.readAll_eq_ok_iff.mpr ⟨t, hdel⟩) hshape
  exact absurd (hclean.inside strangeRecord (by simp)).2 (by decide)

/-- Its quote again, under the number that marks a slot never written. -/
def markedRecord : OddsUpdate := { evenRecord with seqNo := kEmptySeq }

/-- With that record alone the file passes; the engine takes the record and never prices it. -/
theorem not_replaysClean_markedRecord :
    run [] (some (FileSink.fileOf smallHeader [markedRecord])) = 0 ∧
      ([markedRecord].foldl BookTable.receive ({} : Table)).rejectedOutOfRange = 0 ∧
      ([markedRecord].foldl BookTable.receive ({} : Table)).rejectedStaleSeq = 0 ∧
      ¬ ReplaysClean plainOptions noService oneBook [markedRecord] := by
  have hreport : report { smallHeader with recordCount := 1 } [markedRecord] = [] := by decide
  have hsound := ((report_eq_nil_iff _ _).mp hreport).1
  refine ⟨run_fileOf [] ⟨rfl, rfl, rfl⟩ (List.cons_ne_nil _ []) (by decide) hsound, by decide,
    by decide, fun h => ?_⟩
  exact ne_mark_of_priced (h.priced markedRecord List.mem_cons_self) rfl

end OddsEngine.VerifySession
