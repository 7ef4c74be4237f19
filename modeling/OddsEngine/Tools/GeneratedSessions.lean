/-
  File:      OddsEngine/Tools/GeneratedSessions.lean
  Subject:   Every session the simulator generates passes the offline checker.

  Whatever the books quote, over the reals and for any roster whose intervals are positive and
  whose ids number the books, the generated stream is sound for the run's header
  (`generate_verifies`). The counters run over all markets of a book, so the numbers of one
  (market, book) have gaps, but they increase; a timestamp is the tick's, and the clamp keeps every
  price inside the format's bounds.
-/
import OddsEngine.Sim.Generator
import OddsEngine.Tools.VerifySession

namespace OddsEngine.Generator

open Lib VerifySession

/-- What the loop needs of a roster: positive intervals, and ids that number the books. -/
structure RosterOk {F : Type} (roster : List (SimBookConfig F)) : Prop where
  intervals : ∀ book ∈ roster, 1 ≤ book.updateIntervalTicks
  ids_nodup : (roster.map fun book => book.cfg.bookId).Nodup
  ids_lt : ∀ book ∈ roster, book.cfg.bookId.toNat < roster.length

/-- A positive `int` is the same number in 64 bits. -/
theorem toNat_interval {F : Type} {book : SimBookConfig F}
    (h : 1 ≤ book.updateIntervalTicks) :
    (interval book).toNat = book.updateIntervalTicks.toNatClampNeg ∧
      0 < book.updateIntervalTicks.toNatClampNeg := by
  have hint : (1 : Int) ≤ book.updateIntervalTicks.toInt := Int32.le_iff_toInt_le.mp h
  constructor
  · have hnn : (0 : Int64) ≤ book.updateIntervalTicks.toInt64 := by
      rw [Int64.le_iff_toInt_le, Int32.toInt_toInt64]
      exact Int.le_trans (by decide) hint
    unfold interval
    rw [Int64.toNat_toUInt64_of_le hnn]
    exact congrArg Int.toNat (Int32.toInt_toInt64 _)
  · show 0 < book.updateIntervalTicks.toInt.toNat
    omega

section Order

variable {F : Type} [DoubleArith F] [Truncate F]
variable (roster : List (SimBookConfig F)) (quotes : UInt64 → Nat → Nat → Fin kOutcomes → F)

/-- The timestamp of a record is its tick's. -/
theorem toNat_simTimestampNs {v : Visit roster.length}
    (h : v.tick * kTickIntervalNs.toNat < 2 ^ 64) (k : Nat) :
    (sent roster quotes v k).simTimestampNs.toNat = v.tick * kTickIntervalNs.toNat := by
  have hpos : 0 < kTickIntervalNs.toNat := by decide
  have htick : v.tick.toUInt64.toNat = v.tick :=
    UInt64.toNat_ofNat_of_lt' (Nat.lt_of_le_of_lt (Nat.le_mul_of_pos_right _ hpos) h)
  show (v.tick.toUInt64 * kTickIntervalNs).toNat = _
  rw [UInt64.toNat_mul, htick, Nat.mod_eq_of_lt h]

/-- What the visits must satisfy for their records to come in order. -/
structure InOrder (vs : List (Visit roster.length)) : Prop where
  sorted : vs.Pairwise fun v w => v.tick ≤ w.tick
  ticks : ∀ v ∈ vs, v.tick * kTickIntervalNs.toNat < 2 ^ 64
  counts : ∀ b, sentBy roster b vs < 2 ^ 64

omit [DoubleArith F] [Truncate F] in
theorem InOrder.init {roster : List (SimBookConfig F)} {vs : List (Visit roster.length)}
    {v : Visit roster.length} (h : InOrder roster (vs ++ [v])) : InOrder roster vs where
  sorted := (List.pairwise_append.mp h.sorted).1
  ticks := fun w hw => h.ticks w (List.mem_append_left _ hw)
  counts := fun b => by
    have hb := h.counts b
    rw [sentBy_append] at hb
    omega

/-- **The records come in order**: the timestamps of the ticks, and of each book larger and larger
    numbers. The induction is on the last visit, and the book's counter bounds what it sent. -/
theorem sink_pairwise (hids : (roster.map fun book => book.cfg.bookId).Nodup)
    {vs : List (Visit roster.length)} (h : InOrder roster vs) :
    (vs.foldl (step roster quotes) {}).sink.Pairwise fun u w =>
      (u.bookId = w.bookId → u.seqNo < w.seqNo) ∧ u.simTimestampNs ≤ w.simTimestampNs := by
  induction vs using List.reverseRecOn with
  | nil => exact List.Pairwise.nil
  | append_singleton vs v ih =>
    have hnum := numbered_foldl roster quotes vs
    rw [List.foldl_append, List.foldl_cons, List.foldl_nil, step_eq roster quotes hnum v]
    split
    · refine List.pairwise_append.mpr ⟨ih h.init, List.pairwise_singleton _ _, ?_⟩
      intro u hu w hw
      obtain ⟨v', hv', k, hk, rfl⟩ := hnum.origin u hu
      rw [List.mem_singleton.mp hw]
      constructor
      · intro hid
        have hbook : v'.book = v.book := by
          rw [← List.ofFn_getElem_eq_map, List.nodup_ofFn] at hids
          exact hids hid
        have hcount := h.init.counts v.book
        rw [hbook] at hk
        rw [UInt64.lt_iff_toNat_lt]
        show k.toUInt64.toNat < (sentBy roster v.book vs).toUInt64.toNat
        rw [UInt64.toNat_ofNat_of_lt' hcount,
          UInt64.toNat_ofNat_of_lt' (Nat.lt_trans hk hcount)]
        exact hk
      · have hle := (List.pairwise_append.mp h.sorted).2.2 v' hv' v (by simp)
        rw [UInt64.le_iff_toNat_le, toNat_simTimestampNs roster quotes (h.init.ticks v' hv'),
          toNat_simTimestampNs roster quotes (h.ticks v (by simp))]
        exact Nat.mul_le_mul_right _ hle
    · exact ih h.init

omit [DoubleArith F] [Truncate F] in
/-- The visits of a run are such, for a roster and a run that fit their counters. -/
theorem inOrder_visits {roster : List (SimBookConfig F)} (hr : RosterOk roster)
    {markets : UInt32} {ticks : UInt64} (hm : markets ≤ 65535)
    (ht : ticks.toNat * kTickIntervalNs.toNat < 2 ^ 64) :
    InOrder roster (visits roster.length markets.toNat ticks.toNat) where
  sorted := visits_sorted _ _ _
  ticks := fun v hv =>
    Nat.lt_of_le_of_lt (Nat.mul_le_mul_right _ (Nat.le_of_lt (mem_visits hv).1)) ht
  counts := fun b => by
    obtain ⟨hint, hpos⟩ := toNat_interval (hr.intervals _ (List.getElem_mem b.isLt))
    have hint' : 0 < (interval roster[b]).toNat := Nat.lt_of_lt_of_eq hpos hint.symm
    rw [sentBy_visits roster hint' _ (Nat.le_of_lt ticks.toNat_lt)]
    have hk : kTickIntervalNs.toNat = 100000000 := rfl
    rw [hk] at ht
    have hm : markets.toNat ≤ 65535 := UInt32.le_iff_toNat_le.mp hm
    have hdue := due_le hint' ticks.toNat
    calc markets.toNat * due (interval roster[b]).toNat ticks.toNat
        ≤ 65535 * ticks.toNat := Nat.mul_le_mul hm hdue
      _ < 2 ^ 64 := by omega

end Order

/-! ## The run's session -/

/-- Every record of a run is in order by itself: the market is one of the run's, there are three
    outcomes, and the clamp has been at every price. -/
theorem recordOk_sent {roster : List (SimBookConfig ℝ)}
    (quotes : UInt64 → Nat → Nat → Fin kOutcomes → ℝ) {h : SessionHeader}
    (hm : h.markets ≤ 65535) {v : Visit roster.length} (hv : v.market < h.markets.toNat) (k : Nat) :
    RecordOk h (sent roster quotes v k) where
  market := by
    have hm : h.markets.toNat ≤ 65535 := UInt32.le_iff_toNat_le.mp hm
    have hmarket : v.market.toUInt16.toNat = v.market :=
      UInt16.toNat_ofNat_of_lt' (Nat.lt_of_lt_of_le hv (Nat.le_trans hm (by decide)))
    rw [UInt32.lt_iff_toNat_lt, UInt16.toNat_toUInt32]
    exact Nat.lt_of_le_of_lt (Nat.le_of_eq hmarket) hv
  count := (by decide : (2 : UInt8) ≤ 3 ∧ (3 : UInt8) ≤ 4)
  odds := fun i hi => by
    have hi : i.val < kOutcomes := hi
    have hodds : (sent roster quotes v k).oddsMilli i =
        Bookmaker.oddsMilli (quotes v.tick.toUInt64 v.market v.book ⟨i.val, hi⟩) := dif_pos hi
    rw [hodds]
    exact Bookmaker.oddsMilli_bounds _
  unused := fun i hi => dif_neg (Nat.not_lt.mpr hi)

/-- **The stream of a run is sound**, with the ids of its books. -/
theorem sound_generate {roster : List (SimBookConfig ℝ)} (hr : RosterOk roster)
    (quotes : UInt64 → Nat → Nat → Fin kOutcomes → ℝ) {markets : UInt32} {ticks : UInt64}
    (hm : markets ≤ 65535) (ht : ticks.toNat * kTickIntervalNs.toNat < 2 ^ 64)
    {h : SessionHeader} (hh : h.markets = markets) :
    Sound h (generate roster quotes markets ticks) ∧
      ∀ u ∈ generate roster quotes markets ticks, u.bookId.toNat < roster.length := by
  subst hh
  have horder := inOrder_visits hr hm ht
  have hpair := sink_pairwise roster quotes hr.ids_nodup horder
  have horigin := (numbered_foldl roster quotes
    (visits roster.length h.markets.toNat ticks.toNat)).origin
  rw [generate_eq_foldl]
  refine ⟨⟨fun u hu => ?_, ?_, ?_⟩, fun u hu => ?_⟩
  · obtain ⟨v, hv, k, _, rfl⟩ := horigin u hu
    exact recordOk_sent quotes hm (mem_visits hv).2 k
  · exact hpair.imp fun hw _ hb => hw.1 hb
  · exact hpair.imp fun hw => hw.2
  · obtain ⟨v, _, k, _, rfl⟩ := horigin u hu
    exact hr.ids_lt _ (List.getElem_mem v.book.isLt)

/-- **What the simulator generates, the checker passes**: for every roster, number of markets and
    ticks, and whatever the books quote, nothing is noted of the stream under the header of its
    file, the books' ids stay below their number, and the stream has `markets` times the sum of
    `⌈ticks / interval⌉` records. A file that holds a record at all, and no more than its count can
    state, passes the tool. -/
theorem generate_verifies (path : Bytes) (seed : UInt64) (markets : UInt32) (ticks : UInt64)
    (roster : List (SimBookConfig ℝ)) (quotes : UInt64 → Nat → Nat → Fin kOutcomes → ℝ)
    (hm : markets ≤ 65535) (ht : ticks.toNat * kTickIntervalNs.toNat < 2 ^ 64)
    (hr : RosterOk roster) :
    let rs := generate roster quotes markets ticks
    let header := runHeader seed markets roster.length.toUInt32 ticks
    Sound { header with recordCount := rs.length.toUInt64 } rs ∧
      report { header with recordCount := rs.length.toUInt64 } rs = [] ∧
      (∀ u ∈ rs, u.bookId.toNat < roster.length) ∧
      rs.length = markets.toNat * (roster.map fun book =>
        (ticks.toNat + book.updateIntervalTicks.toNatClampNeg - 1) /
          book.updateIntervalTicks.toNatClampNeg).sum ∧
      (rs ≠ [] → rs.length < 2 ^ 64 →
        VerifySession.run path (some (FileSink.fileOf header rs)) = 0) := by
  intro rs header
  obtain ⟨hsound, hids⟩ := @sound_generate roster hr quotes markets ticks hm ht
    { header with recordCount := rs.length.toUInt64 } rfl
  refine ⟨hsound, (report_eq_nil_iff _ _).mpr ⟨hsound, rfl⟩, hids, ?_, fun hne hlen => ?_⟩
  · have hpos : ∀ book ∈ roster, 0 < (interval book).toNat := by
      intro book hbook
      obtain ⟨hint, hpos⟩ := toNat_interval (hr.intervals book hbook)
      exact Nat.lt_of_lt_of_eq hpos hint.symm
    rw [length_generate roster quotes markets ticks hpos]
    congr 2
    refine List.map_congr_left fun book hbook => ?_
    rw [due, (toNat_interval (hr.intervals book hbook)).1]
  · exact run_fileOf path ⟨rfl, rfl, rfl⟩ hne hlen hsound

/-- The default roster is such a roster. -/
theorem rosterOk_default : RosterOk (defaultRoster : List (SimBookConfig ℝ)) where
  intervals := by simp [defaultRoster]
  ids_nodup := by simp [defaultRoster]
  ids_lt := by simp [defaultRoster]

/-- Two markets and three ticks of the default roster: 2 * (3 + 2 + 1 + 1 + 1) records. -/
theorem generate_default_verifies :
    let quotes : UInt64 → Nat → Nat → Fin kOutcomes → ℝ := fun _ _ _ _ => 0.5
    let rs := generate defaultRoster quotes 2 3
    report { runHeader 42 2 5 3 with recordCount := rs.length.toUInt64 } rs = [] ∧
      rs.length = 16 := by
  intro quotes rs
  have h := generate_verifies [] 42 2 3 defaultRoster quotes (by decide) (by decide)
    rosterOk_default
  exact ⟨h.2.1, h.2.2.2.1⟩

end OddsEngine.Generator
