/-
  File:      OddsEngine/Tools/TruthLookup.lean
  Subject:   Which truth a quote is compared with (the lookup of tools/validate_devig.cpp, against
             the run that wrote both files).

  The tool takes the lag off a quote's tick and looks up the truth of that tick and market, by a key
  that packs both. In a run whose time stamps fit 64 bits the ticks are below 2^38, so a key names
  one tick and one market (`makeKey_eq_iff`), and the file has one record of each
  (`find_truthRecords`).

  * `comparedWith_lagged` -- for a book of that lag the record found is the vector the quote was built
    from, and it is found wherever the tick is not below the lag.
-/
import OddsEngine.Sim.Simulation

namespace OddsEngine

open Lib

/-! ## 1. The key -/

namespace TruthReader

variable {F : Type}

theorem toNat_makeKey {tick : UInt64} (ht : tick.toNat < 2 ^ 48) (m : UInt16) :
    (makeKey tick m).toNat = tick.toNat * 65536 + m.toNat := by
  have hm := m.toNat_lt
  have hshift : (tick <<< 16).toNat = tick.toNat <<< 16 := by
    have h16 : (16 : UInt64).toNat % 64 = 16 := rfl
    rw [UInt64.toNat_shiftLeft, h16, Nat.shiftLeft_eq]
    omega
  rw [makeKey, UInt64.toNat_or, hshift, UInt16.toNat_toUInt64,
    ← Nat.shiftLeft_add_eq_or_of_lt hm, Nat.shiftLeft_eq]

/-- A key names one tick and one market. -/
theorem makeKey_eq_iff {tick tick' : UInt64} (ht : tick.toNat < 2 ^ 48) (ht' : tick'.toNat < 2 ^ 48)
    (m m' : UInt16) : makeKey tick m = makeKey tick' m' ↔ tick = tick' ∧ m = m' := by
  have hm := m.toNat_lt
  have hm' := m'.toNat_lt
  rw [← UInt64.toNat_inj, toNat_makeKey ht, toNat_makeKey ht', ← UInt64.toNat_inj,
    ← UInt16.toNat_inj]
  omega

/-- The only record of its key is found. -/
theorem find_of_unique {records : List (TruthRecord F)} {t : TruthRecord F} (ht : t ∈ records)
    (hunique : ∀ r ∈ records, makeKey r.tick r.marketId = makeKey t.tick t.marketId → r = t) :
    find records t.tick t.marketId = some t := by
  unfold find
  cases hfind : records.find? fun r => makeKey r.tick r.marketId == makeKey t.tick t.marketId with
  | none =>
    have hnot := List.find?_eq_none.mp hfind t ht
    exact absurd (beq_self_eq_true (makeKey t.tick t.marketId)) hnot
  | some r =>
    have hkey := List.find?_some hfind
    rw [hunique r (List.mem_of_find?_eq_some hfind) (eq_of_beq hkey)]

end TruthReader

/-! ## 2. The records of a run -/

namespace Simulation

variable {F : Type} [DoubleArith F] [Pow F F] [Truncate F]

omit [Pow F F] [Truncate F] in
/-- **The truth of every tick and market** of a run is found. -/
theorem find_truthRecords (streams : Streams F) {markets ticks : Nat} (hm : markets ≤ 65535)
    (hticks : ticks ≤ 2 ^ 48) {tick m : Nat} (htick : tick < ticks) (hmarket : m < markets) :
    TruthReader.find (truthRecords streams markets ticks) tick.toUInt64 m.toUInt16 =
      some (truthOf tick.toUInt64 m (streams.latent tick.toUInt64 m)) := by
  have hnat : ∀ {k : Nat}, k < ticks → k.toUInt64.toNat = k := fun hk =>
    UInt64.toNat_ofNat_of_lt' (Nat.lt_of_lt_of_le (Nat.lt_of_lt_of_le hk hticks) (by decide))
  have hnat' : ∀ {k : Nat}, k < markets → k.toUInt16.toNat = k := fun hk =>
    UInt16.toNat_ofNat_of_lt' (Nat.lt_of_lt_of_le (Nat.lt_of_lt_of_le hk hm) (by decide))
  refine @TruthReader.find_of_unique F _
    (truthOf tick.toUInt64 m (streams.latent tick.toUInt64 m)) ?_ ?_
  · exact List.mem_flatMap.mpr ⟨tick, List.mem_range.mpr htick,
      List.mem_map.mpr ⟨m, List.mem_range.mpr hmarket, rfl⟩⟩
  · intro r hr hkey
    obtain ⟨tick', htick', hr⟩ := List.mem_flatMap.mp hr
    obtain ⟨m', hm', rfl⟩ := List.mem_map.mp hr
    rw [List.mem_range] at htick' hm'
    obtain ⟨hsame, hsame'⟩ := (TruthReader.makeKey_eq_iff
      (by rw [truthOf, hnat htick']; omega) (by rw [truthOf, hnat htick]; omega) _ _).mp hkey
    have htt : tick' = tick := by
      rw [← hnat htick', ← hnat htick]
      exact congrArg UInt64.toNat hsame
    have hmm : m' = m := by
      rw [← hnat' hm', ← hnat' hmarket]
      exact congrArg UInt16.toNat hsame'
    rw [htt, hmm]

end Simulation

/-! ## 3. The lookup -/

namespace ValidateDevig

open Simulation

variable {F : Type} [DoubleArith F]

/-- The truth record a session record is scored against. -/
def comparedWith (truth : List (TruthRecord F)) (lagTicks : UInt64) (u : OddsUpdate) :
    Option (TruthRecord F) :=
  let tick := u.simTimestampNs / kTickIntervalNs
  if tick < lagTicks then none else TruthReader.find truth (tick - lagTicks) u.marketId

/-- Without such a record the tool counts the quote, and no more. -/
theorem scoreRecord_of_none {truth : List (TruthRecord F)} {lagTicks : UInt64} {u : OddsUpdate}
    (h : comparedWith truth lagTicks u = none) (s : Scores F) :
    scoreRecord truth lagTicks s u = .ok { s with unmatched := s.unmatched + 1 } := by
  unfold comparedWith at h
  unfold scoreRecord
  dsimp only at h ⊢
  by_cases hearly : u.simTimestampNs / kTickIntervalNs < lagTicks
  · rw [if_pos hearly]
    rfl
  · rw [if_neg hearly] at h ⊢
    rw [h]
    rfl

/-- With one it scores the answers of the three methods against it. -/
theorem scoreRecord_of_some {truth : List (TruthRecord F)} {lagTicks : UInt64} {u : OddsUpdate}
    {t : TruthRecord F} (h : comparedWith truth lagTicks u = some t) (s : Scores F) :
    scoreRecord truth lagTicks s u =
      collect u.oddsMilli (decimalOdds : UInt32 → F) u.outcomeCount.toNat >>= fun odds =>
        (List.finRange 3).foldlM (scoreMethod u t ![Devig.multiplicative odds,
          Devig.power odds 1e-13 100, Devig.shin odds 1e-15 200])
          { s with matched := s.matched + 1 } := by
  unfold comparedWith at h
  unfold scoreRecord
  dsimp only at h ⊢
  by_cases hearly : u.simTimestampNs / kTickIntervalNs < lagTicks
  · rw [if_pos hearly] at h
    cases h
  · rw [if_neg hearly] at h ⊢
    rw [h]

variable [Pow F F] [Truncate F]

/-- A time stamp that fits gives its tick back. -/
theorem tick_of_stamp {tick : Nat} (h : tick * kTickIntervalNs.toNat < 2 ^ 64) :
    tick.toUInt64 * kTickIntervalNs / kTickIntervalNs = tick.toUInt64 := by
  have hinterval : kTickIntervalNs.toNat = 100000000 := rfl
  rw [hinterval] at h
  have hnat : tick.toUInt64.toNat = tick := UInt64.toNat_ofNat_of_lt' (by
    show tick < 2 ^ 64
    omega)
  rw [← UInt64.toNat_inj, UInt64.toNat_div, UInt64.toNat_mul, hnat, hinterval,
    Nat.mod_eq_of_lt h]
  omega

/-- Ticks whose stamps fit leave room for the market in a key. -/
theorem ticks_le {ticks : Nat} (h : ticks * kTickIntervalNs.toNat < 2 ^ 64) : ticks ≤ 2 ^ 48 := by
  have hinterval : kTickIntervalNs.toNat = 100000000 := rfl
  rw [hinterval] at h
  omega

/-- A tick and its stamp, `lag` ticks back. -/
theorem tick_sub {tick lag : Nat} {lagTicks : UInt64} (hfit : tick < 2 ^ 64)
    (hlag : lagTicks.toNat = lag) (hle : lagTicks ≤ tick.toUInt64) :
    lag ≤ tick ∧ tick.toUInt64 - lagTicks = (tick - lag).toUInt64 := by
  have hnat : tick.toUInt64.toNat = tick := UInt64.toNat_ofNat_of_lt' hfit
  have hback : lag ≤ tick := by
    rw [← hlag, ← hnat]
    exact UInt64.le_iff_toNat_le.mp hle
  refine ⟨hback, ?_⟩
  rw [← UInt64.toNat_inj, UInt64.toNat_sub_of_le _ _ hle, hnat, hlag]
  exact (UInt64.toNat_ofNat_of_lt' (Nat.lt_of_le_of_lt (Nat.sub_le _ _) hfit)).symm

/-- The vector of an earlier tick is among the truth of a run that reaches the later one. -/
theorem comparedWith_run (roster : List (SimBookConfig F)) (streams : Streams F) {markets : UInt32}
    {ticks lagTicks : UInt64} (hmarkets : markets ≤ kMaxMarketsSupported)
    (hticks : ticks.toNat * kTickIntervalNs.toNat < 2 ^ 64) {lag : Nat} (hlag : lagTicks.toNat = lag)
    {tick m : Nat} (htick : tick < ticks.toNat) (hmarket : m < markets.toNat) {u : OddsUpdate}
    (hstamp : u.simTimestampNs / kTickIntervalNs = tick.toUInt64)
    (hmarketId : u.marketId = m.toUInt16) (hle : lagTicks ≤ tick.toUInt64) :
    comparedWith (Simulation.run roster streams markets ticks).truth lagTicks u =
      some (truthOf (tick - lag).toUInt64 m (streams.latent (tick - lag).toUInt64 m)) := by
  have hcount : markets.toNat ≤ 65535 := UInt32.le_iff_toNat_le.mp hmarkets
  obtain ⟨-, htickBack⟩ := tick_sub (htick.trans ticks.toNat_lt) hlag hle
  have hlate : ¬ u.simTimestampNs / kTickIntervalNs < lagTicks := by
    rw [hstamp]
    exact UInt64.not_lt.mpr hle
  unfold comparedWith
  dsimp only
  rw [if_neg hlate, hstamp, htickBack, hmarketId, truth_run]
  exact find_truthRecords streams hcount (ticks_le hticks) (by omega) hmarket

/-- **A quote is compared with what it was built from.** A book of any lag its ring can hold quotes
    from the vector observed `lag` observations ago, or the first one; and of a run whose stamps fit,
    the tool given that lag finds that vector for every quote of the book, but for those of the first
    ticks, for which it looks nothing up. -/
theorem comparedWith_lagged {lag : Nat} (hmax : lag < Bookmaker.kMaxLag) :
    (∀ (history : Fin Bookmaker.kMaxLag → Latent F) (xs : List (Latent F)) (lagTicks : Int32),
      xs ≠ [] → xs.length < 2 ^ 64 → lagTicks.toInt = lag →
      xs[xs.length - 1 - min lag (xs.length - 1)]? =
        some ((xs.foldl Bookmaker.History.observe { history }).laggedView lagTicks)) ∧
    ∀ (roster : List (SimBookConfig F)) (streams : Streams F) (markets : UInt32)
      (ticks lagTicks : UInt64), markets ≤ kMaxMarketsSupported →
      ticks.toNat * kTickIntervalNs.toNat < 2 ^ 64 → lagTicks.toNat = lag →
      ∀ q ∈ (Simulation.run roster streams markets ticks).desk.sink,
        roster[q.book].cfg.lagTicks.toInt = lag →
        if q.update.simTimestampNs / kTickIntervalNs < lagTicks then
          comparedWith (Simulation.run roster streams markets ticks).truth lagTicks q.update = none
        else
          ∃ t, comparedWith (Simulation.run roster streams markets ticks).truth lagTicks q.update =
              some t ∧
            ∀ i : Fin kOutcomes, t.prob (i.castLE Bookmaker.kOutcomes_le) = q.lagged i := by
  constructor
  · intro history xs lagTicks hne hfit hlag
    have hobs := (Bookmaker.History.observed_nil history).foldl xs
    exact hobs.laggedView hne hfit hlag hmax
  · intro roster streams markets ticks lagTicks hmarkets hticks hlag q hq hbook
    obtain ⟨v, hv, hquoted⟩ := quotedAt_of_mem_run roster streams hq
    obtain ⟨htick, hmarket⟩ := Generator.mem_visits hv
    obtain ⟨seqNo, odds, hupdate⟩ := hquoted.update
    have hlagged := hquoted.lagged lag ⟨by rw [← hquoted.book]; exact hbook, hmax⟩
    have hfit : v.tick * kTickIntervalNs.toNat < 2 ^ 64 :=
      Nat.lt_of_le_of_lt (Nat.mul_le_mul_right _ htick.le) hticks
    have hstamp : q.update.simTimestampNs / kTickIntervalNs = v.tick.toUInt64 := by
      rw [hupdate]
      exact tick_of_stamp hfit
    have hmarketId : q.update.marketId = v.market.toUInt16 := by
      rw [hupdate]
      rfl
    by_cases hearly : q.update.simTimestampNs / kTickIntervalNs < lagTicks
    · rw [if_pos hearly]
      unfold comparedWith
      rw [if_pos hearly]
    · have hle : lagTicks ≤ v.tick.toUInt64 := UInt64.not_lt.mp (hstamp ▸ hearly)
      obtain ⟨hback, -⟩ := tick_sub (htick.trans ticks.toNat_lt) hlag hle
      rw [if_neg hearly]
      refine ⟨_, comparedWith_run roster streams hmarkets hticks hlag htick hmarket hstamp hmarketId
        hle, fun i => ?_⟩
      rw [hlagged, laggedLatent, Nat.min_eq_left hback]
      exact dif_pos i.isLt

/-- The home side has a half at tick 0, the away side from then on. -/
noncomputable def turningStreams : Streams ℝ :=
  { latent := fun tick _ i => if i.val = (if tick = 0 then 0 else 2) then 0.5 else 0.25
    normal := fun _ _ _ _ => 0 }

/-- A book one tick behind, over two ticks: its second quote is of the first vector, which is not
    the second. -/
theorem comparedWith_lagged_one_behind :
    ∃ roster : List (SimBookConfig ℝ),
      ∃ q ∈ (Simulation.run roster turningStreams 1 2).desk.sink, ∃ t,
        q.update.simTimestampNs = kTickIntervalNs ∧
        comparedWith (Simulation.run roster turningStreams 1 2).truth 1 q.update = some t ∧
        (∀ i : Fin kOutcomes, t.prob (i.castLE Bookmaker.kOutcomes_le) = q.lagged i) ∧
        (∀ i, q.lagged i = turningStreams.latent 0 0 i) ∧
        turningStreams.latent 0 0 ≠ turningStreams.latent 1 0 := by
  let roster : List (SimBookConfig ℝ) :=
    [{ cfg := { bookId := 0, lagTicks := 1, overround := 0.02, noiseSigma := 0, skew := 1 },
       updateIntervalTicks := 1 }]
  let streams := turningStreams
  let first : Desk ℝ roster.length := Simulation.step roster streams Desk.init ⟨0, 0, 0⟩
  let q := Simulation.quoteAt roster streams first ⟨1, 0, 0⟩
  have hq : q ∈ (Simulation.run roster streams 1 2).desk.sink := by
    rw [desk_run]
    show q ∈ (Simulation.step roster streams first ⟨1, 0, 0⟩).sink
    rw [sink_step, if_pos (by decide)]
    exact List.mem_append_right _ (List.mem_singleton.mpr rfl)
  have hfound := (@comparedWith_lagged ℝ _ _ _ 1 (by decide)).2 roster streams 1 2 1 (by decide)
    (by decide) rfl q hq rfl
  rw [if_neg (by decide)] at hfound
  obtain ⟨t, ht, hprob⟩ := hfound
  have hfirst := @comparedWith_run ℝ _ _ _ roster streams 1 2 1 (by decide) (by decide) 1 rfl 1 0
    (by decide) (by decide) q.update (by decide) (by decide) (by decide)
  refine ⟨roster, q, hq, t, by decide, ht, hprob, fun i => ?_, fun hsame => ?_⟩
  · rw [← hprob i, Option.some.inj (ht.symm.trans hfirst)]
    exact dif_pos i.isLt
  · have hhome := congrFun hsame ⟨0, by decide⟩
    norm_num [turningStreams] at hhome
    exact absurd hhome (by decide)

end ValidateDevig

end OddsEngine
