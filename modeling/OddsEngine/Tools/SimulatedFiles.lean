/-
  File:      OddsEngine/Tools/SimulatedFiles.lean
  Subject:   What the tools read back of a simulation's files, cut off anywhere (engine/TruthReader.hpp
             and analytics/analyze_bets.cpp, on the files of sim/main.cpp).

  A simulation that is stopped leaves files that end in the middle of a record, and none of the three
  side files has a count that would tell.

  * `truth_read_back` -- a truth file answers for the ticks and markets before the cut, each with the
    vector it was written for, and for nothing behind it;
  * `jumps_read_back` -- a jump timeline gives the right age at every tick before the first jump it
    lost, and the whole one at every tick;
  * `settlement_read_back` -- a settlement has the winners of the markets before the cut.
-/
import OddsEngine.Analytics.JumpEpisodes
import OddsEngine.Sim.SimulatorMain
import OddsEngine.Tools.TruthLookup

namespace OddsEngine

open Lib

/-! ## 1. The truth file -/

/-- Two loops are one over the pairs of their counters. -/
theorem flatMap_range_map {α : Type} (f : Nat → Nat → α) (n k : Nat) :
    ((List.range n).flatMap fun i => (List.range k).map (f i)) =
      (List.range (n * k)).map fun j => f (j / k) (j % k) := by
  induction n with
  | zero => simp
  | succ n ih =>
    rw [List.range_succ, List.flatMap_append, List.flatMap_singleton, ih, Nat.succ_mul,
      List.range_add, List.map_append, List.map_map]
    congr 1
    refine List.map_congr_left fun j hj => ?_
    have hj : j < k := List.mem_range.mp hj
    have hdiv : (n * k + j) / k = n := by
      rw [Nat.mul_comm, Nat.mul_add_div (by omega), Nat.div_eq_of_lt hj, Nat.add_zero]
    have hmod : (n * k + j) % k = j := by
      rw [Nat.mul_comm, Nat.mul_add_mod, Nat.mod_eq_of_lt hj]
    show f n j = f ((n * k + j) / k) ((n * k + j) % k)
    rw [hdiv, hmod]

namespace Simulation

variable {F : Type} [DoubleArith F]

/-- The truth record of a tick and market has the place the loops give it. -/
theorem truthRecords_take (streams : Streams F) (markets ticks n : Nat) :
    (truthRecords streams markets ticks).take n =
      (List.range (min n (ticks * markets))).map fun j =>
        truthOf (j / markets).toUInt64 (j % markets)
          (streams.latent (j / markets).toUInt64 (j % markets)) := by
  unfold truthRecords
  rw [flatMap_range_map fun tick m =>
    truthOf tick.toUInt64 m (streams.latent tick.toUInt64 m), ← List.map_take, List.take_range]

/-- **The first records** of a truth file answer for their own ticks and markets. -/
theorem find_truthRecords_take (streams : Streams F) {markets ticks : Nat} (hm : markets ≤ 65535)
    (hticks : ticks ≤ 2 ^ 48) {tick m : Nat} (htick : tick < ticks) (hmarket : m < markets)
    (n : Nat) :
    TruthReader.find ((truthRecords streams markets ticks).take n) tick.toUInt64 m.toUInt16 =
      if tick * markets + m < n then
        some (truthOf tick.toUInt64 m (streams.latent tick.toUInt64 m))
      else none := by
  have hwhole := find_truthRecords streams hm hticks htick hmarket
  by_cases hin : tick * markets + m < n
  · rw [if_pos hin]
    have hlt : tick * markets + m < ticks * markets := by
      calc tick * markets + m < tick * markets + markets := Nat.add_lt_add_left hmarket _
        _ = (tick + 1) * markets := (Nat.succ_mul _ _).symm
        _ ≤ ticks * markets := Nat.mul_le_mul_right _ htick
    have hdiv : (tick * markets + m) / markets = tick := by
      rw [Nat.mul_comm, Nat.mul_add_div (by omega), Nat.div_eq_of_lt hmarket, Nat.add_zero]
    have hmod : (tick * markets + m) % markets = m := by
      rw [Nat.mul_comm, Nat.mul_add_mod, Nat.mod_eq_of_lt hmarket]
    have hmem : truthOf tick.toUInt64 m (streams.latent tick.toUInt64 m) ∈
        (truthRecords streams markets ticks).take n := by
      rw [truthRecords_take]
      refine List.mem_map.mpr ⟨tick * markets + m, List.mem_range.mpr (lt_min hin hlt), ?_⟩
      rw [hdiv, hmod]
    cases hfind : TruthReader.find ((truthRecords streams markets ticks).take n) tick.toUInt64
        m.toUInt16 with
    | none =>
      have hnot := List.find?_eq_none.mp hfind _ hmem
      exact absurd (beq_self_eq_true (TruthReader.makeKey tick.toUInt64 m.toUInt16)) hnot
    | some r => rw [← TruthReader.find_take hfind, hwhole]
  · rw [if_neg hin]
    refine List.find?_eq_none.mpr fun r hr hkey => hin ?_
    rw [truthRecords_take] at hr
    obtain ⟨j, hj, rfl⟩ := List.mem_map.mp hr
    have hj := List.mem_range.mp hj
    have hpos : 0 < markets := by omega
    have hjn : j < n := lt_of_lt_of_le hj (min_le_left _ _)
    have hjt : j / markets < ticks :=
      (Nat.div_lt_iff_lt_mul hpos).mpr (lt_of_lt_of_le hj (min_le_right _ _))
    have hjm : j % markets < markets := Nat.mod_lt _ hpos
    have hnat : ∀ {k : Nat}, k < ticks → k.toUInt64.toNat = k := fun hk =>
      UInt64.toNat_ofNat_of_lt' (by
        show _ < 2 ^ 64
        omega)
    have hnat' : ∀ {k : Nat}, k < markets → k.toUInt16.toNat = k := fun hk =>
      UInt16.toNat_ofNat_of_lt' (by
        show _ < 2 ^ 16
        omega)
    obtain ⟨hsame, hsame'⟩ := (TruthReader.makeKey_eq_iff
      (by rw [truthOf, hnat hjt]; omega) (by rw [hnat htick]; omega) _ _).mp (eq_of_beq hkey)
    have htick' : j / markets = tick := by
      rw [← hnat hjt, ← hnat htick]
      exact congrArg UInt64.toNat hsame
    have hmarket' : j % markets = m := by
      rw [← hnat' hjm, ← hnat' hmarket]
      exact congrArg UInt16.toNat hsame'
    have hdiv := Nat.div_add_mod j markets
    rw [htick', hmarket', Nat.mul_comm] at hdiv
    rwa [hdiv]

end Simulation

/-- What `parse_args` lets through. -/
structure SimOptions.Accepted (opt : SimOptions) : Prop where
  markets_ne : opt.markets ≠ 0
  ticks_ne : opt.ticks ≠ 0
  /-- `kMaxMarketsSupported`. -/
  markets_le : opt.markets ≤ 65535

namespace SimOptions.Accepted

variable {opt : SimOptions} (h : opt.Accepted)

include h

theorem markets_pos : 0 < opt.markets.toNat :=
  Nat.pos_of_ne_zero fun e => h.markets_ne (UInt32.toNat_inj.mp e)

theorem ticks_pos : 0 < opt.ticks.toNat :=
  Nat.pos_of_ne_zero fun e => h.ticks_ne (UInt64.toNat_inj.mp e)

theorem toNat_markets_le : opt.markets.toNat ≤ 65535 := UInt32.le_iff_toNat_le.mp h.markets_le

end SimOptions.Accepted

namespace Simulator

variable {F : Type} [DoubleArith F] [Pow F F] [Truncate F] [Convert F]
  (rng : Rng F) (roster : List (SimBookConfig F)) (goesOut : Nat → Bool)

/-- **A truth file cut off anywhere**: less than one record is refused as empty; otherwise, of the
    ticks and markets of the run, the reader has the vector of those whose record lies whole before
    the cut, its doubles through their bits, and of no other. A key has 48 bits for the tick. -/
theorem truth_read_back [FromBits F] {opt : SimOptions} (hopt : opt.Accepted)
    (hticks : opt.ticks.toNat ≤ 2 ^ 48) (htruth : opt.truthOut ≠ []) :
    ∃ file, (run rng roster goesOut opt).truth = some file ∧ ∀ path cut,
      (cut < 64 → TruthReader.load (F := F) path (some (file.take cut)) =
        .error (ascii "truth file is empty: " ++ path)) ∧
      (64 ≤ cut → ∃ rs, TruthReader.load path (some (file.take cut)) = .ok rs ∧
        ∀ tick m, tick < opt.ticks.toNat → m < opt.markets.toNat →
          TruthReader.find rs tick.toUInt64 m.toUInt16 =
            if tick * opt.markets.toNat + m < cut / 64 then
              some (Simulation.truthOf tick.toUInt64 m
                (latentAt rng opt.seed m (tick + 1)).softmax).throughBits
            else none) := by
  let rs := Simulation.truthRecords (streams rng roster opt.seed) opt.markets.toNat opt.ticks.toNat
  have hfile := truth_generate rng roster goesOut opt
  rw [if_neg (by rwa [List.isEmpty_iff])] at hfile
  have hempty : ∀ cut, (rs.take (cut / 64)).isEmpty = decide (cut < 64) := by
    intro cut
    have hpos : 0 < opt.ticks.toNat * opt.markets.toNat :=
      Nat.mul_pos hopt.ticks_pos hopt.markets_pos
    have hlen : (rs.take (cut / 64)).length = min (cut / 64) (opt.ticks.toNat * opt.markets.toNat) :=
      by rw [Simulation.truthRecords_take, List.length_map, List.length_range]
    rw [Bool.eq_iff_iff, List.isEmpty_iff, decide_eq_true_iff, ← List.length_eq_zero_iff, hlen]
    omega
  refine ⟨_, hfile, fun path cut => ⟨fun hcut => ?_, fun hcut => ?_⟩⟩
  · rw [TruthReader.load_take, hempty, if_pos (decide_eq_true hcut)]
  · refine ⟨_, by rw [TruthReader.load_take, hempty, if_neg (by simpa using hcut)], ?_⟩
    intro tick m htick hm
    rw [TruthReader.find_throughBits, Simulation.find_truthRecords_take _ hopt.toNat_markets_le hticks
      htick hm, latent_streams opt.seed (by omega) m]
    by_cases hin : tick * opt.markets.toNat + m < cut / 64
    · rw [if_pos hin, if_pos hin]
      rfl
    · rw [if_neg hin, if_neg hin]
      rfl

/-- Two markets, three ticks, and a hundred and thirty bytes of their truth: the two records of the
    first tick. -/
theorem truth_read_back_restless :
    let opt : SimOptions := { markets := 2, ticks := 3, truthOut := [116] }
    ∃ file rs, (run restlessRng defaultRoster (fun _ => true) opt).truth = some file ∧
      TruthReader.load (F := ℝ) [] (some (file.take 130)) = .ok rs ∧
      TruthReader.find rs 0 1 = some (Simulation.truthOf 0 1
        (latentAt restlessRng 42 1 1).softmax).throughBits ∧
      TruthReader.find rs 1 0 = none := by
  intro opt
  have hopt : opt.Accepted := ⟨by decide, by decide, by decide⟩
  obtain ⟨file, hfile, hread⟩ := truth_read_back restlessRng defaultRoster (fun _ => true) hopt
    (by decide) (by decide)
  obtain ⟨rs, hload, hfind⟩ := (hread [] 130).2 (by decide)
  exact ⟨file, rs, hfile, hload, hfind 0 1 (by decide) (by decide), hfind 1 0 (by decide) (by decide)⟩

/-! ## 2. The jump timeline -/

/-- The market jumped at this tick. -/
def JumpedAt (rng : Rng F) (seed : UInt64) (m tick : Nat) : Prop :=
  (latentAt rng seed m (tick + 1)).jumped = true

/-- The tick of the market's latest jump at or before `tick`; `none`: it has not jumped yet. -/
def LatestJump (rng : Rng F) (seed : UInt64) (m tick : Nat) : Option Nat → Prop
  | none => ∀ t, t ≤ tick → ¬ JumpedAt rng seed m t
  | some last => last ≤ tick ∧ JumpedAt rng seed m last ∧
      ∀ t, last < t → t ≤ tick → ¬ JumpedAt rng seed m t

omit [Pow F F] [Truncate F] [Convert F] in
theorem mem_jumpRecords {seed : UInt64} {markets ticks : Nat} {r : AnalyzeBets.JumpRecord} :
    r ∈ jumpRecords rng seed markets ticks ↔ ∃ tick m, tick < ticks ∧ m < markets ∧
      JumpedAt rng seed m tick ∧ r = { tick := tick.toUInt64, marketId := m.toUInt16 } := by
  unfold jumpRecords jumpAt JumpedAt
  simp only [List.mem_flatMap, List.mem_range]
  constructor
  · rintro ⟨tick, htick, m, hm, hr⟩
    by_cases hjumped : (latentAt rng seed m (tick + 1)).jumped = true
    · rw [if_pos hjumped, List.mem_singleton] at hr
      exact ⟨tick, m, htick, hm, hjumped, hr⟩
    · rw [if_neg hjumped] at hr
      exact absurd hr List.not_mem_nil
  · rintro ⟨tick, m, htick, hm, hjumped, hr⟩
    refine ⟨tick, htick, m, hm, ?_⟩
    rw [if_pos hjumped]
    exact List.mem_singleton.mpr hr

omit [Pow F F] [Truncate F] [Convert F] in
/-- The timeline goes forward. -/
theorem jumpRecords_sorted (seed : UInt64) (markets : Nat) {ticks : Nat} (hticks : ticks ≤ 2 ^ 64) :
    (jumpRecords rng seed markets ticks).Pairwise fun r r' => r.tick ≤ r'.tick := by
  have hround : ∀ tick, ∀ r ∈ (List.range markets).flatMap (jumpAt rng seed tick),
      r.tick = tick.toUInt64 := by
    intro tick r hr
    obtain ⟨m, -, hr⟩ := List.mem_flatMap.mp hr
    unfold jumpAt at hr
    split at hr
    · rw [List.mem_singleton.mp hr]
    · exact absurd hr List.not_mem_nil
  induction ticks with
  | zero => exact List.Pairwise.nil
  | succ n ih =>
    have hlast : jumpRecords rng seed markets (n + 1) = jumpRecords rng seed markets n ++
        (List.range markets).flatMap (jumpAt rng seed n) := by
      unfold jumpRecords
      rw [List.range_succ, List.flatMap_append, List.flatMap_singleton]
    rw [hlast]
    refine List.pairwise_append.mpr ⟨ih (by omega), ?_, fun r hr r' hr' => ?_⟩
    · refine List.pairwise_of_forall_mem_list fun r hr r' hr' => ?_
      rw [hround n r hr, hround n r' hr']
    · obtain ⟨tick, m, htick, -, -, rfl⟩ := (mem_jumpRecords rng).mp hr
      rw [hround n r' hr', UInt64.le_iff_toNat_le]
      show tick.toUInt64.toNat ≤ n.toUInt64.toNat
      rw [UInt64.toNat_ofNat_of_lt' (by show tick < 2 ^ 64; omega),
        UInt64.toNat_ofNat_of_lt' (by show n < 2 ^ 64; omega)]
      exact Nat.le_of_lt htick

omit [Pow F F] [Truncate F] [Convert F] in
/-- Up to a tick before the first record that is lost, the first records tell the latest jump. -/
theorem latestJump_of_isLatest {seed : UInt64} {markets ticks n tick m : Nat}
    (hm : markets ≤ 65535) (hticks : ticks ≤ 2 ^ 64) (htick : tick < ticks) (hmarket : m < markets)
    (hkept : ∀ r, (jumpRecords rng seed markets ticks)[n]? = some r → tick.toUInt64 < r.tick)
    {j : Option UInt64} (hj : AnalyzeBets.IsLatest ((jumpRecords rng seed markets ticks).take n)
      m.toUInt16 tick.toUInt64 j) :
    LatestJump rng seed m tick (j.map UInt64.toNat) := by
  have hnat : ∀ {k : Nat}, k < ticks → k.toUInt64.toNat = k := fun hk =>
    UInt64.toNat_ofNat_of_lt' (lt_of_lt_of_le hk hticks)
  have hnat' : ∀ {k : Nat}, k < markets → k.toUInt16.toNat = k := fun hk =>
    UInt16.toNat_ofNat_of_lt' (by
      show _ < 2 ^ 16
      omega)
  -- a record at or before the tick has not been lost
  have hin : ∀ {t : Nat}, t ≤ tick → JumpedAt rng seed m t →
      { tick := t.toUInt64, marketId := m.toUInt16 } ∈
        (jumpRecords rng seed markets ticks).take n := by
    intro t ht hjumped
    have hmem : ({ tick := t.toUInt64, marketId := m.toUInt16 } : AnalyzeBets.JumpRecord) ∈
        jumpRecords rng seed markets ticks :=
      (mem_jumpRecords rng).mpr ⟨t, m, by omega, hmarket, hjumped, rfl⟩
    have hsorted := jumpRecords_sorted rng seed markets hticks
    rw [← List.take_append_drop n (jumpRecords rng seed markets ticks)] at hmem hsorted
    rcases List.mem_append.mp hmem with hfirst | hrest
    · exact hfirst
    · have hpair := (List.pairwise_append.mp hsorted).2.1
      cases hdrop : (jumpRecords rng seed markets ticks).drop n with
      | nil =>
        rw [hdrop] at hrest
        exact absurd hrest List.not_mem_nil
      | cons r rest =>
        have hlost : (jumpRecords rng seed markets ticks)[n]? = some r := by
          rw [← List.head?_drop, hdrop]
          rfl
        have hlater := hkept r hlost
        have hle : r.tick ≤ t.toUInt64 := by
          rw [hdrop] at hrest hpair
          rcases List.mem_cons.mp hrest with rfl | hin
          · exact le_refl _
          · exact (List.pairwise_cons.mp hpair).1 _ hin
        rw [UInt64.le_iff_toNat_le, hnat (by omega)] at hle
        rw [UInt64.lt_iff_toNat_lt, hnat htick] at hlater
        omega
  cases j with
  | none =>
    intro t ht hjumped
    refine hj _ (hin ht hjumped) rfl ?_
    rw [UInt64.le_iff_toNat_le, hnat (by omega), hnat htick]
    exact ht
  | some j =>
    obtain ⟨⟨r, hr, hrm, rfl⟩, hle, hmax⟩ := hj
    obtain ⟨t, m', ht, hm', hjumped, rfl⟩ :=
      (mem_jumpRecords rng).mp (List.mem_of_mem_take hr)
    have hsame : m' = m := by
      rw [← hnat' hm', ← hnat' hmarket]
      exact congrArg UInt16.toNat hrm
    subst hsame
    rw [UInt64.le_iff_toNat_le, hnat ht, hnat htick] at hle
    refine ⟨?_, ?_, fun t' hlt hle' hjumped' => ?_⟩
    · rw [hnat ht]
      exact hle
    · rw [hnat ht]
      exact hjumped
    · have hbefore := hmax _ (hin hle' hjumped') rfl (by
        rw [UInt64.le_iff_toNat_le, hnat (by omega), hnat htick]
        exact hle')
      rw [UInt64.le_iff_toNat_le, hnat (by omega), hnat ht] at hbefore
      rw [hnat ht] at hlt
      omega

/-- **A jump timeline cut off anywhere behind its header**: for every market, and every tick before
    the first jump that was lost -- every tick, where none was --, the age the tool computes is the
    number of ticks since that market's latest jump, and -1 exactly where it has not jumped yet. -/
theorem jumps_read_back {opt : SimOptions} (hopt : opt.Accepted) (hjumps : opt.jumpsOut ≠ []) :
    ∃ file, (run rng roster goesOut opt).jumps = some file ∧ ∀ files path cut, path ≠ [] →
      files path = some (file.take (24 + cut)) →
      ∃ jt, AnalyzeBets.readJumps files path = .ok (some jt) ∧
        ∀ tick m, tick < opt.ticks.toNat → m < opt.markets.toNat →
          (∀ r, (jumpRecords rng opt.seed opt.markets.toNat opt.ticks.toNat)[cut / 16]? = some r →
            tick.toUInt64 < r.tick) →
          ∃ latest, LatestJump rng opt.seed m tick latest ∧
            AnalyzeBets.ticksSinceJump (jt m) tick.toUInt64 =
              latest.elim (-1) fun last => (tick : Int) - last := by
  have hmarkets := hopt.toNat_markets_le
  have hfile := jumps_generate rng roster goesOut opt
  rw [if_neg (by rwa [List.isEmpty_iff])] at hfile
  refine ⟨_, hfile, fun files path cut hpath hread => ?_⟩
  have hheader : (jumpHeader opt.seed opt.markets).length = 24 := sideHeader_length _ _ _ _
  rw [← hheader, List.take_length_add_append] at hread
  refine ⟨_, AnalyzeBets.readJumps_take hpath hread, fun tick m htick hm hkept => ?_⟩
  have hm' : m.toUInt16.toNat = m := UInt16.toNat_ofNat_of_lt' (by
    show m < 2 ^ 16
    omega)
  have htick' : tick.toUInt64.toNat = tick :=
    UInt64.toNat_ofNat_of_lt' (lt_trans htick opt.ticks.toNat_lt)
  obtain ⟨j, hj, hage⟩ := AnalyzeBets.ticksSinceJump_spec
    ((jumpRecords rng opt.seed opt.markets.toNat opt.ticks.toNat).take (cut / 16)) m.toUInt16
    tick.toUInt64
  refine ⟨j.map UInt64.toNat, latestJump_of_isLatest rng hmarkets (le_of_lt opt.ticks.toNat_lt) htick
    hm hkept hj, ?_⟩
  rw [hm'] at hage
  rw [hage, htick']
  cases j with
  | none => rfl
  | some j => rfl

theorem jumpedAt_restless (seed : UInt64) (m tick : Nat) :
    JumpedAt restlessRng seed m tick ↔ tick % 2 = 1 :=
  LatentMarket.jumped_restless _ _ tick

/-- Two markets that jump at the ticks 1 and 3. -/
theorem jumpRecords_restless : jumpRecords restlessRng 42 2 5 =
    [{ tick := 1, marketId := 0 }, { tick := 1, marketId := 1 },
      { tick := 3, marketId := 0 }, { tick := 3, marketId := 1 }] := by
  have hjump : jumpAt restlessRng 42 = fun tick m =>
      if tick % 2 = 1 then [{ tick := tick.toUInt64, marketId := m.toUInt16 }] else [] := by
    funext tick m
    unfold jumpAt
    exact if_congr (jumpedAt_restless 42 m tick) rfl rfl
  unfold jumpRecords
  rw [hjump]
  rfl

/-- Their timeline, cut off in its third record: up to the tick before it the ages are those of the
    first jumps. -/
theorem jumps_read_back_restless :
    let opt : SimOptions := { markets := 2, ticks := 5, jumpsOut := [106] }
    ∃ file jt, (run restlessRng defaultRoster (fun _ => true) opt).jumps = some file ∧
      AnalyzeBets.readJumps (fun _ => some (file.take (24 + 40))) [106] = .ok (some jt) ∧
      AnalyzeBets.ticksSinceJump (jt 1) 0 = -1 ∧ AnalyzeBets.ticksSinceJump (jt 1) 2 = 1 := by
  intro opt
  have hopt : opt.Accepted := ⟨by decide, by decide, by decide⟩
  obtain ⟨file, hfile, hread⟩ := jumps_read_back restlessRng defaultRoster (fun _ => true) hopt
    (by decide)
  obtain ⟨jt, hjumps, hage⟩ := hread (fun _ => some (file.take (24 + 40))) [106] 40 (by decide) rfl
  have hlost : ∀ r, (jumpRecords restlessRng 42 2 5)[40 / 16]? = some r → r.tick = 3 := by
    intro r hr
    rw [jumpRecords_restless] at hr
    cases hr
    rfl
  refine ⟨file, jt, hfile, hjumps, ?_, ?_⟩
  · obtain ⟨latest, hlatest, hlast⟩ := hage 0 1 (by decide) (by decide) fun r hr => by
      rw [hlost r hr]
      decide
    cases latest with
    | none => exact hlast
    | some last =>
      have hodd := (jumpedAt_restless 42 1 last).mp hlatest.2.1
      have hle := hlatest.1
      omega
  · obtain ⟨latest, hlatest, hlast⟩ := hage 2 1 (by decide) (by decide) fun r hr => by
      rw [hlost r hr]
      decide
    cases latest with
    | none => exact absurd ((jumpedAt_restless 42 1 1).mpr rfl) (hlatest 1 (by decide))
    | some last =>
      have hodd := (jumpedAt_restless 42 1 last).mp hlatest.2.1
      have hle := hlatest.1
      have hone : last = 1 := by omega
      rw [hone] at hlast
      exact hlast

/-! ## 3. The settlement -/

omit [Pow F F] [Truncate F] [Convert F] in
/-- The first records of a settlement have the winners of the first markets. -/
theorem winners_take (seed : UInt64) {markets : Nat} (hm : markets ≤ 65535) (ticks n m : Nat) :
    AnalyzeBets.winners ((settlementRecords rng seed markets ticks).take n) m =
      if m < markets ∧ m < n then
        some (rng.discrete ((latentAt rng seed m ticks).softmax)
          (rng.seeded (Seeding.deriveSeed seed Seeding.kSettlement m.toUInt64))).1.val.toUInt8
      else none := by
  let record := settlementOf rng seed fun m => (latentAt rng seed m ticks).softmax
  have hids : ∀ m' ∈ List.range (min n markets), m'.toUInt16.toNat = m' :=
    fun m' hm' => UInt16.toNat_ofNat_of_lt' (by
      have hlt := List.mem_range.mp hm'
      show m' < 2 ^ 16
      omega)
  have hown : (List.range (min n markets)).filter ((fun r => r.marketId.toNat == m) ∘ record) =
      if m < markets ∧ m < n then [m] else [] := by
    have hcongr : (List.range (min n markets)).filter
        ((fun r => r.marketId.toNat == m) ∘ record) =
          (List.range (min n markets)).filter fun m' => m' == m := by
      refine List.filter_congr fun m' hm' => ?_
      show (m'.toUInt16.toNat == m) = _
      rw [hids m' hm']
    rw [hcongr, List.filter_beq]
    by_cases hin : m < markets ∧ m < n
    · rw [if_pos hin, List.count_eq_one_of_mem List.nodup_range
        (List.mem_range.mpr (lt_min hin.2 hin.1))]
      rfl
    · rw [if_neg hin, List.count_eq_zero_of_not_mem fun hmem => hin ?_]
      · rfl
      · have hlt := List.mem_range.mp hmem
        omega
  unfold AnalyzeBets.winners settlementRecords
  rw [← List.map_take, List.take_range, List.filter_map, hown]
  by_cases hin : m < markets ∧ m < n
  · rw [if_pos hin, if_pos hin]
    rfl
  · rw [if_neg hin, if_neg hin]
    rfl

/-- **A settlement cut off anywhere behind its header** has the winner drawn for every market whose
    record lies whole before the cut, and of the other markets it has none. -/
theorem settlement_read_back {opt : SimOptions} (hopt : opt.Accepted) (hsettle : opt.settleOut ≠ []) :
    ∃ file, (run rng roster goesOut opt).settle = some file ∧ ∀ files path cut, path ≠ [] →
      files path = some (file.take (24 + cut)) →
      ∃ winner, AnalyzeBets.readSettlement files path = .ok (some winner) ∧
        ∀ m, winner m =
          if m < opt.markets.toNat ∧ m < cut / 8 then
            some (rng.discrete ((latentAt rng opt.seed m opt.ticks.toNat).softmax)
              (rng.seeded (Seeding.deriveSeed opt.seed Seeding.kSettlement m.toUInt64))).1.val.toUInt8
          else none := by
  have hfile := settle_run rng roster goesOut opt hopt.ticks_ne
  rw [if_neg (by rwa [List.isEmpty_iff])] at hfile
  refine ⟨_, hfile, fun files path cut hpath hread => ?_⟩
  have hheader : (settlementHeader opt.seed opt.markets).length = 24 := sideHeader_length _ _ _ _
  rw [← hheader, List.take_length_add_append] at hread
  exact ⟨_, AnalyzeBets.readSettlement_take hpath hread,
    winners_take rng opt.seed hopt.toNat_markets_le opt.ticks.toNat (cut / 8)⟩

/-- The first of two winners. -/
theorem settlement_read_back_restless :
    let opt : SimOptions := { markets := 2, ticks := 3, settleOut := [115] }
    ∃ file winner, (run restlessRng defaultRoster (fun _ => true) opt).settle = some file ∧
      AnalyzeBets.readSettlement (fun _ => some (file.take 35)) [115] = .ok (some winner) ∧
      winner 0 = some 0 ∧ winner 1 = none := by
  intro opt
  have hopt : opt.Accepted := ⟨by decide, by decide, by decide⟩
  obtain ⟨file, hfile, hread⟩ := settlement_read_back restlessRng defaultRoster (fun _ => true) hopt
    (by decide)
  obtain ⟨winner, hsettle, hwinner⟩ := hread (fun _ => some (file.take 35)) [115] 11 (by decide) rfl
  exact ⟨file, winner, hfile, hsettle, hwinner 0, hwinner 1⟩

end Simulator

end OddsEngine
