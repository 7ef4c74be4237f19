/-
  File:      OddsEngine/Tools/ValidateDevig.lean
  Subject:   Scoring the devig methods against the latent probabilities (tools/validate_devig.cpp,
             the index of engine/TruthReader.hpp, the record of sim/TruthSink.hpp).

  The tool takes each record's odds out of an array of four with the record's own `outcome_count`
  as the bound, and scores each usable answer outcome by outcome against the truth of its tick.

  * `safe_scoreRecord` -- a record of at most four outcomes takes no access out of its array;
  * `scoreRecord_fault` -- a longer one that has a truth record does, at index 4.

  The printed tables are not modelled; they read the sums and nothing else.
-/
import OddsEngine.Engine.Market

namespace OddsEngine

open Lib

/-! ## 1. The truth -/

/-- The latent probabilities of one market at one tick. -/
structure TruthRecord (F : Type) where
  tick : UInt64
  marketId : UInt16
  outcomeCount : UInt8
  prob : Fin 4 → F

namespace TruthReader

variable {F : Type}

/-- The market into the low 16 bits, the tick above it. -/
def makeKey (tick : UInt64) (marketId : UInt16) : UInt64 :=
  (tick <<< 16) ||| marketId.toUInt64

/-- The record of a tick and market. A key that is loaded twice keeps its first record. -/
def find (records : List (TruthRecord F)) (tick : UInt64) (marketId : UInt16) :
    Option (TruthRecord F) :=
  records.find? fun r => makeKey r.tick r.marketId == makeKey tick marketId

/-- A file of one record answers for that record's tick and market. -/
theorem find_singleton (r : TruthRecord F) : find [r] r.tick r.marketId = some r := by
  unfold find
  exact List.find?_cons_of_pos (beq_self_eq_true (makeKey r.tick r.marketId))

end TruthReader

/-! ## 2. The scores -/

namespace ValidateDevig

variable {F : Type} [DoubleArith F]

structure MethodStats (F : Type) where
  absSum : F
  sqSum : F
  worst : F
  n : UInt64

/-- `MethodStats(name)`. -/
def MethodStats.init : MethodStats F := { absSum := 0, sqSum := 0, worst := 0, n := 0 }

def MethodStats.add (s : MethodStats F) (err : F) : MethodStats F :=
  let a := Libm.abs err
  { absSum := s.absSum + a
    sqSum := s.sqSum + err * err
    worst := if s.worst < a then a else s.worst
    n := s.n + 1 }

inductive Bucket where
  | longshot
  | mid
  | favourite
  deriving DecidableEq, Repr

def classify (trueProb : F) : Bucket :=
  if trueProb < 0.15 then .longshot
  else if 0.50 < trueProb then .favourite
  else .mid

/-- What the record loop accumulates. Method 0 is multiplicative, 1 power, 2 shin. -/
structure Scores (F : Type) where
  overall : Fin 3 → MethodStats F
  bucketed : Bucket → Fin 3 → MethodStats F
  matched : UInt64
  unmatched : UInt64

def Scores.init : Scores F :=
  { overall := fun _ => MethodStats.init, bucketed := fun _ _ => MethodStats.init, matched := 0,
    unmatched := 0 }

/-- One outcome of one method's answer. -/
def scoreOutcome (method : Fin 3) (r : DevigResult F) (t : TruthRecord F) (s : Scores F) (i : Nat) :
    Except OutOfBounds (Scores F) := do
  let p ← rd r.prob i
  let truth ← rd t.prob i
  let err := p - truth
  let b := classify truth
  return { s with
    overall := Function.update s.overall method ((s.overall method).add err)
    bucketed := Function.update s.bucketed b
      (Function.update (s.bucketed b) method ((s.bucketed b method).add err)) }

/-- One method's answer, where it is usable. -/
def scoreMethod (u : OddsUpdate) (t : TruthRecord F) (results : Fin 3 → DevigResult F)
    (s : Scores F) (method : Fin 3) : Except OutOfBounds (Scores F) :=
  if !(results method).usableAsDistribution then return s
  else
    forRange (min u.outcomeCount.toNat t.outcomeCount.toNat)
      (scoreOutcome method (results method) t) s

/-- One record of the session. -/
def scoreRecord (truth : List (TruthRecord F)) (lagTicks : UInt64) (s : Scores F)
    (u : OddsUpdate) : Except OutOfBounds (Scores F) :=
  let tick := u.simTimestampNs / kTickIntervalNs
  if tick < lagTicks then return { s with unmatched := s.unmatched + 1 }
  else
    match TruthReader.find truth (tick - lagTicks) u.marketId with
    | none => return { s with unmatched := s.unmatched + 1 }
    | some t => do
      let s := { s with matched := s.matched + 1 }
      -- `u.odds_milli` has four entries, the loop over it `outcome_count` turns
      let odds ← collect u.oddsMilli (decimalOdds : UInt32 → F) u.outcomeCount.toNat
      let results := ![Devig.multiplicative odds, Devig.power odds 1e-13 100,
        Devig.shin odds 1e-15 200]
      (List.finRange 3).foldlM (scoreMethod u t results) s

/-- The loop over the session. -/
def scoreSession (truth : List (TruthRecord F)) (lagTicks : UInt64) (rs : List OddsUpdate) :
    Except OutOfBounds (Scores F) :=
  rs.foldlM (scoreRecord truth lagTicks) Scores.init

/-! ## 3. Accesses -/

/-- A record whose tick has a truth record is scored. -/
def Matched (truth : List (TruthRecord F)) (lagTicks : UInt64) (u : OddsUpdate) : Prop :=
  ¬ u.simTimestampNs / kTickIntervalNs < lagTicks ∧
    TruthReader.find truth (u.simTimestampNs / kTickIntervalNs - lagTicks) u.marketId ≠ none

/-- The scoring loops stay below four wherever the record's count does. -/
theorem safe_scoreMethod {u : OddsUpdate} (hu : u.outcomeCount.toNat ≤ kMaxOutcomes)
    (t : TruthRecord F) (results : Fin 3 → DevigResult F) (s : Scores F) (method : Fin 3) :
    Safe (scoreMethod u t results s method) := by
  unfold scoreMethod
  split
  · exact safe_ok s
  · refine safe_forRange (fun s i hi => ?_) ((min_le_left _ _).trans hu) s
    unfold scoreOutcome
    rw [rd_of_lt _ hi]
    show Safe (rd t.prob i >>= fun truth => _)
    rw [rd_of_lt _ hi]
    exact safe_ok _

/-- **A record of at most four outcomes is scored within its arrays.** -/
theorem safe_scoreRecord (truth : List (TruthRecord F)) (lagTicks : UInt64) (s : Scores F)
    {u : OddsUpdate} (hu : u.outcomeCount.toNat ≤ kMaxOutcomes) :
    Safe (scoreRecord truth lagTicks s u) := by
  unfold scoreRecord
  dsimp only
  split
  · exact safe_ok _
  · split
    · exact safe_ok _
    · next t _ =>
      rw [collect_of_le _ _ hu]
      exact safe_foldlM (fun s method _ => safe_scoreMethod hu t _ s method) _

/-- **A longer one that is scored reads past the end of `odds_milli`.** -/
theorem scoreRecord_fault {truth : List (TruthRecord F)} {lagTicks : UInt64} (s : Scores F)
    {u : OddsUpdate} (hm : Matched truth lagTicks u) (hu : kMaxOutcomes < u.outcomeCount.toNat) :
    scoreRecord truth lagTicks s u = .error ⟨kMaxOutcomes, kMaxOutcomes⟩ := by
  obtain ⟨t, ht⟩ := Option.ne_none_iff_exists'.mp hm.2
  unfold scoreRecord
  dsimp only
  rw [if_neg hm.1, ht]
  show (collect u.oddsMilli _ u.outcomeCount.toNat >>= fun odds => _) = _
  rw [collect_of_lt _ _ hu]
  rfl

end ValidateDevig

end OddsEngine
