/-
  File:      OddsEngine/Engine/PowerBracket.lean
  Subject:   The bracket around the root in the loop of `power`, over the reals (engine/Devig.hpp).

  The loop moves the end of its bracket to the point tried before it proposes the next one, and takes
  a proposal only strictly between the two ends; else the bracket is halved. Which proposals come
  plays no part in it: the bracket holds the root whatever slope the step is made with.

  * `powerLoop_from`, `powerLoop_rounds` -- the loop, by the states at the start of its iterations
    (`rounds`);
  * `inBracket_rounds` -- in each of them the root is in the bracket, and the point tried between
    its ends;
  * `power_inBracket` -- so the exponent is above 1 and every outcome loses something.
-/
import OddsEngine.Engine.DevigShares

namespace OddsEngine

open Lib

namespace Devig

/-! ## 1. The iterations -/

/-- What the loop of `power` holds at the start of an iteration. -/
structure Round (F : Type) where
  lo : F
  hi : F
  k : F

section Rounds

variable {F : Type} [DoubleArith F]

/-- What an iteration that does not meet the tolerance leaves to the next. -/
def Round.next (f df : F → F) (r : Round F) : Round F :=
  let fk := f r.k
  let lo' := if 0 < fk then r.k else r.lo
  let hi' := if 0 < fk then r.hi else r.k
  { lo := lo', hi := hi', k := newtonNext fk (df r.k) lo' hi' r.k }

/-- The state at the start of each iteration, of at most `n`. -/
def rounds (f df : F → F) (tolerance : F) : Nat → Round F → List (Round F)
  | 0, _ => []
  | n + 1, r => r :: if Libm.abs (f r.k) < tolerance then [] else
      rounds f df tolerance n (r.next f df)

attribute [local instance] two_atLeastTwo in
/-- Where the loop starts: the bracket the doubling found, and its middle. -/
def firstRound (f : F → F) : Round F :=
  let hi := doubleHi f 10 2
  { lo := 1, hi := hi, k := 1 + (hi - 1) * 0.5 }

theorem powerLoop_next {f df : F → F} {tolerance : F} {n : Nat} (it : Nat) {r : Round F}
    (hmiss : ¬ Libm.abs (f r.k) < tolerance) :
    powerLoop f df tolerance (n + 1) it r.lo r.hi r.k =
      powerLoop f df tolerance n (it + 1) (r.next f df).lo (r.next f df).hi (r.next f df).k :=
  if_neg hmiss

/-- **In each of these states the loop is**, that many iterations after its start. -/
theorem powerLoop_from {f df : F → F} {tolerance : F} {n j : Nat} (it : Nat) {r r' : Round F}
    (h : (rounds f df tolerance n r)[j]? = some r') :
    powerLoop f df tolerance n it r.lo r.hi r.k =
      powerLoop f df tolerance (n - j) (it + j) r'.lo r'.hi r'.k := by
  induction j generalizing n it r with
  | zero =>
    cases n with
    | zero => cases h
    | succ n =>
      obtain rfl : r = r' := Option.some.inj h
      rfl
  | succ j ih =>
    cases n with
    | zero => cases h
    | succ n =>
      rw [rounds, List.getElem?_cons_succ] at h
      by_cases hmeets : Libm.abs (f r.k) < tolerance
      · rw [if_pos hmeets] at h
        cases h
      · rw [if_neg hmeets] at h
        have hskip : it + (j + 1) = it + 1 + j := by omega
        rw [powerLoop_next it hmeets, ih (it + 1) h, Nat.add_sub_add_right, hskip]

/-- **The loop makes these iterations**, and where it converged it stopped at the point of one. -/
theorem powerLoop_rounds (f df : F → F) (tolerance : F) (n it : Nat) (r : Round F) :
    (powerLoop f df tolerance n it r.lo r.hi r.k).iterations =
        it + (rounds f df tolerance n r).length ∧
      ((powerLoop f df tolerance n it r.lo r.hi r.k).converged = true →
        ∃ r' ∈ rounds f df tolerance n r,
          (powerLoop f df tolerance n it r.lo r.hi r.k).point = r'.k) := by
  induction n generalizing it r with
  | zero => exact ⟨rfl, fun h => absurd h Bool.false_ne_true⟩
  | succ n ih =>
    by_cases hmeets : Libm.abs (f r.k) < tolerance
    · have hlast : powerLoop f df tolerance (n + 1) it r.lo r.hi r.k = ⟨r.k, it + 1, true⟩ :=
        if_pos hmeets
      rw [hlast, rounds, if_pos hmeets]
      exact ⟨rfl, fun _ => ⟨r, List.mem_singleton_self r, rfl⟩⟩
    · obtain ⟨hiterations, hpoint⟩ := ih (it + 1) (r.next f df)
      rw [powerLoop_next it hmeets, rounds, if_neg hmeets, List.length_cons]
      refine ⟨by omega, fun hconv => ?_⟩
      obtain ⟨r', hr', hk⟩ := hpoint hconv
      exact ⟨r', List.mem_cons_of_mem r hr', hk⟩

end Rounds

/-! ## 2. The bracket -/

/-- A round with the root in its bracket, and the point tried between the ends. -/
structure InBracket (f : ℝ → ℝ) (root : ℝ) (r : Round ℝ) : Prop where
  lo_pos : 0 < f r.lo
  hi_nonpos : f r.hi ≤ 0
  lo_lt : r.lo < r.k
  lt_hi : r.k < r.hi
  lo_lt_root : r.lo < root
  root_le : root ≤ r.hi

/-- The next point is strictly between the ends. -/
theorem newtonNext_between (fk dfk k : ℝ) {lo hi : ℝ} (h : lo < hi) :
    lo < newtonNext fk dfk lo hi k ∧ newtonNext fk dfk lo hi k < hi := by
  rcases newtonNext_cases fk dfk lo hi k with hmid | hin
  · rw [hmid]
    exact ⟨by linarith, by linarith⟩
  · exact hin

section Bracket

variable {f : ℝ → ℝ} {root : ℝ}

/-- A bracket with a point in it is all there is to show. -/
theorem inBracket_of_brackets (hf : StrictAnti f) (hroot : f root = 0) {r : Round ℝ}
    (h : Brackets f (r.lo, r.hi)) (hlo : r.lo < r.k) (hhi : r.k < r.hi) : InBracket f root r :=
  have hmem := h.root_mem hf hroot
  ⟨h.pos, h.nonpos, hlo, hhi, hmem.1, hmem.2⟩

theorem InBracket.brackets {r : Round ℝ} (h : InBracket f root r) : Brackets f (r.lo, r.hi) :=
  ⟨h.lo_lt.trans h.lt_hi, h.lo_pos, h.hi_nonpos⟩

/-- **One iteration keeps the root**, whatever slope `df` it takes its step with. -/
theorem InBracket.next (hf : StrictAnti f) (hroot : f root = 0) (df : ℝ → ℝ) {r : Round ℝ}
    (h : InBracket f root r) : InBracket f root (r.next f df) := by
  have hnarrow : Brackets f ((r.next f df).lo, (r.next f df).hi) :=
    h.brackets.narrow h.lo_lt h.lt_hi
  obtain ⟨hlo, hhi⟩ := newtonNext_between (f r.k) (df r.k) r.k hnarrow.lt
  exact inBracket_of_brackets hf hroot hnarrow hlo hhi

/-- The lower end never moves down. -/
theorem InBracket.lo_le_next (df : ℝ → ℝ) {r : Round ℝ} (h : InBracket f root r) :
    r.lo ≤ (r.next f df).lo := by
  show r.lo ≤ if 0 < f r.k then r.k else r.lo
  split
  · exact h.lo_lt.le
  · exact le_rfl

/-- **So does a whole run.** -/
theorem inBracket_rounds (hf : StrictAnti f) (hroot : f root = 0) (df : ℝ → ℝ) (tolerance : ℝ)
    (n : Nat) {start : Round ℝ} (h : InBracket f root start) :
    ∀ r ∈ rounds f df tolerance n start, InBracket f root r ∧ start.lo ≤ r.lo := by
  induction n generalizing start with
  | zero => exact fun r hr => absurd hr List.not_mem_nil
  | succ n ih =>
    intro r hr
    rcases List.mem_cons.mp hr with rfl | hr
    · exact ⟨h, le_rfl⟩
    · split at hr
      · exact absurd hr List.not_mem_nil
      · obtain ⟨hin, hle⟩ := ih (h.next hf hroot df) r hr
        exact ⟨hin, (h.lo_le_next df).trans hle⟩

end Bracket

/-! ## 3. The answer -/

section Answer

variable {odds : List ℝ}

/-- The margin is taken off: the exponent is above 1, each probability the implied one to that
    power, and less than it. -/
structure MarginRemoved (odds : List ℝ) (r : DevigResult ℝ) : Prop where
  one_lt : 1 < r.param
  prob : ∀ i : Fin kMaxOutcomes, i.val < odds.length → r.prob i = impliedAt odds i ^ r.param
  pos : ∀ i : Fin kMaxOutcomes, i.val < odds.length → 0 < r.prob i
  lt : ∀ i : Fin kMaxOutcomes, i.val < odds.length → r.prob i < impliedAt odds i

theorem impliedAt_lt_one (hv : validOdds odds = true) {i : Fin kMaxOutcomes}
    (hi : i.val < odds.length) : impliedAt odds i < 1 := by
  obtain ⟨o, ho, heq⟩ := List.mem_map.mp (impliedAt_mem hi)
  have h1 : 1 < o := one_lt_of_mem hv ho
  rw [← heq]
  exact (div_lt_one (one_pos.trans h1)).mpr h1

/-- An exponent above 1 takes something off every outcome. -/
theorem marginRemoved_of (hv : validOdds odds = true) {r : DevigResult ℝ} (hk : 1 < r.param)
    (hprob : r.prob = fill ((impliedProbs odds).map (powerAt r.param))) : MarginRemoved odds r := by
  have hpower : ∀ i : Fin kMaxOutcomes, i.val < odds.length →
      r.prob i = impliedAt odds i ^ r.param := by
    intro i hi
    rw [hprob, fill_map_implied _ hi, powerAt_eq_rpow _ (impliedAt_pos hv hi)]
  exact {
    one_lt := hk
    prob := hpower
    pos := fun i hi => by
      rw [hpower i hi]
      exact Real.rpow_pos_of_pos (impliedAt_pos hv hi) _
    lt := fun i hi => by
      rw [hpower i hi]
      exact Real.rpow_lt_self_of_lt_one (impliedAt_pos hv hi) (impliedAt_lt_one hv hi) hk }

/-- The bracket the loop starts with. -/
theorem inBracket_firstRound (hv : validOdds odds = true) {root : ℝ}
    (hroot : powerF (odds.map fun o => Libm.log (1 / o)) root = 0)
    (h1 : 0 < powerF (odds.map fun o => Libm.log (1 / o)) 1)
    (hend : powerF (odds.map fun o => Libm.log (1 / o))
      (doubleHi (powerF (odds.map fun o => Libm.log (1 / o))) 10 2) ≤ 0) :
    InBracket (powerF (odds.map fun o => Libm.log (1 / o))) root
      (firstRound (powerF (odds.map fun o => Libm.log (1 / o)))) := by
  have hhi := le_doubleHi (powerF (odds.map fun o => Libm.log (1 / o))) 10 zero_le_two
  refine inBracket_of_brackets (strictAnti_powerF hv) hroot ⟨?_, h1, hend⟩ ?_ ?_
  · exact one_lt_two.trans_le hhi
  · unfold firstRound
    dsimp only
    linarith
  · unfold firstRound
    dsimp only
    linarith

/-- **The loop of `power` keeps its root in the bracket** in each of the states it goes through,
    whatever slope its steps are made with; and an answer that converged has the margin removed. -/
theorem power_inBracket (hv : validOdds odds = true) (hB : 1 < booksum odds)
    (hend : powerF (odds.map fun o => Libm.log (1 / o))
      (doubleHi (powerF (odds.map fun o => Libm.log (1 / o))) 10 2) ≤ 0)
    (tolerance : ℝ) (maxIterations : Nat) :
    let logQ := odds.map fun o => Libm.log (1 / o)
    let f := powerF logQ
    (power odds tolerance maxIterations).iterations =
        (rounds f (powerDf logQ) tolerance maxIterations (firstRound f)).length ∧
      (∀ df j r, (rounds f df tolerance maxIterations (firstRound f))[j]? = some r →
        powerLoop f df tolerance maxIterations 0 (firstRound f).lo (firstRound f).hi
            (firstRound f).k =
          powerLoop f df tolerance (maxIterations - j) j r.lo r.hi r.k) ∧
      ∃ root, (∀ x, f x = 0 ↔ x = root) ∧
        (∀ df, ∀ r ∈ rounds f df tolerance maxIterations (firstRound f), InBracket f root r) ∧
        ((power odds tolerance maxIterations).status = .ok →
          MarginRemoved odds (power odds tolerance maxIterations)) := by
  intro logQ f
  have h1 : 0 < f 1 := by
    show 0 < powerF (odds.map fun o => Libm.log (1 / o)) 1
    rw [powerF_one hv]
    exact sub_pos.mpr hB
  have hpower : power odds tolerance maxIterations = _ := power_of_bracket hv h1 hend
  obtain ⟨hiterations, hpoint⟩ :=
    powerLoop_rounds f (powerDf logQ) tolerance maxIterations 0 (firstRound f)
  have hbracket : Brackets f (1, doubleHi f 10 2) :=
    ⟨one_lt_two.trans_le (le_doubleHi f 10 zero_le_two), h1, hend⟩
  obtain ⟨root, hroot⟩ := hbracket.exists_root (strictAnti_powerF hv) (continuous_powerF odds)
  have hzero : f root = 0 := (hroot root).mpr rfl
  have hfirst := inBracket_firstRound hv hzero h1 hend
  have hrounds : ∀ df, ∀ r ∈ rounds f df tolerance maxIterations (firstRound f),
      InBracket f root r ∧ 1 ≤ r.lo := fun df =>
    inBracket_rounds (strictAnti_powerF hv) hzero df tolerance maxIterations hfirst
  refine ⟨?_, fun df j r hr => ?_, root, hroot, fun df r hr => (hrounds df r hr).1, fun hok => ?_⟩
  · rw [hpower]
    exact hiterations.trans (Nat.zero_add _)
  · have hfrom := powerLoop_from 0 hr
    rwa [Nat.zero_add] at hfrom
  · have hu := (flagsAgree_power odds tolerance maxIterations).usable_iff.mpr hok
    rw [hpower] at hu
    obtain ⟨r, hr, hk⟩ := hpoint (Bool.and_eq_true_iff.mp hu).2
    obtain ⟨hin, hlo⟩ := hrounds (powerDf logQ) r hr
    have hparam : (power odds tolerance maxIterations).param = r.k := by
      rw [hpower]
      exact hk
    refine marginRemoved_of hv ?_ ?_
    · rw [hparam]
      exact hlo.trans_lt hin.lo_lt
    · rw [← powerProbs_eq, hpower]

/-- Two even outcomes with a margin, at the default arguments. -/
theorem power_inBracket_even :
    let odds := [1900, 1900].map decimalOdds
    let logQ := odds.map fun o => Libm.log (1 / o)
    let f := powerF logQ
    (power odds 1e-13 100).iterations =
        (rounds f (powerDf logQ) 1e-13 100 (firstRound f)).length ∧
      (∀ df j r, (rounds f df 1e-13 100 (firstRound f))[j]? = some r →
        powerLoop f df 1e-13 100 0 (firstRound f).lo (firstRound f).hi (firstRound f).k =
          powerLoop f df 1e-13 (100 - j) j r.lo r.hi r.k) ∧
      ∃ root, (∀ x, f x = 0 ↔ x = root) ∧
        (∀ df, ∀ r ∈ rounds f df 1e-13 100 (firstRound f), InBracket f root r) ∧
        ((power odds 1e-13 100).status = .ok → MarginRemoved odds (power odds 1e-13 100)) :=
  power_inBracket wireOdds_even.valid margin_even (powerFinds_two wireOdds_even rfl).upper 1e-13 100

end Answer

end Devig

end OddsEngine
