/-
  File:      OddsEngine/Engine/Devig.lean
  Subject:   Recovering a book's implied probabilities from its prices (engine/Devig.hpp).

  Three methods: `multiplicative` divides by the booksum, `power` finds the exponent at which the
  implied probabilities sum to one (guarded Newton), `shin` finds Shin's insider fraction
  (bisection). All three answer `InvalidInput` for odds that are not above 1 or not 1 to 4 in
  number, and hand the implied probabilities back unchanged where there is no margin.
-/
import OddsEngine.Lib.Doubles

namespace OddsEngine

open Lib

/-- `kMaxOutcomes`. -/
abbrev kMaxOutcomes : Nat := 4

abbrev ProbVector (F : Type) := Fin kMaxOutcomes → F

inductive DevigStatus where
  | ok
  | noMarginToRemove
  | invalidInput
  | notConverged
  deriving DecidableEq, Repr

structure DevigResult (F : Type) where
  prob : ProbVector F
  /-- power: the exponent. shin: the insider fraction. -/
  param : F
  iterations : Nat
  /-- Number of populated entries of `prob`. -/
  count : UInt8
  status : DevigStatus
  normalized : Bool

namespace DevigResult

variable {F : Type}

/-- `DevigResult out{}`. -/
def init [Zero F] [One F] : DevigResult F :=
  { prob := fun _ => 0, param := 1, iterations := 0, count := 0, status := .invalidInput,
    normalized := false }

/-- Consensus gates on this: a `noMarginToRemove` vector does not sum to 1. -/
def usableAsDistribution (r : DevigResult F) : Bool := r.status == .ok && r.normalized

end DevigResult

namespace Devig

variable {F : Type} [DoubleArith F]

/-- The array after the loop `for (i = 0; i < n; ++i) a[i] = xs[i]` over a zeroed array. -/
def fill (xs : List F) : ProbVector F := fun i => xs.getD i 0

def validOdds (odds : List F) : Bool :=
  if odds.isEmpty || odds.length > kMaxOutcomes then false
  else odds.all fun o => !(!Libm.isfinite o || !decide (1 < o))

def booksum (odds : List F) : F := sumLoop (odds.map fun o => 1 / o)

/-- No positive margin: the raw implied probabilities, flagged as not normalized. -/
def noMargin (odds : List F) : DevigResult F :=
  { (DevigResult.init : DevigResult F) with
    count := odds.length.toUInt8
    prob := fill (odds.map fun o => 1 / o)
    param := 1
    status := .noMarginToRemove
    normalized := false }

def multiplicative (odds : List F) : DevigResult F :=
  if !validOdds odds then DevigResult.init
  else
    let B := booksum odds
    if B ≤ 1 then noMargin odds
    else
      { (DevigResult.init : DevigResult F) with
        count := odds.length.toUInt8
        prob := fill (odds.map fun o => (1 / o) / B)
        status := .ok
        normalized := true }

/-- Where an iteration stopped: the last point, the rounds made, whether the tolerance was met. -/
structure Iterate (F : Type) where
  point : F
  iterations : Nat
  converged : Bool

/-! ## power -/

/-- `f(k) = sum(q_i^k) - 1`, from the logarithms of the `q_i`. -/
def powerF (logQ : List F) (k : F) : F := sumLoop (logQ.map fun l => Libm.exp (k * l)) - 1

def powerDf (logQ : List F) (k : F) : F := sumLoop (logQ.map fun l => l * Libm.exp (k * l))

/-- `while (f(hi) > 0.0 && hi < 1024.0) hi *= 2.0;` in at most `n` turns. -/
def doubleHi (f : F → F) : Nat → F → F
  | 0, hi => hi
  | n + 1, hi => if 0 < f hi ∧ hi < 1024 then doubleHi f n (hi * 2) else hi

/-- The point tried after `k`: Newton's, or the midpoint where that leaves the bracket. -/
def newtonNext (fk dfk lo hi k : F) : F :=
  let next := if dfk != 0 then k - fk / dfk else k
  if !Libm.isfinite next || !(decide (lo < next) && decide (next < hi)) then
    lo + (hi - lo) * 0.5
  else next

/-- The guarded Newton loop: `n` rounds left, `it` made. -/
def powerLoop (f df : F → F) (tolerance : F) : Nat → Nat → F → F → F → Iterate F
  | 0, it, _, _, k => ⟨k, it, false⟩
  | n + 1, it, lo, hi, k =>
    let fk := f k
    if Libm.abs fk < tolerance then ⟨k, it + 1, true⟩
    else
      let lo' := if 0 < fk then k else lo
      let hi' := if 0 < fk then hi else k
      powerLoop f df tolerance n (it + 1) lo' hi' (newtonNext fk (df k) lo' hi' k)

def power (odds : List F) (tolerance : F) (maxIterations : Nat) : DevigResult F :=
  if !validOdds odds then DevigResult.init
  else
    let logQ := odds.map fun o => Libm.log (1 / o)
    let f := powerF logQ
    if f 1 ≤ 0 then noMargin odds
    else
      let lo : F := 1
      -- 2, 4, ... 1024: nine turns at most
      let hi := doubleHi f 10 2
      if 0 < f hi then
        { (DevigResult.init : DevigResult F) with count := odds.length.toUInt8, status := .notConverged }
      else
        let r := powerLoop f (powerDf logQ) tolerance maxIterations 0 lo hi (lo + (hi - lo) * 0.5)
        { prob := fill (logQ.map fun l => Libm.exp (r.point * l))
          param := r.point
          iterations := r.iterations
          count := odds.length.toUInt8
          status := if r.converged then .ok else .notConverged
          normalized := r.converged }

/-! ## shin -/

/-- Shin's probabilities at the insider fraction `z`. -/
def shinProb (q : List F) (B z : F) : List F :=
  let denom := 2 * (1 - z)
  q.map fun qi =>
    let inner := z * z + 4 * (1 - z) * qi * qi / B
    (Libm.sqrt inner - z) / denom

def shinG (q : List F) (B z : F) : F := sumLoop (shinProb q B z) - 1

/-- The bisection: `n` rounds left, `it` made. -/
def shinLoop (g : F → F) (tolerance : F) : Nat → Nat → F → F → F → Iterate F
  | 0, it, _, _, z => ⟨z, it, false⟩
  | n + 1, it, lo, hi, z =>
    let gz := g z
    if Libm.abs gz < tolerance then ⟨z, it + 1, true⟩
    else
      let lo' := if 0 < gz then z else lo
      let hi' := if 0 < gz then hi else z
      shinLoop g tolerance n (it + 1) lo' hi' (0.5 * (lo' + hi'))

def shin (odds : List F) (tolerance : F) (maxIterations : Nat) : DevigResult F :=
  if !validOdds odds then DevigResult.init
  else
    let B := booksum odds
    if B ≤ 1 then noMargin odds
    else
      let q := odds.map fun o => 1 / o
      let g := shinG q B
      let lo : F := 0
      -- z = 1 is a removable singularity
      let hi : F := 1 - 1e-9
      if 0 < g hi then
        { (DevigResult.init : DevigResult F) with count := odds.length.toUInt8, status := .notConverged }
      else
        let r := shinLoop g tolerance maxIterations 0 lo hi (0.5 * (lo + hi))
        { prob := fill (shinProb q B r.point)
          param := r.point
          iterations := r.iterations
          count := odds.length.toUInt8
          status := if r.converged then .ok else .notConverged
          normalized := r.converged }

/-! ## What every method keeps -/

theorem validOdds_iff (odds : List F) :
    validOdds odds = true ↔ odds ≠ [] ∧ odds.length ≤ kMaxOutcomes ∧
      ∀ o ∈ odds, Libm.isfinite o = true ∧ 1 < o := by
  unfold validOdds
  by_cases h : (odds.isEmpty || decide (odds.length > kMaxOutcomes)) = true
  · rw [if_pos h]
    simp only [Bool.or_eq_true, List.isEmpty_iff, decide_eq_true_eq] at h
    refine ⟨fun e => absurd e (by decide), fun ⟨hne, hlen, _⟩ => ?_⟩
    rcases h with h | h
    · exact absurd h hne
    · exact absurd hlen (Nat.not_le.mpr h)
  · rw [if_neg h]
    simp only [Bool.or_eq_true, List.isEmpty_iff, decide_eq_true_eq, not_or] at h
    simp only [List.all_eq_true, Bool.not_eq_true', Bool.or_eq_false_iff, Bool.not_eq_false',
      decide_eq_true_eq]
    exact ⟨fun ho => ⟨h.1, Nat.not_lt.mp h.2, ho⟩, fun ho => ho.2.2⟩

/-- Odds that are not valid get the empty answer, valid ones a vector of as many entries. -/
def CountOk (odds : List F) (r : DevigResult F) : Prop :=
  (validOdds odds = false ∧ r = DevigResult.init) ∨
    (validOdds odds = true ∧ r.count = odds.length.toUInt8)

theorem countOk_guard (odds : List F) {r : DevigResult F} (h : r.count = odds.length.toUInt8) :
    CountOk odds (if !validOdds odds then DevigResult.init else r) := by
  by_cases hv : validOdds odds = true
  · rw [if_neg (by rw [hv]; decide)]
    exact Or.inr ⟨hv, h⟩
  · have hf : validOdds odds = false := Bool.eq_false_of_not_eq_true hv
    rw [if_pos (by rw [hf]; rfl)]
    exact Or.inl ⟨hf, rfl⟩

theorem countOk_multiplicative (odds : List F) : CountOk odds (multiplicative odds) := by
  refine countOk_guard odds ?_
  dsimp only
  split <;> rfl

theorem countOk_power (odds : List F) (tolerance : F) (maxIterations : Nat) :
    CountOk odds (power odds tolerance maxIterations) := by
  refine countOk_guard odds ?_
  dsimp only
  split
  · rfl
  · split <;> rfl

theorem countOk_shin (odds : List F) (tolerance : F) (maxIterations : Nat) :
    CountOk odds (shin odds tolerance maxIterations) := by
  refine countOk_guard odds ?_
  dsimp only
  split
  · rfl
  · split <;> rfl

theorem usable_multiplicative_iff (odds : List F) :
    (multiplicative odds).usableAsDistribution = true ↔
      validOdds odds = true ∧ ¬ booksum odds ≤ 1 := by
  unfold multiplicative
  by_cases hv : validOdds odds = true
  · rw [if_neg (by rw [hv]; decide)]
    dsimp only
    split
    · next hB => exact ⟨fun h => absurd h Bool.false_ne_true, fun h => absurd hB h.2⟩
    · next hB => exact ⟨fun _ => ⟨hv, hB⟩, fun _ => rfl⟩
  · rw [if_pos (by simpa using hv)]
    exact ⟨fun h => absurd h Bool.false_ne_true, fun h => absurd h.1 hv⟩

theorem CountOk.le {odds : List F} {r : DevigResult F} (h : CountOk odds r) :
    r.count.toNat ≤ kMaxOutcomes := by
  rcases h with ⟨_, h⟩ | ⟨hv, h⟩
  · rw [h]
    exact Nat.zero_le _
  · have hlen : odds.length ≤ kMaxOutcomes := ((validOdds_iff odds).mp hv).2.1
    rw [h]
    exact (Nat.mod_le _ _).trans hlen

/-- A usable answer is one to valid odds. -/
theorem CountOk.of_usable {odds : List F} {r : DevigResult F} (h : CountOk odds r)
    (hu : r.usableAsDistribution = true) :
    validOdds odds = true ∧ r.count = odds.length.toUInt8 := by
  rcases h with ⟨_, h⟩ | h
  · rw [h] at hu
    exact absurd hu Bool.false_ne_true
  · exact h

/-- An answer is flagged normalized exactly where its status is `Ok`. -/
def FlagsAgree (r : DevigResult F) : Prop := r.normalized = (r.status == .ok)

omit [DoubleArith F] in
theorem FlagsAgree.usable_iff {r : DevigResult F} (h : FlagsAgree r) :
    r.usableAsDistribution = true ↔ r.status = .ok := by
  unfold DevigResult.usableAsDistribution
  rw [h, Bool.and_self, beq_iff_eq]

omit [DoubleArith F] in
theorem flagsAgree_converged (b : Bool) :
    b = ((if b then DevigStatus.ok else DevigStatus.notConverged) == .ok) := by
  cases b with
  | false => rfl
  | true => rfl

theorem flagsAgree_multiplicative (odds : List F) : FlagsAgree (multiplicative odds) := by
  unfold multiplicative
  split
  · rfl
  · dsimp only
    split <;> rfl

theorem flagsAgree_power (odds : List F) (tolerance : F) (maxIterations : Nat) :
    FlagsAgree (power odds tolerance maxIterations) := by
  unfold power
  split
  · rfl
  · dsimp only
    split
    · rfl
    · split
      · rfl
      · exact flagsAgree_converged _

theorem flagsAgree_shin (odds : List F) (tolerance : F) (maxIterations : Nat) :
    FlagsAgree (shin odds tolerance maxIterations) := by
  unfold shin
  split
  · rfl
  · dsimp only
    split
    · rfl
    · split
      · rfl
      · exact flagsAgree_converged _

end Devig

end OddsEngine
