/-
  File:      OddsEngine/Engine/DevigReal.lean
  Subject:   What the devig methods answer, over the reals.

  Each of the three methods marks its answer usable only where it is a DISTRIBUTION
  (`IsDistribution`): two to four entries, each positive, summing to 1 within 1e-13. That is
  `isDistribution_multiplicative` by division, `isDistribution_power` because a converged loop has
  met its tolerance at the exponent it returns (`powerLoop_spec`), `isDistribution_shin`
  because the bisection never leaves `z < 1` (`shinLoop_spec`).
-/
import Mathlib.Algebra.BigOperators.Fin
import Mathlib.Algebra.BigOperators.Ring.List
import Mathlib.Data.List.GetD
import OddsEngine.Engine.Command

namespace OddsEngine

open Lib

/-- The first `n` entries of `p` are a probability distribution, to within the tolerance of the
    iterative methods. -/
structure IsDistribution (p : ProbVector ℝ) (n : Nat) : Prop where
  two_le : 2 ≤ n
  le_max : n ≤ kMaxOutcomes
  pos : ∀ i : Fin kMaxOutcomes, i.val < n → 0 < p i
  sum : |(∑ i : Fin kMaxOutcomes, if i.val < n then p i else 0) - 1| < 1e-13

/-- Only the first `n` entries matter. -/
theorem IsDistribution.congr {p p' : ProbVector ℝ} {n : Nat} (h : IsDistribution p n)
    (hp : ∀ i : Fin kMaxOutcomes, i.val < n → p' i = p i) : IsDistribution p' n where
  two_le := h.two_le
  le_max := h.le_max
  pos i hi := by
    rw [hp i hi]
    exact h.pos i hi
  sum := by
    have hterm : ∀ i : Fin kMaxOutcomes,
        (if i.val < n then p' i else 0) = if i.val < n then p i else 0 := by
      intro i
      split
      · next hi => exact hp i hi
      · rfl
    rw [Finset.sum_congr rfl fun i _ => hterm i]
    exact h.sum

namespace Devig

/-! ## 1. Vectors -/

theorem sum_fill {xs : List ℝ} (h : xs.length ≤ kMaxOutcomes) :
    (∑ i : Fin kMaxOutcomes, if i.val < xs.length then fill xs i else 0) = xs.sum := by
  have hfill : ∀ i : Fin kMaxOutcomes,
      (if i.val < xs.length then fill xs i else 0) = xs.getD i 0 := by
    intro i
    split
    · rfl
    · next hi => exact (List.getD_eq_default _ _ (Nat.not_lt.mp hi)).symm
  simp only [hfill]
  show (∑ i : Fin 4, xs.getD i 0) = xs.sum
  rw [Fin.sum_univ_four]
  match xs, h with
  | [], _ => simp
  | [a], _ => simp
  | [a, b], _ => simp
  | [a, b, c], _ => simp [add_assoc]
  | [a, b, c, d], _ => simp [add_assoc]

theorem fill_mem {xs : List ℝ} {i : Fin kMaxOutcomes} (hi : i.val < xs.length) : fill xs i ∈ xs := by
  rw [fill, ← List.getElem_eq_getD (h := hi)]
  exact List.getElem_mem hi

/-- A list of positive entries with the right sum fills a distribution. -/
theorem isDistribution_fill {xs : List ℝ} (h2 : 2 ≤ xs.length) (h4 : xs.length ≤ kMaxOutcomes)
    (hpos : ∀ x ∈ xs, 0 < x) (hsum : |xs.sum - 1| < 1e-13) : IsDistribution (fill xs) xs.length where
  two_le := h2
  le_max := h4
  pos i hi := hpos _ (fill_mem hi)
  sum := by rw [sum_fill h4]; exact hsum

theorem one_lt_of_mem {odds : List ℝ} (hv : validOdds odds = true) {o : ℝ} (ho : o ∈ odds) :
    1 < o :=
  (((validOdds_iff odds).mp hv).2.2 o ho).2

theorem length_le {odds : List ℝ} (hv : validOdds odds = true) : odds.length ≤ kMaxOutcomes :=
  ((validOdds_iff odds).mp hv).2.1

/-- One outcome alone never carries a margin. -/
theorem two_le_length {odds : List ℝ} (hv : validOdds odds = true)
    (hB : 1 < (odds.map fun o => 1 / o).sum) : 2 ≤ odds.length := by
  match odds with
  | [] =>
    rw [List.map_nil, List.sum_nil] at hB
    exact absurd hB (by norm_num)
  | [o] =>
    have ho : 1 < o := one_lt_of_mem hv List.mem_cons_self
    have hlt : 1 / o < 1 := (div_lt_one (by linarith)).mpr ho
    rw [List.map_singleton, List.sum_singleton] at hB
    linarith
  | _ :: _ :: _ => exact Nat.le_add_left 2 _

/-! ## 2. multiplicative -/

theorem isDistribution_multiplicative {odds : List ℝ}
    (hu : (multiplicative odds).usableAsDistribution = true) :
    IsDistribution (multiplicative odds).prob odds.length := by
  obtain ⟨hv, hB⟩ := (usable_multiplicative_iff odds).mp hu
  have hprob : (multiplicative odds).prob = fill (odds.map fun o => (1 / o) / booksum odds) := by
    unfold multiplicative
    rw [if_neg (by rw [hv]; decide)]
    dsimp only
    rw [if_neg hB]
  have hbook : booksum odds = (odds.map fun o => 1 / o).sum := sumLoop_eq_sum _
  have hBpos : 1 < booksum odds := not_le.mp hB
  have hlen : (odds.map fun o => (1 / o) / booksum odds).length = odds.length := List.length_map _
  have hsum : (odds.map fun o => (1 / o) / booksum odds).sum = 1 := by
    simp only [div_eq_mul_inv _ (booksum odds)]
    rw [List.sum_map_mul_right, ← hbook]
    exact mul_inv_cancel₀ (by linarith)
  rw [hprob, ← hlen]
  refine isDistribution_fill ?_ ?_ ?_ ?_
  · rw [hlen]
    exact two_le_length hv (hbook ▸ hBpos)
  · rw [hlen]
    exact length_le hv
  · intro x hx
    obtain ⟨o, ho, rfl⟩ := List.mem_map.mp hx
    have h1 : 1 < o := one_lt_of_mem hv ho
    exact div_pos (one_div_pos.mpr (by linarith)) (by linarith)
  · rw [hsum]
    norm_num

/-! ## 3. power -/

/-- The next point is the middle of the bracket, or strictly inside it. -/
theorem newtonNext_cases (fk dfk lo hi k : ℝ) :
    newtonNext fk dfk lo hi k = lo + (hi - lo) * 0.5 ∨
      lo < newtonNext fk dfk lo hi k ∧ newtonNext fk dfk lo hi k < hi := by
  unfold newtonNext
  dsimp only
  generalize (if (dfk != 0) = true then k - fk / dfk else k) = next
  split
  · exact Or.inl rfl
  · next hguard =>
    simp only [Bool.not_eq_true, Bool.or_eq_false_iff, Bool.not_eq_false', Bool.and_eq_true,
      decide_eq_true_eq] at hguard
    exact Or.inr hguard.2

/-- The next point stays within the bracket. -/
theorem newtonNext_mem (fk dfk k : ℝ) {lo hi : ℝ} (h : lo ≤ hi) :
    lo ≤ newtonNext fk dfk lo hi k ∧ newtonNext fk dfk lo hi k ≤ hi := by
  rcases newtonNext_cases fk dfk lo hi k with hmid | ⟨hlo, hhi⟩
  · rw [hmid]
    exact ⟨by linarith, by linarith⟩
  · exact ⟨hlo.le, hhi.le⟩

/-- The Newton loop never goes below its bracket, and where it converged the tolerance holds. -/
theorem powerLoop_spec {f df : ℝ → ℝ} {tolerance : ℝ} (n it : Nat) {lo hi k : ℝ} (hlo : lo ≤ k)
    (hhi : k ≤ hi) (h : (powerLoop f df tolerance n it lo hi k).converged = true) :
    |f (powerLoop f df tolerance n it lo hi k).point| < tolerance ∧
      lo ≤ (powerLoop f df tolerance n it lo hi k).point := by
  induction n generalizing it lo hi k with
  | zero => exact absurd h Bool.false_ne_true
  | succ n ih =>
    unfold powerLoop at h ⊢
    dsimp only at h ⊢
    by_cases htol : Libm.abs (f k) < tolerance
    · rw [if_pos htol]
      exact ⟨htol, hlo⟩
    · rw [if_neg htol] at h ⊢
      by_cases hf : 0 < f k
      · rw [if_pos hf, if_pos hf] at h ⊢
        obtain ⟨hnext, hnext'⟩ := newtonNext_mem (f k) (df k) k hhi
        obtain ⟨h1, h2⟩ := ih (it + 1) hnext hnext' h
        exact ⟨h1, hlo.trans h2⟩
      · rw [if_neg hf, if_neg hf] at h ⊢
        obtain ⟨hnext, hnext'⟩ := newtonNext_mem (f k) (df k) k hlo
        exact ih (it + 1) hnext hnext' h

theorem le_doubleHi (f : ℝ → ℝ) (n : Nat) {hi : ℝ} (h : 0 ≤ hi) : hi ≤ doubleHi f n hi := by
  induction n generalizing hi with
  | zero => exact le_rfl
  | succ n ih =>
    unfold doubleHi
    split
    · exact (by linarith : hi ≤ hi * 2).trans (ih (by linarith))
    · exact le_rfl

/-- A usable answer of `power` is a converged one at an exponent of at least 1, and there was a
    margin. -/
theorem usable_power {odds : List ℝ} {tolerance : ℝ} {maxIterations : Nat}
    (hu : (power odds tolerance maxIterations).usableAsDistribution = true) :
    validOdds odds = true ∧ 0 < powerF (odds.map fun o => Libm.log (1 / o)) 1 ∧
      ∃ k, (power odds tolerance maxIterations).prob =
          fill ((odds.map fun o => Libm.log (1 / o)).map fun l => Libm.exp (k * l)) ∧
        |powerF (odds.map fun o => Libm.log (1 / o)) k| < tolerance ∧ 1 ≤ k := by
  obtain ⟨hv, _⟩ := (countOk_power odds tolerance maxIterations).of_usable hu
  refine ⟨hv, ?_⟩
  unfold power at hu ⊢
  rw [if_neg (by rw [hv]; decide)] at hu ⊢
  dsimp only at hu ⊢
  by_cases h1 : powerF (odds.map fun o => Libm.log (1 / o)) 1 ≤ 0
  · rw [if_pos h1] at hu
    exact absurd hu Bool.false_ne_true
  · rw [if_neg h1] at hu ⊢
    have hhi2 := le_doubleHi (powerF (odds.map fun o => Libm.log (1 / o))) 10 zero_le_two
    by_cases hhi : 0 < powerF (odds.map fun o => Libm.log (1 / o))
        (doubleHi (powerF (odds.map fun o => Libm.log (1 / o))) 10 2)
    · rw [if_pos hhi] at hu
      exact absurd hu Bool.false_ne_true
    · rw [if_neg hhi] at hu ⊢
      have hconv := (Bool.and_eq_true_iff.mp hu).2
      obtain ⟨htol, hk⟩ := powerLoop_spec _ _ (by linarith) (by linarith) hconv
      exact ⟨not_le.mp h1, _, rfl, htol, hk⟩

/-- `f` is what the probabilities sum to over 1. -/
theorem powerF_eq (logQ : List ℝ) (k : ℝ) :
    powerF logQ k = (logQ.map fun l => Real.exp (k * l)).sum - 1 := by
  unfold powerF
  rw [sumLoop_eq_sum]
  rfl

/-- At exponent 1 the sum is the booksum. -/
theorem powerF_one {odds : List ℝ} (hv : validOdds odds = true) :
    powerF (odds.map fun o => Libm.log (1 / o)) 1 = booksum odds - 1 := by
  have hq : ((odds.map fun o => Real.log (1 / o)).map fun l => Real.exp (1 * l)) =
      odds.map fun o => 1 / o := by
    rw [List.map_map]
    refine List.map_congr_left fun o ho => ?_
    have h1o : 1 < o := one_lt_of_mem hv ho
    show Real.exp (1 * Real.log (1 / o)) = 1 / o
    rw [one_mul, Real.exp_log (one_div_pos.mpr (by linarith))]
  have hf := powerF_eq (odds.map fun o => Real.log (1 / o)) 1
  rw [hq] at hf
  rw [booksum, sumLoop_eq_sum]
  exact hf

theorem isDistribution_power {odds : List ℝ} {maxIterations : Nat}
    (hu : (power odds 1e-13 maxIterations).usableAsDistribution = true) :
    IsDistribution (power odds 1e-13 maxIterations).prob odds.length := by
  obtain ⟨hv, h1, k, hprob, hk, _⟩ := usable_power hu
  have hlen : ((odds.map fun o => Libm.log (1 / o)).map fun l => Libm.exp (k * l)).length =
      odds.length := by rw [List.length_map, List.length_map]
  have hbook : booksum odds = (odds.map fun o => 1 / o).sum := sumLoop_eq_sum _
  rw [powerF_one hv, sub_pos, hbook] at h1
  rw [hprob, ← hlen]
  refine isDistribution_fill ?_ ?_ ?_ ?_
  · rw [hlen]
    exact two_le_length hv h1
  · rw [hlen]
    exact length_le hv
  · intro x hx
    obtain ⟨l, _, rfl⟩ := List.mem_map.mp hx
    exact Real.exp_pos _
  · rw [powerF_eq] at hk
    exact hk

/-! ## 4. shin -/

/-- The bisection stays between its brackets, and where it converged the tolerance holds. -/
theorem shinLoop_spec {g : ℝ → ℝ} {tolerance : ℝ} (n it : Nat) {lo hi z : ℝ} (hlo : lo ≤ z)
    (hhi : z ≤ hi) (h : (shinLoop g tolerance n it lo hi z).converged = true) :
    |g (shinLoop g tolerance n it lo hi z).point| < tolerance ∧
      lo ≤ (shinLoop g tolerance n it lo hi z).point ∧
      (shinLoop g tolerance n it lo hi z).point ≤ hi := by
  induction n generalizing it lo hi z with
  | zero => exact absurd h Bool.false_ne_true
  | succ n ih =>
    unfold shinLoop at h ⊢
    dsimp only at h ⊢
    by_cases htol : Libm.abs (g z) < tolerance
    · rw [if_pos htol]
      exact ⟨htol, hlo, hhi⟩
    · rw [if_neg htol] at h ⊢
      by_cases hg : 0 < g z
      · rw [if_pos hg, if_pos hg] at h ⊢
        have hlo' : z ≤ 0.5 * (z + hi) := by linarith
        have hhi' : 0.5 * (z + hi) ≤ hi := by linarith
        obtain ⟨h1, h2, h3⟩ := ih (it + 1) hlo' hhi' h
        exact ⟨h1, hlo.trans h2, h3⟩
      · rw [if_neg hg, if_neg hg] at h ⊢
        have hlo' : lo ≤ 0.5 * (lo + z) := by linarith
        have hhi' : 0.5 * (lo + z) ≤ z := by linarith
        obtain ⟨h1, h2, h3⟩ := ih (it + 1) hlo' hhi' h
        exact ⟨h1, h2, h3.trans hhi⟩

/-- A usable answer of `shin` is a converged one below `z = 1`, and there was a margin. -/
theorem usable_shin {odds : List ℝ} {tolerance : ℝ} {maxIterations : Nat}
    (hu : (shin odds tolerance maxIterations).usableAsDistribution = true) :
    validOdds odds = true ∧ 1 < booksum odds ∧
      ∃ z, (shin odds tolerance maxIterations).prob =
          fill (shinProb (odds.map fun o => 1 / o) (booksum odds) z) ∧
        |shinG (odds.map fun o => 1 / o) (booksum odds) z| < tolerance ∧ 0 ≤ z ∧ z < 1 := by
  obtain ⟨hv, _⟩ := (countOk_shin odds tolerance maxIterations).of_usable hu
  refine ⟨hv, ?_⟩
  unfold shin at hu ⊢
  rw [if_neg (by rw [hv]; decide)] at hu ⊢
  dsimp only at hu ⊢
  by_cases hB : booksum odds ≤ 1
  · rw [if_pos hB] at hu
    exact absurd hu Bool.false_ne_true
  · rw [if_neg hB] at hu ⊢
    by_cases hhi : 0 < shinG (odds.map fun o => 1 / o) (booksum odds) (1 - 1e-9)
    · rw [if_pos hhi] at hu
      exact absurd hu Bool.false_ne_true
    · rw [if_neg hhi] at hu ⊢
      have hconv := (Bool.and_eq_true_iff.mp hu).2
      have hz : (1 : ℝ) - 1e-9 < 1 := by norm_num
      have hmid0 : (0 : ℝ) ≤ 0.5 * (0 + (1 - 1e-9)) := by norm_num
      have hmid1 : (0.5 : ℝ) * (0 + (1 - 1e-9)) ≤ 1 - 1e-9 := by norm_num
      obtain ⟨htol, hlo, hle⟩ := shinLoop_spec _ _ hmid0 hmid1 hconv
      exact ⟨not_le.mp hB, _, rfl, htol, hlo, hle.trans_lt hz⟩

/-- Below `z = 1` every one of Shin's probabilities is positive. -/
theorem shinProb_pos {q : List ℝ} {B z : ℝ} (hq : ∀ x ∈ q, 0 < x) (hB : 0 < B) (hz : 0 ≤ z)
    (hz1 : z < 1) : ∀ x ∈ shinProb q B z, 0 < x := by
  intro x hx
  obtain ⟨qi, hqi, rfl⟩ := List.mem_map.mp hx
  have hpos : 0 < qi := hq qi hqi
  have h1z : 0 < 1 - z := by linarith
  have hterm : 0 < 4 * (1 - z) * qi * qi / B := by positivity
  have hroot : z < Real.sqrt (z * z + 4 * (1 - z) * qi * qi / B) := by
    rw [Real.lt_sqrt hz, sq]
    linarith
  exact div_pos (by rw [real_sqrt]; linarith) (by linarith)

theorem isDistribution_shin {odds : List ℝ} {maxIterations : Nat}
    (hu : (shin odds 1e-15 maxIterations).usableAsDistribution = true) :
    IsDistribution (shin odds 1e-15 maxIterations).prob odds.length := by
  obtain ⟨hv, hB, z, hprob, htol, hz0, hz1⟩ := usable_shin hu
  have hlen : (shinProb (odds.map fun o => 1 / o) (booksum odds) z).length = odds.length := by
    unfold shinProb
    rw [List.length_map, List.length_map]
  have hbook : booksum odds = (odds.map fun o => 1 / o).sum := sumLoop_eq_sum _
  rw [hprob, ← hlen]
  refine isDistribution_fill ?_ ?_ ?_ ?_
  · rw [hlen]
    exact two_le_length hv (hbook ▸ hB)
  · rw [hlen]
    exact length_le hv
  · refine shinProb_pos (fun x hx => ?_) (by linarith) hz0 hz1
    obtain ⟨o, ho, rfl⟩ := List.mem_map.mp hx
    have h1 : 1 < o := one_lt_of_mem hv ho
    exact one_div_pos.mpr (by linarith)
  · unfold shinG at htol
    rw [sumLoop_eq_sum] at htol
    exact htol.trans (by norm_num)

/-! ## 5. Any method -/

/-- **Whatever the method, a usable answer is a distribution over the outcomes quoted.** -/
theorem isDistribution_runDevig {method : DevigMethod} {odds : List ℝ}
    (hu : (runDevig method odds).usableAsDistribution = true) :
    IsDistribution (runDevig method odds).prob odds.length := by
  cases method with
  | multiplicative => exact isDistribution_multiplicative hu
  | power => exact isDistribution_power hu
  | shin => exact isDistribution_shin hu

end Devig

end OddsEngine
