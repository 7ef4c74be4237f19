/-
  File:      OddsEngine/Sim/LatentMarket.lean
  Subject:   The latent probabilities of a market (sim/LatentMarket.hpp, `opening_line` of
             sim/main.cpp).

  Three logits drift, revert to where they began, and jump now and then; what is seen of them is
  their softmax. The standard library's engine and its distributions are a parameter: a state, and
  what each distribution draws from it. A distribution that keeps a draw back keeps it in that state.

  * `logits_eq` -- a logit is its start plus what is left of every shock so far;
  * `latent_valid` -- hence at every step of every run the probabilities are positive, sum to one and,
    as long as the normal draws stay within a bound, keep away from zero.
-/
import OddsEngine.Lib.Recurrence
import OddsEngine.Sim.Quote
import OddsEngine.Sim.Seeding

namespace OddsEngine

open Lib

/-- `std::mt19937_64`, with the distributions the simulator draws from it. -/
structure Rng (F : Type) where
  State : Type
  seeded : UInt64 → State
  /-- `std::normal_distribution<double>(0.0, 1.0)`. -/
  normal : State → F × State
  /-- `std::uniform_real_distribution<double>(0.0, 1.0)`. -/
  uniform : State → F × State
  /-- `std::uniform_int_distribution<int>(0, kOutcomes - 1)`. -/
  pick : State → Fin kOutcomes × State
  /-- `std::discrete_distribution<int>`, over these weights. -/
  discrete : (Fin kOutcomes → F) → State → Fin kOutcomes × State

variable {F : Type} [DoubleArith F]

structure LatentMarket (F : Type) (rng : Rng F) where
  initialLogits : Fin kOutcomes → F
  logits : Fin kOutcomes → F
  /-- `rng_` and `normal_`. -/
  draws : rng.State
  jumped : Bool := false

namespace LatentMarket

variable (rng : Rng F)

/-- The constructor. -/
def start (seed : UInt64) (initialProbs : Fin kOutcomes → F) : LatentMarket F rng :=
  { initialLogits := fun i => Libm.log (initialProbs i)
    logits := fun i => Libm.log (initialProbs i)
    draws := rng.seeded seed }

def kDriftSigma : F := 0.05

def kReversionRate : F := 0.02

def kJumpProb : F := 0.005

def kJumpMagnitude : F := 1.5

variable {rng}

/-- One round of the first loop of `step`. -/
def drift (m : LatentMarket F rng) (i : Fin kOutcomes) : LatentMarket F rng :=
  let reversion := (kReversionRate : F) * (m.initialLogits i - m.logits i)
  let (z, draws) := rng.normal m.draws
  { m with logits := Function.update m.logits i (m.logits i + (reversion + (kDriftSigma : F) * z)), draws }

/-- The rest of `step`, up to the softmax. -/
def jump (m : LatentMarket F rng) : LatentMarket F rng :=
  let (u, draws) := rng.uniform m.draws
  let m := { m with draws, jumped := false }
  if u < kJumpProb then
    let (winner, draws) := rng.pick m.draws
    { m with logits := Function.update m.logits winner (m.logits winner + kJumpMagnitude), draws,
             jumped := true }
  else m

def softmax (m : LatentMarket F rng) : Fin kOutcomes → F := Bookmaker.softmax m.logits

/-- `step`: the market after it. What it returns is the `softmax` of that. -/
def step (m : LatentMarket F rng) : LatentMarket F rng :=
  jump ((List.finRange kOutcomes).foldl drift m)

/-- The market after `n` steps. -/
def after (m : LatentMarket F rng) : Nat → LatentMarket F rng
  | 0 => m
  | n + 1 => (m.after n).step

end LatentMarket

/-- `{a, b, c}`. -/
def three (a b c : F) : Fin kOutcomes → F :=
  fun i => if i.val = 0 then a else if i.val = 1 then b else c

/-- Where a market begins: a home win more often than not, a draw a quarter of the time or so. -/
def openingLine (master : UInt64) (marketId : UInt32) : Fin kOutcomes → F :=
  let h := Seeding.deriveSeed master 99 marketId.toUInt64
  let low : UInt64 := h % 1000
  let high : UInt64 := (h >>> 20) % 1000
  let home : F := 0.25 + 0.35 * ((low.toNat : ℕ) : F) / ((1000 : ℕ) : F)
  let draw : F := 0.20 + 0.15 * ((high.toNat : ℕ) : F) / ((1000 : ℕ) : F)
  let away : F := 1 - home - draw
  if away < 0.05 then
    let away : F := 0.05
    let s := home + draw + away
    three (home / s) (draw / s) (away / s)
  else three home draw away

/-! ## 1. One step -/

namespace LatentMarket

variable {rng : Rng F}

/-- The market before the draw for outcome number `k`. -/
def drifted (m : LatentMarket F rng) (k : Nat) : LatentMarket F rng :=
  ((List.finRange kOutcomes).take k).foldl drift m

/-- The draw for one outcome. -/
def noise (m : LatentMarket F rng) (i : Fin kOutcomes) : F :=
  (rng.normal (m.drifted i.val).draws).1

theorem drifted_succ (m : LatentMarket F rng) (i : Fin kOutcomes) :
    m.drifted (i.val + 1) = (m.drifted i.val).drift i := by
  have hlt : i.val < (List.finRange kOutcomes).length := by
    rw [List.length_finRange]
    exact i.isLt
  unfold drifted
  rw [List.take_succ_eq_append_getElem hlt, List.foldl_append, List.getElem_finRange]
  rfl

/-- Each outcome drifts by its own draw, from where it was. -/
theorem logits_drifted (m : LatentMarket F rng) {k : Nat} (hk : k ≤ kOutcomes) :
    (m.drifted k).initialLogits = m.initialLogits ∧
      ∀ i, (m.drifted k).logits i =
        if i.val < k then m.logits i +
          ((kReversionRate : F) * (m.initialLogits i - m.logits i) + (kDriftSigma : F) * m.noise i)
        else m.logits i := by
  induction k with
  | zero => exact ⟨rfl, fun i => rfl⟩
  | succ k ih =>
    obtain ⟨hinit, hlogits⟩ := ih (Nat.le_of_succ_le hk)
    have hstep : m.drifted (k + 1) = (m.drifted k).drift ⟨k, hk⟩ := drifted_succ m ⟨k, hk⟩
    rw [hstep]
    refine ⟨hinit, fun i => ?_⟩
    show Function.update (m.drifted k).logits ⟨k, hk⟩ _ i = _
    by_cases hi : i = ⟨k, hk⟩
    · subst hi
      rw [Function.update_self, if_pos (Nat.lt_succ_self k), hlogits, if_neg (Nat.lt_irrefl k), hinit]
      rfl
    · have hne : i.val ≠ k := fun e => hi (Fin.ext e)
      rw [Function.update_of_ne hi, hlogits]
      by_cases hlt : i.val < k
      · rw [if_pos hlt, if_pos (Nat.lt_succ_of_lt hlt)]
      · rw [if_neg hlt, if_neg (by omega)]

/-- The market all of whose outcomes have drifted. -/
theorem drifted_all (m : LatentMarket F rng) :
    m.drifted kOutcomes = (List.finRange kOutcomes).foldl drift m := by
  unfold drifted
  rw [List.take_of_length_le (by rw [List.length_finRange])]

/-- Whether the market jumps in this step, and on which outcome. -/
def leaps (m : LatentMarket F rng) (i : Fin kOutcomes) : Prop :=
  (rng.uniform (m.drifted kOutcomes).draws).1 < kJumpProb ∧
    (rng.pick (rng.uniform (m.drifted kOutcomes).draws).2).1 = i

instance instDecidableLeaps (m : LatentMarket F rng) (i : Fin kOutcomes) : Decidable (m.leaps i) :=
  inferInstanceAs (Decidable (_ ∧ _))

theorem step_eq (m : LatentMarket F rng) :
    m.step.initialLogits = m.initialLogits ∧
      ∀ i, m.step.logits i =
        if m.leaps i then (m.drifted kOutcomes).logits i + kJumpMagnitude
        else (m.drifted kOutcomes).logits i := by
  have hinit := (logits_drifted m (Nat.le_refl _)).1
  unfold step jump
  rw [← drifted_all]
  dsimp only
  by_cases hu : (rng.uniform (m.drifted kOutcomes).draws).1 < kJumpProb
  · rw [if_pos hu]
    refine ⟨hinit, fun i => ?_⟩
    dsimp only
    by_cases hi : (rng.pick (rng.uniform (m.drifted kOutcomes).draws).2).1 = i
    · have hleaps : m.leaps i := ⟨hu, hi⟩
      rw [if_pos hleaps, hi, Function.update_self]
    · have hstays : ¬ m.leaps i := fun h => hi h.2
      rw [if_neg hstays, Function.update_of_ne (Ne.symm hi)]
  · rw [if_neg hu]
    refine ⟨hinit, fun i => ?_⟩
    have hstays : ¬ m.leaps i := fun h => hu h.1
    rw [if_neg hstays]

/-- A market jumps where one of its outcomes does. -/
theorem jumped_step (m : LatentMarket F rng) : m.step.jumped = true ↔ ∃ i, m.leaps i := by
  unfold step jump
  rw [← drifted_all]
  dsimp only
  by_cases hu : (rng.uniform (m.drifted kOutcomes).draws).1 < kJumpProb
  · rw [if_pos hu]
    exact ⟨fun _ => ⟨_, hu, rfl⟩, fun _ => rfl⟩
  · rw [if_neg hu]
    exact ⟨fun h => absurd h Bool.false_ne_true, fun ⟨i, h, _⟩ => absurd h hu⟩

end LatentMarket

/-! ## 2. Any number of steps -/

namespace LatentMarket

variable {rng : Rng ℝ}

/-- What a step adds to one logit besides the reversion. -/
noncomputable def shock (m : LatentMarket ℝ rng) (i : Fin kOutcomes) : ℝ :=
  0.05 * m.noise i + if m.leaps i then 1.5 else 0

/-- How far one logit is from where it began. -/
def deviation (m : LatentMarket ℝ rng) (i : Fin kOutcomes) : ℝ := m.logits i - m.initialLogits i

theorem deviation_step (m : LatentMarket ℝ rng) (i : Fin kOutcomes) :
    m.step.deviation i = 0.98 * m.deviation i + m.shock i := by
  obtain ⟨hinit, hlogits⟩ := step_eq m
  have hdrift := (logits_drifted m (Nat.le_refl _)).2 i
  have hreversion : (kReversionRate : ℝ) = 0.02 := rfl
  have hsigma : (kDriftSigma : ℝ) = 0.05 := rfl
  have hjump : (kJumpMagnitude : ℝ) = 1.5 := rfl
  rw [if_pos i.isLt, hreversion, hsigma] at hdrift
  unfold deviation shock
  rw [hinit, hlogits, hdrift, hjump]
  split
  · ring
  · ring

theorem initialLogits_after (m : LatentMarket ℝ rng) (n : Nat) :
    (m.after n).initialLogits = m.initialLogits := by
  induction n with
  | zero => rfl
  | succ n ih => exact (step_eq (m.after n)).1.trans ih

/-- **Where a logit is after `n` steps**: its start, and of every shock what has not reverted yet. -/
theorem logits_eq (rng : Rng ℝ) (seed : UInt64) (initialProbs : Fin kOutcomes → ℝ) (n : Nat)
    (i : Fin kOutcomes) :
    ((start rng seed initialProbs).after n).logits i = Real.log (initialProbs i) +
      ∑ k ∈ Finset.range n, 0.98 ^ (n - 1 - k) * ((start rng seed initialProbs).after k).shock i := by
  have hrec := linear_recurrence (x := fun n => ((start rng seed initialProbs).after n).deviation i)
    (fun n => deviation_step ((start rng seed initialProbs).after n) i) n
  have hzero : ((start rng seed initialProbs).after 0).deviation i = 0 := sub_self _
  have hinit : ((start rng seed initialProbs).after n).initialLogits i =
      Real.log (initialProbs i) := by
    rw [initialLogits_after]
    rfl
  rw [hzero, mul_zero, zero_add] at hrec
  unfold deviation at hrec
  rw [hinit] at hrec
  linarith

/-- As long as the draws stay within `b`, every logit stays this close to its start. -/
theorem deviation_bounds (rng : Rng ℝ) (seed : UInt64) (initialProbs : Fin kOutcomes → ℝ) {b : ℝ}
    {n : Nat} (hb : ∀ k < n, ∀ i, |((start rng seed initialProbs).after k).noise i| ≤ b)
    (hpos : 0 ≤ b) (i : Fin kOutcomes) :
    -(2.5 * b) ≤ ((start rng seed initialProbs).after n).deviation i ∧
      ((start rng seed initialProbs).after n).deviation i ≤ 2.5 * b + 75 := by
  have hzero : ((start rng seed initialProbs).after 0).deviation i = 0 := sub_self _
  refine recurrence_bounds (a := 0.98) (by norm_num)
    (x := fun n => ((start rng seed initialProbs).after n).deviation i)
    (fun n => deviation_step ((start rng seed initialProbs).after n) i) ?_ fun k hk => ?_
  · rw [hzero]
    constructor
    · linarith
    · linarith
  · obtain ⟨hlo, hhi⟩ := abs_le.mp (hb k hk i)
    unfold shock
    split
    · constructor
      · linarith
      · linarith
    · constructor
      · linarith
      · linarith

end LatentMarket

theorem mul_exp_eq {p : ℝ} (hp : 0 < p) (x : ℝ) : p * Real.exp x = Real.exp (Real.log p + x) := by
  rw [Real.exp_add, Real.exp_log hp]

/-- Logits that lie between `lo` and `hi` above those of a distribution keep that much of it. -/
theorem Bookmaker.softmax_ge {logits p : Fin kOutcomes → ℝ} {lo hi : ℝ} (hp : ∀ i, 0 < p i)
    (hsum : ∑ i, p i = 1) (hlo : ∀ i, Real.log (p i) + lo ≤ logits i)
    (hhi : ∀ i, logits i ≤ Real.log (p i) + hi) (i : Fin kOutcomes) :
    p i * Real.exp (lo - hi) ≤ softmax logits i := by
  have hbelow : p i * Real.exp (lo - maxLogit logits) ≤ Real.exp (logits i - maxLogit logits) := by
    rw [mul_exp_eq (hp i)]
    exact Real.exp_le_exp.mpr (by linarith [hlo i])
  have habove : ∑ j, Real.exp (logits j - maxLogit logits) ≤ Real.exp (hi - maxLogit logits) := by
    calc ∑ j, Real.exp (logits j - maxLogit logits)
        ≤ ∑ j, p j * Real.exp (hi - maxLogit logits) := by
          refine Finset.sum_le_sum fun j _ => ?_
          rw [mul_exp_eq (hp j)]
          exact Real.exp_le_exp.mpr (by linarith [hhi j])
      _ = Real.exp (hi - maxLogit logits) := by rw [← Finset.sum_mul, hsum, one_mul]
  have hpos : 0 < ∑ j, Real.exp (logits j - maxLogit logits) :=
    sum_pos_of_pos fun j => Real.exp_pos _
  have hsplit : p i * Real.exp (lo - hi) * Real.exp (hi - maxLogit logits) =
      p i * Real.exp (lo - maxLogit logits) := by
    rw [mul_assoc, ← Real.exp_add]
    congr 2
    ring
  rw [softmax_eq, le_div_iff₀ hpos]
  calc p i * Real.exp (lo - hi) * ∑ j, Real.exp (logits j - maxLogit logits)
      ≤ p i * Real.exp (lo - hi) * Real.exp (hi - maxLogit logits) :=
        mul_le_mul_of_nonneg_left habove (mul_nonneg (hp i).le (Real.exp_pos _).le)
    _ = p i * Real.exp (lo - maxLogit logits) := hsplit
    _ ≤ Real.exp (logits i - maxLogit logits) := hbelow

/-! ## 3. The probabilities of a run -/

/-- **An opening line is a distribution**, and none of its outcomes is below a twentieth: the guard
    in the code never acts. -/
theorem openingLine_valid (master : UInt64) (marketId : UInt32) :
    (∀ i, (0.05 : ℝ) ≤ openingLine master marketId i) ∧
      ∑ i, (openingLine master marketId : Fin kOutcomes → ℝ) i = 1 := by
  -- the two numbers the line is made from are below a thousand
  have hdigits : ∀ x : UInt64, (0 : ℝ) ≤ (((x % 1000).toNat : ℕ) : ℝ) ∧
      (((x % 1000).toNat : ℕ) : ℝ) ≤ 999 := by
    intro x
    have hlt : (x % 1000).toNat < 1000 := by
      rw [UInt64.toNat_mod]
      exact Nat.mod_lt _ (by decide)
    exact ⟨Nat.cast_nonneg _, by exact_mod_cast Nat.le_of_lt_succ hlt⟩
  have hthousand : ((1000 : ℕ) : ℝ) = 1000 := by norm_num
  let h : UInt64 := Seeding.deriveSeed master 99 marketId.toUInt64
  let low : UInt64 := h % 1000
  let high : UInt64 := (h >>> 20) % 1000
  let home : ℝ := 0.25 + 0.35 * ((low.toNat : ℕ) : ℝ) / ((1000 : ℕ) : ℝ)
  let draw : ℝ := 0.20 + 0.15 * ((high.toNat : ℕ) : ℝ) / ((1000 : ℕ) : ℝ)
  have hhome : home = 0.25 + 0.35 * ((low.toNat : ℕ) : ℝ) / 1000 := by rw [← hthousand]
  have hdraw : draw = 0.20 + 0.15 * ((high.toNat : ℕ) : ℝ) / 1000 := by rw [← hthousand]
  obtain ⟨hlow, hlow'⟩ : (0 : ℝ) ≤ ((low.toNat : ℕ) : ℝ) ∧ ((low.toNat : ℕ) : ℝ) ≤ 999 := hdigits h
  obtain ⟨hhigh, hhigh'⟩ : (0 : ℝ) ≤ ((high.toNat : ℕ) : ℝ) ∧ ((high.toNat : ℕ) : ℝ) ≤ 999 :=
    hdigits (h >>> 20)
  have haway : ¬ 1 - home - draw < 0.05 := by
    rw [hhome, hdraw]
    linarith
  have hline : (openingLine master marketId : Fin kOutcomes → ℝ) =
      three home draw (1 - home - draw) := if_neg haway
  have hsum : ∑ i, three home draw (1 - home - draw) i = home + draw + (1 - home - draw) :=
    Fin.sum_univ_three _
  rw [hline]
  refine ⟨fun i => ?_, by rw [hsum]; ring⟩
  unfold three
  split
  · rw [hhome]
    linarith
  · split
    · rw [hdraw]
      linarith
    · exact not_lt.mp haway

/-- **Every market of every run has a distribution at every step**, over the reals: whatever the random
    engine does, the probabilities are positive, below one and sum to one; and as long as the normal
    draws so far were no larger than `b`, none has fallen under this part of a twentieth. -/
theorem latent_valid (rng : Rng ℝ) (master : UInt64) (marketId : UInt32) (seed : UInt64) (n : Nat) :
    let market := fun k => (LatentMarket.start rng seed (openingLine master marketId)).after k
    (∀ i, 0 < (market n).softmax i ∧ (market n).softmax i < 1) ∧
      ∑ i, (market n).softmax i = 1 ∧
      ∀ b, (∀ k < n, ∀ i, |(market k).noise i| ≤ b) → 0 ≤ b →
        ∀ i, 0.05 * Real.exp (-(5 * b + 75)) ≤ (market n).softmax i := by
  intro market
  obtain ⟨hopen, hopenSum⟩ := openingLine_valid master marketId
  have hpos : ∀ i, 0 < (openingLine master marketId : Fin kOutcomes → ℝ) i :=
    fun i => lt_of_lt_of_le (by norm_num) (hopen i)
  have hsoft : ∀ i, 0 < (market n).softmax i := Bookmaker.softmax_pos _
  have hsum : ∑ i, (market n).softmax i = 1 := Bookmaker.sum_softmax _
  refine ⟨fun i => ⟨hsoft i, ?_⟩, hsum, fun b hb hb0 i => ?_⟩
  · -- another outcome has the rest
    obtain ⟨j, hj⟩ : ∃ j : Fin kOutcomes, j ≠ i := @exists_ne (Fin 3) _ i
    have htwo := Finset.add_le_sum (fun k _ => (hsoft k).le) (Finset.mem_univ i)
      (Finset.mem_univ j) hj.symm
    rw [hsum] at htwo
    linarith [hsoft j]
  · have hbounds := fun i => LatentMarket.deviation_bounds rng seed (openingLine master marketId) hb
      hb0 i
    have hinit : ∀ i, (market n).initialLogits i = Real.log (openingLine master marketId i) := by
      intro i
      show ((LatentMarket.start rng seed (openingLine master marketId)).after n).initialLogits i = _
      rw [LatentMarket.initialLogits_after]
      rfl
    have hge := @Bookmaker.softmax_ge (market n).logits _ (-(2.5 * b)) (2.5 * b + 75) hpos hopenSum
      (fun i => by
        have h := (hbounds i).1
        unfold LatentMarket.deviation at h
        rw [← hinit]
        linarith)
      (fun i => by
        have h := (hbounds i).2
        unfold LatentMarket.deviation at h
        rw [← hinit]
        linarith) i
    have hexp : -(2.5 * b) - (2.5 * b + 75) = -(5 * b + 75) := by ring
    rw [hexp] at hge
    exact le_trans (mul_le_mul_of_nonneg_right (hopen i) (Real.exp_pos _).le) hge

theorem kOutcomes_pos : 0 < kOutcomes := by decide

/-- A random engine that counts its steps and its normal draws. These are one and minus one in turn;
    and in every other step the market jumps, the outcomes taking turns. -/
noncomputable def restlessRng : Rng ℝ :=
  { State := Nat × Nat
    seeded := fun _ => (0, 0)
    normal := fun s => (if s.2 % 2 = 0 then 1 else -1, (s.1, s.2 + 1))
    uniform := fun s => (if s.1 % 2 = 1 then 0 else 0.5, (s.1 + 1, s.2))
    pick := fun s => (⟨s.1 / 2 % kOutcomes, Nat.mod_lt _ kOutcomes_pos⟩, s)
    discrete := fun _ s => (⟨s.1 % kOutcomes, Nat.mod_lt _ kOutcomes_pos⟩, s) }

namespace LatentMarket

/-- The steps its engine has counted. -/
def stepsDrawn (m : LatentMarket ℝ restlessRng) : Nat := Prod.fst (show Nat × Nat from m.draws)

/-- Only the draw behind the drifts counts as a step. -/
theorem stepsDrawn_drifted (m : LatentMarket ℝ restlessRng) (k : Nat) :
    (m.drifted k).stepsDrawn = m.stepsDrawn := by
  unfold drifted
  induction (List.finRange kOutcomes).take k generalizing m with
  | nil => rfl
  | cons i is ih => exact ih (m.drift i)

theorem stepsDrawn_step (m : LatentMarket ℝ restlessRng) :
    m.step.stepsDrawn = m.stepsDrawn + 1 := by
  have hdraws : ((List.finRange kOutcomes).foldl drift m).stepsDrawn = m.stepsDrawn := by
    rw [← drifted_all]
    exact stepsDrawn_drifted m kOutcomes
  rw [← hdraws]
  unfold step jump
  dsimp only
  split
  · rfl
  · rfl

theorem stepsDrawn_after (seed : UInt64) (initialProbs : Fin kOutcomes → ℝ) (n : Nat) :
    ((start restlessRng seed initialProbs).after n).stepsDrawn = n := by
  induction n with
  | zero => rfl
  | succ n ih =>
    show ((start restlessRng seed initialProbs).after n).step.stepsDrawn = n + 1
    rw [stepsDrawn_step, ih]

theorem leaps_restless (seed : UInt64) (initialProbs : Fin kOutcomes → ℝ) (n : Nat) :
    (∃ i, ((start restlessRng seed initialProbs).after n).leaps i) ↔ n % 2 = 1 := by
  let m := (start restlessRng seed initialProbs).after n
  have hdraws : (m.drifted kOutcomes).stepsDrawn = n :=
    (stepsDrawn_drifted m kOutcomes).trans (stepsDrawn_after seed initialProbs n)
  have hdraw : (restlessRng.uniform (m.drifted kOutcomes).draws).1 =
      if (m.drifted kOutcomes).stepsDrawn % 2 = 1 then 0 else 0.5 := rfl
  have hjump : (∃ i, m.leaps i) ↔
      (restlessRng.uniform (m.drifted kOutcomes).draws).1 < kJumpProb :=
    ⟨fun ⟨_, hu, _⟩ => hu, fun hu => ⟨_, hu, rfl⟩⟩
  rw [hjump, hdraw, hdraws]
  unfold kJumpProb
  by_cases hodd : n % 2 = 1
  · norm_num [hodd]
  · norm_num [hodd]

/-- The steps in which a market jumps are the odd ones. -/
theorem jumped_restless (seed : UInt64) (initialProbs : Fin kOutcomes → ℝ) (n : Nat) :
    ((start restlessRng seed initialProbs).after (n + 1)).jumped = true ↔ n % 2 = 1 :=
  (jumped_step _).trans (leaps_restless seed initialProbs n)

theorem abs_noise_restless (m : LatentMarket ℝ restlessRng) (i : Fin kOutcomes) : |m.noise i| = 1 := by
  unfold noise
  show |(if _ then (1 : ℝ) else -1)| = 1
  split
  · exact abs_one
  · rw [abs_neg, abs_one]

end LatentMarket

/-- A thousand steps of it, half of them with a jump. -/
theorem latent_valid_restless :
    ((LatentMarket.start restlessRng 7 (openingLine 42 0)).after 1000).jumped = true ∧
      ∀ i, 0.05 * Real.exp (-80) ≤
        ((LatentMarket.start restlessRng 7 (openingLine 42 0)).after 1000).softmax i := by
  refine ⟨(LatentMarket.jumped_restless _ _ 999).mpr (by decide), fun i => ?_⟩
  have h := (latent_valid restlessRng 42 0 7 1000).2.2 1 (fun k _ i =>
    (LatentMarket.abs_noise_restless _ i).le) zero_le_one i
  norm_num at h ⊢
  exact h

end OddsEngine
