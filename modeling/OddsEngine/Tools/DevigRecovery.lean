/-
  File:      OddsEngine/Tools/DevigRecovery.lean
  Subject:   What the validation says of the sessions its first method is made for
             (tools/validate_devig.cpp on the run of sim/main.cpp that wrote both files).

  A proportional margin is undone by dividing by the booksum: the source calls the multiplicative
  method its exact inverse. What is left are the rounding of the odds and the noise of the book.

  * `within_beliefOf` -- noise of at most `z` in the logits moves a probability by a factor between
    `exp (-2z)` and `exp (2z)`;
  * `proportional_scores` -- so of a run whose books put a proportional margin on what they saw, the
    tool given their lag matches every record from that tick on, and no error of its first method is
    above the rounding and the noise.
-/
import OddsEngine.Tools.DevigScores
import OddsEngine.Tools.SimulatedFiles

namespace OddsEngine

open Lib

/-! ## 1. The noise -/

namespace Bookmaker

/-- The softmax of the logarithms of a distribution is the distribution. -/
theorem softmax_log {p : Fin kOutcomes → ℝ} (hp : ∀ i, 0 < p i) (hsum : ∑ i, p i = 1) :
    softmax (fun i => Real.log (p i)) = p := by
  funext i
  let top := maxLogit fun i => Real.log (p i)
  have hexp : ∀ j, Real.exp (Real.log (p j) - top) = p j * Real.exp (-top) := by
    intro j
    rw [sub_eq_add_neg, Real.exp_add, Real.exp_log (hp j)]
  rw [softmax_eq]
  show Real.exp (Real.log (p i) - top) / ∑ j, Real.exp (Real.log (p j) - top) = p i
  rw [hexp, Finset.sum_congr rfl fun j _ => hexp j, ← Finset.sum_mul, hsum, one_mul,
    mul_div_cancel_right₀ _ (Real.exp_pos _).ne']

theorem log_softmax (logits : Fin kOutcomes → ℝ) (i : Fin kOutcomes) :
    Real.log (softmax logits i) = logits i -
      (maxLogit logits + Real.log (∑ j, Real.exp (logits j - maxLogit logits))) := by
  have htotal : 0 < ∑ j, Real.exp (logits j - maxLogit logits) :=
    sum_pos_of_pos fun j => Real.exp_pos _
  rw [softmax_eq, Real.log_div (Real.exp_pos _).ne' htotal.ne', Real.log_exp]
  ring

/-- Logits that moved by at most `z` leave a share of at least `exp (-2z)`. -/
theorem softmax_moved_ge {before after : Fin kOutcomes → ℝ} {z : ℝ}
    (hz : ∀ i, |after i - before i| ≤ z) (i : Fin kOutcomes) :
    softmax before i * Real.exp (-(2 * z)) ≤ softmax after i := by
  let shift := maxLogit before + Real.log (∑ j, Real.exp (before j - maxLogit before))
  have hmoved := fun j => abs_le.mp (hz j)
  have hgap : shift - z - (shift + z) = -(2 * z) := by ring
  have hge := @softmax_ge after (softmax before) (shift - z) (shift + z) (softmax_pos before)
    (sum_softmax before)
    (fun j => by
      rw [log_softmax]
      have h := (hmoved j).1
      show before j - shift + (shift - z) ≤ after j
      linarith)
    (fun j => by
      rw [log_softmax]
      have h := (hmoved j).2
      show after j ≤ before j - shift + (shift + z)
      linarith) i
  rwa [hgap] at hge

/-- So the shares of two such vectors of logits are within a factor of `exp (2z)`, either way. -/
theorem within_softmax {before after : Fin kOutcomes → ℝ} {z : ℝ}
    (hz : ∀ i, |after i - before i| ≤ z) (i : Fin kOutcomes) :
    Within (Real.exp (2 * z) - 1) (softmax before i) (softmax after i) := by
  have hlow := softmax_moved_ge hz i
  have hhigh := softmax_moved_ge (fun j => (abs_sub_comm _ _).trans_le (hz j)) i
  have hunit : Real.exp (-(2 * z)) * Real.exp (2 * z) = 1 := by
    rw [← Real.exp_add, neg_add_cancel, Real.exp_zero]
  have hexp := Real.add_one_le_exp (2 * z)
  have hexp' := Real.add_one_le_exp (-(2 * z))
  unfold Within
  rw [abs_le]
  constructor
  · have hscaled : (2 - Real.exp (2 * z)) * softmax before i ≤
        Real.exp (-(2 * z)) * softmax before i :=
      mul_le_mul_of_nonneg_right (by linarith) (softmax_pos before i).le
    linarith
  · have hback : softmax after i ≤ softmax before i * Real.exp (2 * z) := by
      calc softmax after i
          = softmax after i * Real.exp (-(2 * z)) * Real.exp (2 * z) := by
            rw [mul_assoc, hunit, mul_one]
        _ ≤ softmax before i * Real.exp (2 * z) :=
            mul_le_mul_of_nonneg_right hhigh (Real.exp_pos _).le
    linarith

/-- **What the noise does to a belief.** -/
theorem within_beliefOf {cfg : BookConfig ℝ} {normal p : Fin kOutcomes → ℝ} {z : ℝ}
    (hp : ∀ i, 0 < p i) (hsum : ∑ i, p i = 1) (hz : ∀ i, |cfg.noiseSigma * normal i| ≤ z)
    (i : Fin kOutcomes) :
    Within (Real.exp (2 * z) - 1) (p i) (beliefOf cfg normal p i) := by
  have hmoved : ∀ j, |Real.log (p j) + cfg.noiseSigma * normal j - Real.log (p j)| ≤ z := by
    intro j
    rw [add_sub_cancel_left]
    exact hz j
  have hnear := within_softmax hmoved i
  rwa [softmax_log hp hsum] at hnear

/-- **The booksum takes a proportional margin off again**, up to the rounding of the odds. -/
theorem multiplicative_near {cfg : BookConfig ℝ} {p : Fin kOutcomes → ℝ} (hp : ∀ i, 0 < p i)
    (hsum : ∑ i, p i = 1) (hmodel : cfg.vigModel = .proportional) (hmargin : 0.001 ≤ cfg.overround)
    (hfree : ∀ i, Unclamped (withMargin cfg p i)) :
    (Devig.multiplicative (decimalQuote (withMargin cfg p))).usableAsDistribution = true ∧
      ∀ i : Fin kOutcomes, Within 0.0011 (p i)
        ((Devig.multiplicative (decimalQuote (withMargin cfg p))).prob (i.castLE kOutcomes_le)) := by
  have htotal := within_sum_quotedOdds hp hsum hfree
  have hscale : 0 < 1 + cfg.overround := by
    norm_num at hmargin
    linarith
  have hvalid := validOdds_decimalQuote (withMargin cfg p)
  have hbook : 1 < Devig.booksum (decimalQuote (withMargin cfg p)) := by
    have hlow := htotal.ge
    rw [booksum_decimalQuote]
    norm_num at hmargin hlow ⊢
    linarith
  refine ⟨(Devig.usable_multiplicative_iff _).mpr ⟨hvalid, hbook.not_ge⟩, fun i => ?_⟩
  have hi : (i.castLE kOutcomes_le : Fin kMaxOutcomes).val <
      (decimalQuote (withMargin cfg p)).length := by
    rw [length_decimalQuote]
    exact i.isLt
  have hbelief : withMargin cfg p i / (1 + cfg.overround) = p i := by
    unfold withMargin
    rw [hmodel]
    exact mul_div_cancel_right₀ _ hscale.ne'
  have hshare := within_share (by norm_num) (by norm_num) (hfree i).pos.le hscale
    (within_oddsMilli (hfree i)) htotal
  rw [hbelief] at hshare
  rw [Devig.multiplicative_prob hvalid hbook hi, impliedAt_decimalQuote, booksum_decimalQuote]
  exact hshare.mono (by norm_num) (hp i).le

end Bookmaker

/-! ## 2. One record -/

namespace ValidateDevig

open Simulator

/-- The books of a run put a proportional margin of a tenth of a percent or more on what they saw
    `lag` ticks before, with noise of at most `z` in a logit, and no price is clamped. -/
structure Proportional (roster : List (SimBookConfig ℝ)) (streams : Simulation.Streams ℝ)
    (markets ticks lag : Nat) (z : ℝ) : Prop where
  lag : ∀ b, Simulation.HasLag roster b lag
  model : ∀ b : Fin roster.length, (roster.get b).cfg.vigModel = .proportional
  margin : ∀ b : Fin roster.length, 0.001 ≤ (roster.get b).cfg.overround
  noise : ∀ tick < ticks, ∀ m < markets, ∀ (b : Fin roster.length) i,
    |(roster.get b).cfg.noiseSigma * streams.normal tick.toUInt64 m b i| ≤ z
  free : ∀ tick < ticks, ∀ m < markets, ∀ (b : Fin roster.length) i,
    Bookmaker.Unclamped (Simulation.quotesOf roster streams tick.toUInt64 m b i)

section Errors

variable {F : Type} [DoubleArith F] {truth : List (TruthRecord F)} {lagTicks : UInt64}
  {u : OddsUpdate} {t : TruthRecord F}

theorem recordErrors_of_none (h : comparedWith truth lagTicks u = none) (method : Fin 3) :
    recordErrors truth lagTicks method u = [] := by
  unfold recordErrors
  rw [h]

/-- The first method's errors on a matched record, where its answer is usable. -/
theorem recordErrors_of_some (h : comparedWith truth lagTicks u = some t)
    (husable : (Devig.multiplicative (recordOdds u) : DevigResult F).usableAsDistribution = true) :
    recordErrors truth lagTicks 0 u =
      ((List.finRange kMaxOutcomes).take (min u.outcomeCount.toNat t.outcomeCount.toNat)).map
        (errorAt t (Devig.multiplicative (recordOdds u))) := by
  unfold recordErrors
  rw [h]
  exact if_pos husable

end Errors

/-- A record of three outcomes whose answer is within `c` of the vector it is compared with. -/
theorem errors_of_matched {truth : List (TruthRecord ℝ)} {lagTicks : UInt64} {u : OddsUpdate}
    {t : TruthRecord ℝ} {odds : List ℝ} {c : ℝ} (h : comparedWith truth lagTicks u = some t)
    (hodds : recordOdds u = odds)
    (hcount : min u.outcomeCount.toNat t.outcomeCount.toNat = kOutcomes)
    (husable : (Devig.multiplicative odds).usableAsDistribution = true)
    (herror : ∀ i : Fin kOutcomes, |(Devig.multiplicative odds).prob
      (i.castLE Bookmaker.kOutcomes_le) - t.prob (i.castLE Bookmaker.kOutcomes_le)| ≤ c) :
    (recordErrors truth lagTicks 0 u).length = kOutcomes ∧
      ∀ e ∈ recordErrors truth lagTicks 0 u, |e.2| ≤ c := by
  subst hodds
  rw [recordErrors_of_some h husable, hcount]
  constructor
  · rw [List.length_map, List.length_take, List.length_finRange]
    exact min_eq_left Bookmaker.kOutcomes_le
  · intro e he
    obtain ⟨i, hi, rfl⟩ := List.mem_map.mp he
    have hlt : i.val < kOutcomes := (mem_take_finRange i).mp hi
    exact herror ⟨i.val, hlt⟩

/-! ## 3. One record of a run -/

/-- The odds of a record of the simulator are those its book quoted. -/
theorem recordOdds_recordOf (bookId : UInt16) (seqNo tick : UInt64) (m : Nat)
    (q : Fin kOutcomes → ℝ) :
    (recordOdds (Generator.recordOf bookId seqNo tick m (Bookmaker.quotedOdds q)) : List ℝ) =
      Bookmaker.decimalQuote q := rfl

theorem prob_truthOf (tick : UInt64) (m : Nat) (latent : Simulation.Latent ℝ) (i : Fin kOutcomes) :
    (Simulation.truthOf tick m latent).prob (i.castLE Bookmaker.kOutcomes_le) = latent i :=
  dif_pos i.isLt

/-- The record is not of a tick before the first vector it could be compared with. -/
def IsLate (lagTicks : UInt64) (u : OddsUpdate) : Bool :=
  decide (lagTicks ≤ u.simTimestampNs / kTickIntervalNs)

section Run

variable (rng : Rng ℝ) {roster : List (SimBookConfig ℝ)} {sim : SimOptions} {lagTicks : UInt64}
  {z : ℝ}

/-- A record of a run is one that a visit of it sent. -/
theorem sent_of_mem_records (hlags : ∀ b, ∃ lag, Simulation.HasLag roster b lag) {u : OddsUpdate}
    (hu : u ∈ records rng roster sim) :
    ∃ v ∈ Generator.visits roster.length sim.markets.toNat sim.ticks.toNat, ∃ k,
      u = Generator.sent roster (Simulation.quotesOf roster (streams rng roster sim.seed)) v k := by
  unfold records at hu
  rw [Simulation.map_update_run _ _ hlags, Generator.generate_eq_foldl] at hu
  obtain ⟨v, hv, k, -, hsent⟩ := (Generator.numbered_foldl roster _ _).origin u hu
  exact ⟨v, hv, k, hsent⟩

/-- What a book quotes at a tick that is not before the lag: the margin on its belief of the vector
    the tool compares the record with. -/
theorem quotesOf_late {lag : Nat} {b : Fin roster.length} (hlag : Simulation.HasLag roster b lag)
    {tick : Nat} (hfit : tick < 2 ^ 64) (hback : lag ≤ tick) (seed : UInt64) (m : Nat) :
    Simulation.quotesOf roster (streams rng roster seed) tick.toUInt64 m b =
      Bookmaker.withMargin (roster.get b).cfg (Bookmaker.beliefOf (roster.get b).cfg
        ((streams rng roster seed).normal tick.toUInt64 m b)
        (latentAt rng seed m (tick - lag + 1)).softmax) := by
  rw [Simulation.quotesOf_eq roster _ hlag hfit, Simulation.laggedLatent, Nat.min_eq_left hback,
    latent_streams seed (Nat.lt_of_le_of_lt (Nat.sub_le _ _) hfit) m]

/-- **The first method's answer to such a quote** is usable, and off the vector by no more than the
    rounding and the noise. -/
theorem answer_near {lag : Nat} {markets ticks : Nat} {seed : UInt64}
    (hbooks : Proportional roster (streams rng roster seed) markets ticks lag z) {tick m : Nat}
    (htick : tick < ticks) (hm : m < markets) (b : Fin roster.length) (hfit : tick < 2 ^ 64)
    (hback : lag ≤ tick) :
    let q := Simulation.quotesOf roster (streams rng roster seed) tick.toUInt64 m b
    (Devig.multiplicative (Bookmaker.decimalQuote q)).usableAsDistribution = true ∧
      ∀ i : Fin kOutcomes, |(Devig.multiplicative (Bookmaker.decimalQuote q)).prob
        (i.castLE Bookmaker.kOutcomes_le) - (latentAt rng seed m (tick - lag + 1)).softmax i| ≤
          1.0011 * Real.exp (2 * z) - 1 := by
  intro q
  have hq : q = _ := quotesOf_late rng (hbooks.lag b) hfit hback seed m
  let p := (latentAt rng seed m (tick - lag + 1)).softmax
  have hp : ∀ i, 0 < p i := Bookmaker.softmax_pos _
  have hsum : ∑ i, p i = 1 := Bookmaker.sum_softmax _
  have hfree : ∀ i, Bookmaker.Unclamped (q i) := hbooks.free tick htick m hm b
  rw [hq] at hfree ⊢
  obtain ⟨husable, hnear⟩ := Bookmaker.multiplicative_near (Bookmaker.softmax_pos _)
    (Bookmaker.sum_softmax _) (hbooks.model b) (hbooks.margin b) hfree
  refine ⟨husable, fun i => ?_⟩
  have hone : p i ≤ 1 := by
    rw [← hsum]
    exact Finset.single_le_sum (fun j _ => (hp j).le) (Finset.mem_univ i)
  have hboth := (Bookmaker.within_beliefOf hp hsum (hbooks.noise tick htick m hm b) i).trans
    (hnear i) (by norm_num)
  have hshare : (1 + (Real.exp (2 * z) - 1)) * (1 + 0.0011) - 1 =
      1.0011 * Real.exp (2 * z) - 1 := by ring
  unfold Within at hboth
  rw [hshare] at hboth
  have hpos : 0 ≤ 1.0011 * Real.exp (2 * z) - 1 :=
    nonneg_of_mul_nonneg_left ((abs_nonneg _).trans hboth) (hp i)
  exact hboth.trans (mul_le_of_le_one_right hpos hone)

/-- **The errors of one record**: three, none above the rounding and the noise; of an early record,
    none at all. -/
theorem errors_of_record (hsim : sim.Accepted)
    (hstamps : sim.ticks.toNat * kTickIntervalNs.toNat < 2 ^ 64)
    (hbooks : Proportional roster (streams rng roster sim.seed) sim.markets.toNat sim.ticks.toNat
      lagTicks.toNat z) {v : Generator.Visit roster.length}
    (hv : v ∈ Generator.visits roster.length sim.markets.toNat sim.ticks.toNat) {u : OddsUpdate}
    {k : Nat} (hu : u =
      Generator.sent roster (Simulation.quotesOf roster (streams rng roster sim.seed)) v k)
    {truth : List (TruthRecord ℝ)} (htruth : truth =
      (Simulation.run roster (streams rng roster sim.seed) sim.markets sim.ticks).truth) :
    isMatched truth lagTicks u = IsLate lagTicks u ∧
      (recordErrors truth lagTicks 0 u).length = (if IsLate lagTicks u then kOutcomes else 0) ∧
      ∀ e ∈ recordErrors truth lagTicks 0 u, |e.2| ≤ 1.0011 * Real.exp (2 * z) - 1 := by
  obtain ⟨htick, hmarket⟩ := Generator.mem_visits hv
  have hfit : v.tick < 2 ^ 64 := htick.trans sim.ticks.toNat_lt
  have hstamp : u.simTimestampNs / kTickIntervalNs = v.tick.toUInt64 := by
    rw [hu]
    exact tick_of_stamp (Nat.lt_of_le_of_lt (Nat.mul_le_mul_right _ htick.le) hstamps)
  have hmarketId : u.marketId = v.market.toUInt16 := by
    rw [hu]
    rfl
  by_cases hlate : lagTicks ≤ v.tick.toUInt64
  · have hislate : IsLate lagTicks u = true := decide_eq_true (by rw [hstamp]; exact hlate)
    obtain ⟨hback, -⟩ := @tick_sub v.tick _ lagTicks hfit rfl hlate
    have hcompared := comparedWith_run roster (streams rng roster sim.seed) hsim.markets_le hstamps
      rfl htick hmarket hstamp hmarketId hlate
    rw [← htruth, latent_streams sim.seed (Nat.lt_of_le_of_lt (Nat.sub_le _ _) hfit)] at hcompared
    obtain ⟨husable, hnear⟩ := answer_near rng hbooks htick hmarket v.book hfit hback
    have hodds : (recordOdds u : List ℝ) = Bookmaker.decimalQuote (Simulation.quotesOf roster
        (streams rng roster sim.seed) v.tick.toUInt64 v.market v.book) := by
      rw [hu]
      exact recordOdds_recordOf _ _ _ _ _
    have hcount : u.outcomeCount = kOutcomes.toUInt8 := by
      rw [hu]
      rfl
    have hthree : kOutcomes.toUInt8.toNat = kOutcomes := by decide
    have herrors := errors_of_matched hcompared hodds (by
      rw [hcount]
      show min kOutcomes.toUInt8.toNat kOutcomes.toUInt8.toNat = kOutcomes
      rw [min_self, hthree]) husable (c := 1.0011 * Real.exp (2 * z) - 1) (fun i => by
        rw [prob_truthOf]
        exact hnear i)
    refine ⟨?_, ?_, herrors.2⟩
    · rw [hislate]
      unfold isMatched
      rw [hcompared]
      rfl
    · rw [if_pos hislate]
      exact herrors.1
  · have hislate : IsLate lagTicks u = false := decide_eq_false (by rw [hstamp]; exact hlate)
    have hcompared : comparedWith truth lagTicks u = none := by
      unfold comparedWith
      dsimp only
      rw [hstamp, if_pos (UInt64.not_le.mp hlate)]
    rw [recordErrors_of_none hcompared, hislate]
    refine ⟨?_, rfl, fun e he => absurd he List.not_mem_nil⟩
    unfold isMatched
    rw [hcompared]
    rfl

end Run

/-! ## 4. The tables of a run -/

theorem length_flatMap_countP {α β : Type} {f : α → List β} {p : α → Bool} {k : Nat} {xs : List α}
    (h : ∀ x ∈ xs, (f x).length = if p x then k else 0) :
    (xs.flatMap f).length = k * xs.countP p := by
  induction xs with
  | nil => rfl
  | cons x xs ih =>
    rw [List.flatMap_cons, List.length_append, h x List.mem_cons_self,
      ih fun y hy => h y (List.mem_cons_of_mem _ hy), List.countP_cons]
    split
    · rw [Nat.mul_add, Nat.mul_one, Nat.add_comm]
    · rw [Nat.zero_add, Nat.add_zero]

/-- **The tool finds its first method right where it is exact.** Of a run whose books all have the
    lag, a proportional margin, noise of at most `z` and no clamped price, every record from that lag
    on is matched and no other; the first method answers all of them; and in its four rows neither
    the mean error nor the root of the mean square nor the worst is above the rounding and the noise:
    11 parts in ten thousand where there is none. (The session has a size of 64 bits.) -/
theorem proportional_scores (rng : Rng ℝ) {roster : List (SimBookConfig ℝ)} {sim : SimOptions}
    (hsim : sim.Accepted) (hstamps : sim.ticks.toNat * kTickIntervalNs.toNat < 2 ^ 64)
    (hsize : 64 * (records rng roster sim).length < 2 ^ 64) {lagTicks : UInt64} {z : ℝ} (hz : 0 ≤ z)
    (hbooks : Proportional roster (streams rng roster sim.seed) sim.markets.toNat sim.ticks.toNat
      lagTicks.toNat z) :
    let truth := (Simulation.run roster (streams rng roster sim.seed) sim.markets sim.ticks).truth
    let rs := records rng roster sim
    ∃ s, scoreSession truth lagTicks rs = .ok s ∧
      s.matched.toNat = rs.countP (IsLate lagTicks) ∧
      s.unmatched.toNat = (rs.countP fun u => !IsLate lagTicks u) ∧
      (s.overall 0).n.toNat = 3 * s.matched.toNat ∧
      ((s.overall 0).Ordered ∧ (s.overall 0).worst ≤ 1.0011 * Real.exp (2 * z) - 1) ∧
      ∀ b, (s.bucketed b 0).Ordered ∧
        (s.bucketed b 0).worst ≤ 1.0011 * Real.exp (2 * z) - 1 := by
  intro truth rs
  have hlags : ∀ b, ∃ lag, Simulation.HasLag roster b lag := fun b => ⟨_, hbooks.lag b⟩
  have hrecord : ∀ u ∈ rs, isMatched truth lagTicks u = IsLate lagTicks u ∧
      (recordErrors truth lagTicks 0 u).length = (if IsLate lagTicks u then kOutcomes else 0) ∧
      ∀ e ∈ recordErrors truth lagTicks 0 u, |e.2| ≤ 1.0011 * Real.exp (2 * z) - 1 := by
    intro u hu
    obtain ⟨v, hv, k, hsent⟩ := sent_of_mem_records rng hlags hu
    exact errors_of_record rng hsim hstamps hbooks hv hsent rfl
  have hcounts : ∀ u ∈ rs, isMatched truth lagTicks u → u.outcomeCount.toNat ≤ kMaxOutcomes := by
    intro u hu _
    obtain ⟨v, -, k, rfl⟩ := sent_of_mem_records rng hlags hu
    exact (by decide : kOutcomes.toUInt8.toNat ≤ kMaxOutcomes)
  have hmatched : rs.countP (isMatched truth lagTicks) = rs.countP (IsLate lagTicks) :=
    List.countP_congr fun u hu => by rw [(hrecord u hu).1]
  have hunmatched : (rs.countP fun u => !isMatched truth lagTicks u) =
      rs.countP fun u => !IsLate lagTicks u :=
    List.countP_congr fun u hu => by rw [(hrecord u hu).1]
  -- the errors of the first method
  let errs := rs.flatMap (recordErrors truth lagTicks 0)
  have hlen : errs.length = 3 * rs.countP (IsLate lagTicks) :=
    length_flatMap_countP fun u hu => (hrecord u hu).2.1
  have hbound : ∀ e ∈ errs, |e.2| ≤ 1.0011 * Real.exp (2 * z) - 1 := by
    intro e he
    obtain ⟨u, hu, he⟩ := List.mem_flatMap.mp he
    exact (hrecord u hu).2.2 e he
  have hpos : (0 : ℝ) ≤ 1.0011 * Real.exp (2 * z) - 1 := by
    have hexp := Real.add_one_le_exp (2 * z)
    linarith
  have hrow : ∀ es : List ℝ, (∀ e ∈ es, ∃ b, (b, e) ∈ errs) →
      (statsOf es).worst ≤ 1.0011 * Real.exp (2 * z) - 1 := by
    intro es hes
    rw [worst_statsOf]
    refine largest_le_iff.mpr ⟨hpos, fun e he => ?_⟩
    obtain ⟨b, hb⟩ := hes e he
    exact hbound (b, e) hb
  refine ⟨_, foldlM_eq_tablesOf hcounts, ?_, ?_, ?_, ⟨?_, ?_⟩, fun b => ⟨?_, ?_⟩⟩
  · rw [toNat_matched hsize, hmatched]
  · rw [toNat_unmatched hsize, hunmatched]
  · rw [toNat_matched hsize, hmatched]
    refine (toNat_n (length_overall_lt hsize 0)).trans ?_
    rw [List.length_map]
    exact hlen
  · exact ordered_statsOf (length_overall_lt hsize 0)
  · refine hrow (errs.map Prod.snd) fun e he => ?_
    obtain ⟨x, hx, rfl⟩ := List.mem_map.mp he
    exact ⟨x.1, hx⟩
  · exact ordered_statsOf (length_bucketed_lt hsize b 0)
  · exact hrow (inBucket b errs) fun e he => ⟨b, mem_inBucket.mp he⟩

/-! ## 5. A book with noise, of a market that jumps -/

/-- What the first two steps of the restless engine can do to a logit. -/
theorem deviation_restless (seed : UInt64) (initialProbs : Fin kOutcomes → ℝ) {n : Nat} (hn : n ≤ 2)
    (i : Fin kOutcomes) :
    (-0.1 : ℝ) ≤ ((LatentMarket.start restlessRng seed initialProbs).after n).deviation i ∧
      ((LatentMarket.start restlessRng seed initialProbs).after n).deviation i ≤ 1.6 := by
  let m := LatentMarket.start restlessRng seed initialProbs
  have hnoise := fun k => abs_le.mp (LatentMarket.abs_noise_restless (m.after k) i).le
  have hzero : (m.after 0).deviation i = 0 := sub_self _
  have hfirst : -0.05 ≤ (m.after 1).deviation i ∧ (m.after 1).deviation i ≤ 0.05 := by
    have hstep := LatentMarket.deviation_step (m.after 0) i
    have hstays : ¬ (m.after 0).leaps i := fun h =>
      absurd ((LatentMarket.leaps_restless seed initialProbs 0).mp ⟨i, h⟩) (by decide)
    have hshock : (m.after 0).shock i = 0.05 * (m.after 0).noise i + 0 := by
      unfold LatentMarket.shock
      rw [if_neg hstays]
    obtain ⟨hlow, hhigh⟩ := hnoise 0
    rw [hzero, hshock] at hstep
    change (m.after 1).deviation i = _ at hstep
    rw [hstep]
    constructor
    · linarith
    · linarith
  have hsecond : -0.1 ≤ (m.after 2).deviation i ∧ (m.after 2).deviation i ≤ 1.6 := by
    have hstep := LatentMarket.deviation_step (m.after 1) i
    change (m.after 2).deviation i = _ at hstep
    obtain ⟨hlow, hhigh⟩ := hnoise 1
    rw [hstep]
    unfold LatentMarket.shock
    norm_num at hfirst ⊢
    split
    · constructor
      · linarith [hfirst.1]
      · linarith [hfirst.2]
    · constructor
      · linarith [hfirst.1]
      · linarith [hfirst.2]
  rcases (by omega : n = 0 ∨ n = 1 ∨ n = 2) with rfl | rfl | rfl
  · show -0.1 ≤ (m.after 0).deviation i ∧ (m.after 0).deviation i ≤ 1.6
    rw [hzero]
    norm_num
  · show -0.1 ≤ (m.after 1).deviation i ∧ (m.after 1).deviation i ≤ 1.6
    norm_num at hfirst ⊢
    constructor
    · linarith [hfirst.1]
    · linarith [hfirst.2]
  · exact hsecond

/-- So much of its twentieth every outcome keeps. -/
theorem softmax_restless (seed : UInt64) (m : Nat) {n : Nat} (hn : n ≤ 2) (i : Fin kOutcomes) :
    0.0067 ≤ (latentAt restlessRng seed m n).softmax i := by
  obtain ⟨hopen, hsum⟩ := openingLine_valid seed m.toUInt32
  let market := latentAt restlessRng seed m n
  have hinit : ∀ j, market.initialLogits j = Real.log (openingLine seed m.toUInt32 j) := by
    intro j
    show ((LatentMarket.start restlessRng _ (openingLine seed m.toUInt32)).after n).initialLogits j = _
    rw [LatentMarket.initialLogits_after]
    rfl
  have hbounds : ∀ j, -0.1 ≤ market.logits j - Real.log (openingLine seed m.toUInt32 j) ∧
      market.logits j - Real.log (openingLine seed m.toUInt32 j) ≤ 1.6 := by
    intro j
    rw [← hinit j]
    exact deviation_restless _ _ hn j
  have hkeeps := @Bookmaker.softmax_ge market.logits _ (-0.1) 1.6
    (fun j => lt_of_lt_of_le (by norm_num) (hopen j)) hsum (fun j => by linarith [(hbounds j).1])
    (fun j => by linarith [(hbounds j).2]) i
  have hexp : (0.134 : ℝ) ≤ Real.exp (-0.1 - 1.6) := by
    have htenth := Real.add_one_le_exp (-0.17 : ℝ)
    have hsplit : (-0.1 - 1.6 : ℝ) = (10 : ℕ) * (-0.17) := by norm_num
    rw [hsplit, Real.exp_nat_mul]
    calc (0.134 : ℝ) ≤ (-0.17 + 1) ^ 10 := by norm_num
      _ ≤ Real.exp (-0.17) ^ 10 := pow_le_pow_left₀ (by norm_num) htenth 10
  calc (0.0067 : ℝ) = 0.05 * 0.134 := by norm_num
    _ ≤ openingLine seed m.toUInt32 i * Real.exp (-0.1 - 1.6) :=
      mul_le_mul (hopen i) hexp (by norm_num) (le_trans (by norm_num) (hopen i))
    _ ≤ _ := hkeeps

/-- Three draws of that engine are one in size at most. -/
theorem abs_normals_restless (draws : restlessRng.State) (i : Fin kOutcomes) :
    |(restlessRng.normals draws).1 i| ≤ 1 := by
  have hdraw : ∀ s, |(restlessRng.normal s).1| = 1 := by
    intro s
    show |(if _ then (1 : ℝ) else -1)| = 1
    split
    · exact abs_one
    · rw [abs_neg, abs_one]
  have hloop : ∀ (is : List (Fin kOutcomes)) (z : (Fin kOutcomes → ℝ) × restlessRng.State),
      (∀ j, |z.1 j| ≤ 1) → ∀ j, |(is.foldl (fun z i =>
        let x := restlessRng.normal z.2
        (Function.update z.1 i x.1, x.2)) z).1 j| ≤ 1 := by
    intro is
    induction is with
    | nil => exact fun z hz => hz
    | cons i is ih =>
      intro z hz
      refine ih _ fun j => ?_
      show |Function.update z.1 i (restlessRng.normal z.2).1 j| ≤ 1
      by_cases hj : j = i
      · rw [hj, Function.update_self, hdraw]
      · rw [Function.update_of_ne hj]
        exact hz j
  exact hloop (List.finRange kOutcomes) (fun _ => 0, draws) (fun j => by
    show |(0 : ℝ)| ≤ 1
    rw [abs_zero]
    exact zero_le_one) i

/-- One book, a tick behind, with a proportional margin of half a percent and some noise. -/
noncomputable def calibrationRoster : List (SimBookConfig ℝ) :=
  [{ cfg :=
       { bookId := 0, lagTicks := 1, overround := 0.005, noiseSigma := 0.01, skew := 1,
         vigModel := .proportional }
     updateIntervalTicks := 1 }]

/-- Its prices are between the bounds where no outcome is out of the question. -/
theorem unclamped_calibration {p normal : Fin kOutcomes → ℝ} (hp : ∀ i, 0.0067 ≤ p i)
    (hsum : ∑ i, p i = 1) (hnormal : ∀ i, |0.01 * normal i| ≤ 0.01) (i : Fin kOutcomes) :
    let cfg := (calibrationRoster.head (List.cons_ne_nil _ _)).cfg
    Bookmaker.Unclamped (Bookmaker.withMargin cfg (Bookmaker.beliefOf cfg normal p) i) := by
  intro cfg
  let belief := Bookmaker.beliefOf cfg normal p
  have hpos : ∀ j, 0 < p j := fun j => lt_of_lt_of_le (by norm_num) (hp j)
  have hbelief : ∑ j, belief j = 1 := Bookmaker.sum_softmax _
  -- the noise takes little of it
  have hfloor : ∀ j, 0.0065 ≤ belief j := by
    intro j
    have hnear := @Bookmaker.within_beliefOf cfg normal p 0.01 hpos hsum hnormal j
    have hexp : Real.exp (2 * 0.01) ≤ 1.021 := by
      have hback := Real.add_one_le_exp (-(2 * 0.01) : ℝ)
      have hunit : Real.exp (-(2 * 0.01)) * Real.exp (2 * 0.01) = 1 := by
        rw [← Real.exp_add, neg_add_cancel, Real.exp_zero]
      have hexpPos := Real.exp_pos (2 * 0.01 : ℝ)
      norm_num at hback hunit hexpPos ⊢
      nlinarith only [hback, hunit, hexpPos]
    have hlow := (abs_le.mp hnear).1
    have hsmall : (Real.exp (2 * 0.01) - 1) * p j ≤ 0.021 * p j :=
      mul_le_mul_of_nonneg_right (by linarith) (hpos j).le
    have hfloor := hp j
    show 0.0065 ≤ Bookmaker.beliefOf cfg normal p j
    norm_num at hfloor hlow hsmall ⊢
    linarith
  -- and the other outcomes have the rest
  have hhigh : belief i ≤ 0.987 := by
    have hthree : ∑ j, belief j = belief ⟨0, by decide⟩ + belief ⟨1, by decide⟩ +
        belief ⟨2, by decide⟩ := Fin.sum_univ_three _
    rw [hthree] at hbelief
    have h0 := hfloor ⟨0, by decide⟩
    have h1 := hfloor ⟨1, by decide⟩
    have h2 := hfloor ⟨2, by decide⟩
    norm_num at h0 h1 h2 ⊢
    match i with
    | ⟨0, _⟩ => linarith
    | ⟨1, _⟩ => linarith
    | ⟨2, _⟩ => linarith
  have hlow := hfloor i
  have hmin : ((Bookmaker.kMinOddsMilli.toNat : ℕ) : ℝ) = 1001 := by
    show ((1001 : ℕ) : ℝ) = 1001
    norm_num
  have hmax : ((Bookmaker.kMaxOddsMilli.toNat : ℕ) : ℝ) = 1000000 := by
    show ((1000000 : ℕ) : ℝ) = 1000000
    norm_num
  show Bookmaker.Unclamped (belief i * (1 + 0.005))
  unfold Bookmaker.Unclamped
  have hprice : 0 < belief i * (1 + 0.005) :=
    mul_pos (lt_of_lt_of_le (by norm_num) hlow) (by norm_num)
  rw [hmin, hmax, le_div_iff₀ hprice, div_le_iff₀ hprice]
  norm_num at hlow hhigh ⊢
  constructor
  · linarith
  · linarith

theorem proportional_calibrationRoster (seed : UInt64) {markets : Nat} :
    Proportional calibrationRoster (streams restlessRng calibrationRoster seed) markets 3 1 0.01 := by
  have hlag : ∀ b, Simulation.HasLag calibrationRoster b 1 := by
    intro b
    match b with
    | ⟨0, _⟩ => exact ⟨rfl, by decide⟩
  have hbook : ∀ b : Fin calibrationRoster.length, calibrationRoster.get b = calibrationRoster.head
      (List.cons_ne_nil _ _) := by
    intro b
    match b with
    | ⟨0, _⟩ => rfl
  have hnoise : ∀ (tick : UInt64) (m : Nat) (b : Fin calibrationRoster.length) (i : Fin kOutcomes),
      |0.01 * (streams restlessRng calibrationRoster seed).normal tick m b i| ≤ 0.01 := by
    intro tick m b i
    have hnormal : |(streams restlessRng calibrationRoster seed).normal tick m b i| ≤ 1 := by
      show |(if h : b.val < calibrationRoster.length then (restlessRng.normals _).1
        else fun _ => 0 : Fin kOutcomes → ℝ) i| ≤ 1
      rw [dif_pos b.isLt]
      exact abs_normals_restless _ i
    rw [abs_mul, abs_of_pos (by norm_num)]
    exact (mul_le_mul_of_nonneg_left hnormal (by norm_num)).trans (by norm_num)
  refine ⟨hlag, fun b => ?_, fun b => ?_, fun tick _ m _ b i => ?_, fun tick htick m _ b i => ?_⟩
  · rw [hbook]
    rfl
  · rw [hbook]
    show (0.001 : ℝ) ≤ 0.005
    norm_num
  · rw [hbook]
    exact hnoise tick.toUInt64 m b i
  · -- the book quotes a vector of the first two steps
    have hline : Simulation.laggedLatent (streams restlessRng calibrationRoster seed) 1 tick m =
        (latentAt restlessRng seed m (tick - min 1 tick + 1)).softmax := by
      unfold Simulation.laggedLatent
      rw [latent_streams seed (by omega) m]
    rw [Simulation.quotesOf_eq calibrationRoster _ (hlag b) (by omega), hline, hbook]
    exact unclamped_calibration (softmax_restless seed m (by omega)) (Bookmaker.sum_softmax _)
      (hnoise tick.toUInt64 m b) i

/-- Three ticks of it: the worst error is that of the rounding and the noise. -/
theorem proportional_scores_calibration :
    ∃ s : Scores ℝ, scoreSession (Simulation.run calibrationRoster
        (streams restlessRng calibrationRoster 42) 1 3).truth 1
        (records restlessRng calibrationRoster { markets := 1, ticks := 3 }) = .ok s ∧
      (s.overall 0).worst ≤ 1.0011 * Real.exp (2 * 0.01) - 1 := by
  have hsim : SimOptions.Accepted { markets := 1, ticks := 3 } :=
    ⟨by decide, by decide, by decide⟩
  have hbooks : Proportional calibrationRoster (streams restlessRng calibrationRoster 42)
      (1 : UInt32).toNat (3 : UInt64).toNat (1 : UInt64).toNat 0.01 :=
    proportional_calibrationRoster 42
  have hinterval : ∀ book ∈ calibrationRoster, 0 < (Generator.interval book).toNat := by
    intro book hbook
    rw [List.mem_singleton.mp hbook]
    exact (by decide : 0 < ((1 : Int32).toInt64.toUInt64).toNat)
  have hlen : (records restlessRng calibrationRoster { markets := 1, ticks := 3 }).length = 3 := by
    unfold records
    rw [Simulation.map_update_run _ _ fun b => ⟨1, hbooks.lag b⟩,
      Generator.length_generate _ _ _ _ hinterval]
    rfl
  obtain ⟨s, hscored, -, -, -, ⟨-, hworst⟩, -⟩ := proportional_scores restlessRng hsim (by decide)
    (by rw [hlen]; decide) (by norm_num) hbooks
  exact ⟨s, hscored, hworst⟩

end ValidateDevig

end OddsEngine
