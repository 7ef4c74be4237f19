/-
  File:      OddsEngine/Analytics/BetTotals.lean
  Subject:   The sums of a bet analysis, and the shares it prints of them (the loop of
             analytics/analyze_bets.cpp and the report behind it).

  The loop goes through the bets once and keeps two dozen sums. Each is a sum over the bets that
  contribute to it: those with a closing line, those whose market is settled, those after a jump.

  * `scoreBet_eq` -- what one bet adds to every sum;
  * `totals_foldlM` -- so what each sum is after any bets;
  * `balance_of_run` -- the sums that split the same bets balance: the markets' profits and the
    buckets' add up to the total, and the buckets' edge shares, where there is an edge, to a hundred
    percent.
-/
import Mathlib.Algebra.BigOperators.Field
import OddsEngine.Analytics.BetLogChecks
import OddsEngine.Analytics.JumpEpisodes
import OddsEngine.Lib.Tally
import OddsEngine.Sim.SideFiles

namespace OddsEngine.AnalyzeBets

open Lib

/-! ## 1. What one bet adds -/

/-- The odds its market and outcome closed at, where the bet has a close. -/
def closeOf (ref : Reference) (br : BetRecord ℝ) : Option UInt32 :=
  if br.marketId.toNat < ref.markets then
    if h : br.outcome.toNat < 4 then
      let cb := ref.closing br.marketId.toNat ⟨br.outcome.toNat, h⟩
      if cb < 1001 then none else some cb
    else none
  else none

/-- The bet was taken at longer odds than its market closed at. -/
def beats (ref : Reference) (br : BetRecord ℝ) : Bool :=
  (closeOf ref br).any fun cb => decide (cb < br.oddsMilliTaken)

noncomputable def clvOf (br : BetRecord ℝ) (cb : UInt32) : ℝ :=
  decimalOdds br.oddsMilliTaken / decimalOdds cb - 1

/-- What it brought, where its market is settled. -/
noncomputable def settledOf (ref : Reference) (br : BetRecord ℝ) : Option ℝ :=
  if br.marketId.toNat < ref.markets then
    (ref.winner.bind fun winner => winner br.marketId.toNat).map
      (pnlOf br (decimalOdds br.oddsMilliTaken))
  else none

/-- Its bucket, where jumps are given. -/
def bucketIn (ref : Reference) (br : BetRecord ℝ) : Option (Fin 8) :=
  if br.marketId.toNat < ref.markets then
    ref.jumps.map fun jumps => bucketOf (ticksSinceJump (jumps br.marketId.toNat) (tickOf br))
  else none

def marketOf (br : BetRecord ℝ) : Option Nat := some br.marketId.toNat

theorem decimalOdds_lt_iff (a b : UInt32) : (decimalOdds a : ℝ) < decimalOdds b ↔ a < b := by
  unfold decimalOdds
  rw [div_lt_div_iff_of_pos_right (by norm_num), Nat.cast_lt, UInt32.lt_iff_toNat_lt]

theorem addClosing_eq (s : Scores ℝ) (br : BetRecord ℝ) (cb : UInt32) (close : Option UInt32)
    (hclose : close = if cb < 1001 then none else some cb) :
    s.addClosing br (decimalOdds br.oddsMilliTaken) cb =
      { s with
        nClv := s.nClv + if close.isSome then 1 else 0
        beat := s.beat + if close.any (fun cb => decide (cb < br.oddsMilliTaken)) then 1 else 0
        clvSum := s.clvSum + (close.map (clvOf br)).getD 0
        clvStakeSum := s.clvStakeSum + (close.map fun cb => br.stake * clvOf br cb).getD 0
        stakeForClv := s.stakeForClv + (close.map fun _ => br.stake).getD 0
        beatStake := s.beatStake +
          (if close.any (fun cb => decide (cb < br.oddsMilliTaken)) then some br.stake
            else none).getD 0 } := by
  unfold Scores.addClosing
  by_cases hcb : cb < 1001
  · rw [if_pos hcb] at hclose ⊢
    subst hclose
    simp
  · rw [if_neg hcb] at hclose ⊢
    subst hclose
    simp only [decimalOdds_lt_iff]
    by_cases hbeat : cb < br.oddsMilliTaken
    · simp [hbeat, clvOf]
    · simp [hbeat, clvOf]

/-- The profit of a bet whose market is settled, as the loop adds it. -/
noncomputable def Scores.settle (s : Scores ℝ) (br : BetRecord ℝ) : Option ℝ → Scores ℝ
  | none => s
  | some pnl => s.addSettled br pnl

theorem settle_eq (s : Scores ℝ) (br : BetRecord ℝ) (pnl : Option ℝ) :
    s.settle br pnl =
      { s with
        marketBet := fun m => s.marketBet m || (br.marketId.toNat == m && pnl.isSome)
        pnlMarket := fun m => s.pnlMarket m + (if marketOf br = some m then pnl else none).getD 0
        totalPnl := s.totalPnl + pnl.getD 0
        totalStakeSettled := s.totalStakeSettled + (pnl.map fun _ => br.stake).getD 0 } := by
  cases pnl with
  | none => simp [Scores.settle]
  | some pnl =>
    have hprofit : Function.update s.pnlMarket br.marketId.toNat
        (s.pnlMarket br.marketId.toNat + pnl) =
          fun m => s.pnlMarket m + (if marketOf br = some m then some pnl else none).getD 0 := by
      funext m
      by_cases hm : br.marketId.toNat = m
      · simp [marketOf, ← hm]
      · simp [marketOf, hm, Function.update_of_ne (Ne.symm hm)]
    have hbet : Function.update s.marketBet br.marketId.toNat true =
        fun m => s.marketBet m || (br.marketId.toNat == m && (some pnl).isSome) := by
      funext m
      by_cases hm : br.marketId.toNat = m
      · simp [← hm]
      · simp [hm, Function.update_of_ne (Ne.symm hm)]
    simp only [Scores.settle, Scores.addSettled]
    rw [hprofit, hbet]
    rfl

/-- The post-jump profile of a bet, as the loop adds it. -/
noncomputable def Scores.profile (s : Scores ℝ) (br : BetRecord ℝ) (pnl : Option ℝ) :
    Option (List UInt64) → Scores ℝ
  | none => s
  | some jt => s.addJump br (edgeMass br) pnl jt

theorem update_add_apply {M : Type} [Add M] [Zero M] (hzero : ∀ y : M, y + 0 = y) (f : Fin 8 → M)
    (b : Fin 8) (x : M) :
    Function.update f b (f b + x) = fun b' => f b' + if some b = some b' then x else 0 := by
  funext b'
  by_cases hb : b = b'
  · subst hb
    rw [Function.update_self, if_pos rfl]
  · rw [Function.update_of_ne (Ne.symm hb), if_neg fun h => hb (Option.some.inj h), hzero]

theorem profile_eq (s : Scores ℝ) (br : BetRecord ℝ) (pnl : Option ℝ) (jt : Option (List UInt64))
    (bucket : Option (Fin 8))
    (hbucket : bucket = jt.map fun jt => bucketOf (ticksSinceJump jt (tickOf br))) :
    s.profile br pnl jt =
      { s with
        bCnt := fun b => s.bCnt b + if bucket = some b then 1 else 0
        bStake := fun b => s.bStake b + (if bucket = some b then some br.stake else none).getD 0
        bEdge := fun b => s.bEdge b + (if bucket = some b then some (edgeMass br) else none).getD 0
        bPnl := fun b => s.bPnl b + (if bucket = some b then pnl else none).getD 0
        bPnlStake := fun b => s.bPnlStake b +
          (if bucket = some b then pnl.map fun _ => br.stake else none).getD 0
        totalEdgeMass := s.totalEdgeMass + (bucket.map fun _ => edgeMass br).getD 0
        episodeEdge := (s.profile br pnl jt).episodeEdge } := by
  subst hbucket
  have hsome : ∀ (b b' : Fin 8) (x : ℝ),
      (if some b = some b' then some x else none).getD 0 = if some b = some b' then x else 0 := by
    intro b b' x
    by_cases hb : some b = some b'
    · rw [if_pos hb, if_pos hb, Option.getD_some]
    · rw [if_neg hb, if_neg hb, Option.getD_none]
  cases jt with
  | none => simp [Scores.profile]
  | some jt =>
    have htick : br.simTimestampNs / kTickIntervalNs = tickOf br := rfl
    have hcount := update_add_apply UInt64.add_zero s.bCnt (bucketOf (ticksSinceJump jt (tickOf br))) 1
    have hsum := fun f : Fin 8 → ℝ =>
      update_add_apply add_zero f (bucketOf (ticksSinceJump jt (tickOf br)))
    simp only [Scores.profile, Scores.addJump, Option.map_some, hsome, htick, Option.getD_some]
    cases pnl with
    | none =>
      simp only [hcount, hsum, Option.map_none, ite_self, Option.getD_none, add_zero]
    | some pnl => simp only [hcount, hsum, Option.map_some, hsome]

/-- **What one bet adds.** -/
theorem scoreBet_eq {ref : Reference} {s s' : Scores ℝ} {br : BetRecord ℝ}
    (h : scoreBet ref s br = .ok s') :
    s' = { nBets := s.nBets + 1
           totalStake := s.totalStake + br.stake
           believedEdgeStakewt := s.believedEdgeStakewt + edgeMass br
           nClv := s.nClv + if (closeOf ref br).isSome then 1 else 0
           beat := s.beat + if beats ref br then 1 else 0
           clvSum := s.clvSum + ((closeOf ref br).map (clvOf br)).getD 0
           clvStakeSum := s.clvStakeSum +
            ((closeOf ref br).map fun cb => br.stake * clvOf br cb).getD 0
           stakeForClv := s.stakeForClv + ((closeOf ref br).map fun _ => br.stake).getD 0
           beatStake := s.beatStake + (if beats ref br then some br.stake else none).getD 0
           marketBet := fun m => s.marketBet m ||
            (br.marketId.toNat == m && (settledOf ref br).isSome)
           pnlMarket := fun m => s.pnlMarket m + (within marketOf m (settledOf ref) br).getD 0
           totalPnl := s.totalPnl + (settledOf ref br).getD 0
           totalStakeSettled := s.totalStakeSettled +
            ((settledOf ref br).map fun _ => br.stake).getD 0
           bCnt := fun b => s.bCnt b + if bucketIn ref br = some b then 1 else 0
           bStake := fun b => s.bStake b +
            (within (bucketIn ref) b (fun br => some br.stake) br).getD 0
           bEdge := fun b => s.bEdge b +
            (within (bucketIn ref) b (fun br => some (edgeMass br)) br).getD 0
           bPnl := fun b => s.bPnl b + (within (bucketIn ref) b (settledOf ref) br).getD 0
           bPnlStake := fun b => s.bPnlStake b +
            (within (bucketIn ref) b (fun br => (settledOf ref br).map fun _ => br.stake) br).getD 0
           totalEdgeMass := s.totalEdgeMass + ((bucketIn ref br).map fun _ => edgeMass br).getD 0
           episodeEdge := s'.episodeEdge } := by
  unfold scoreBet at h
  dsimp only at h
  by_cases hm : br.marketId.toNat < ref.markets
  · by_cases ho : br.outcome.toNat < 4
    · rw [if_pos hm, rd_of_lt _ ho] at h
      let base : Scores ℝ := { s with
        nBets := s.nBets + 1
        totalStake := s.totalStake + br.stake
        believedEdgeStakewt := s.believedEdgeStakewt + edgeMass br }
      let cb := ref.closing br.marketId.toNat ⟨br.outcome.toNat, ho⟩
      let jt := ref.jumps.map fun jumps => jumps br.marketId.toNat
      have hclose : closeOf ref br = if cb < 1001 then none else some cb := by
        unfold closeOf
        rw [if_pos hm, dif_pos ho]
      have hsettled : settledOf ref br =
          (ref.winner.bind fun winner => winner br.marketId.toNat).map
            (pnlOf br (decimalOdds br.oddsMilliTaken)) := if_pos hm
      have hbucket : bucketIn ref br =
          jt.map fun jt => bucketOf (ticksSinceJump jt (tickOf br)) := by
        unfold bucketIn
        rw [if_pos hm, Option.map_map]
        rfl
      have hs' : s' = ((base.addClosing br (decimalOdds br.oddsMilliTaken) cb).settle br
          (settledOf ref br)).profile br (settledOf ref br) jt := by
        rw [← Except.ok.inj h, hsettled]
        cases hjumps : ref.jumps with
        | none =>
          simp only [jt, hjumps]
          cases (ref.winner.bind fun winner => winner br.marketId.toNat) with
          | none => rfl
          | some w => rfl
        | some jumps =>
          simp only [jt, hjumps]
          cases (ref.winner.bind fun winner => winner br.marketId.toNat) with
          | none => rfl
          | some w => rfl
      have hfields := hs'
      rw [addClosing_eq _ _ _ _ hclose, settle_eq, profile_eq _ _ _ _ _ hbucket] at hfields
      rw [hfields]
      rfl
    · rw [if_pos hm, rd_of_not_lt _ ho] at h
      cases h
  · rw [if_neg hm] at h
    have hclose : closeOf ref br = none := if_neg hm
    have hsettled : settledOf ref br = none := if_neg hm
    have hbucket : bucketIn ref br = none := if_neg hm
    have hwithin : ∀ (b : Fin 8) (f : BetRecord ℝ → Option ℝ),
        within (bucketIn ref) b f br = none := fun b f => by
      unfold within
      rw [hbucket]
      rfl
    have hown : ∀ m, within marketOf m (settledOf ref) br = none := fun m =>
      within_of_none hsettled
    rw [← Except.ok.inj h]
    simp [hclose, hsettled, hbucket, hwithin, hown, beats, edgeMass]

/-! ## 2. The sums of a run -/

/-- What every sum is, after these bets. -/
structure Totals (ref : Reference) (brs : List (BetRecord ℝ)) (s : Scores ℝ) : Prop where
  nBets : s.nBets = brs.length.toUInt64
  totalStake : s.totalStake = (brs.map BetRecord.stake).sum
  believedEdgeStakewt : s.believedEdgeStakewt = (brs.map edgeMass).sum
  nClv : s.nClv = (brs.countP fun br => (closeOf ref br).isSome).toUInt64
  beat : s.beat = (brs.countP (beats ref)).toUInt64
  clvSum : s.clvSum = total (fun br => (closeOf ref br).map (clvOf br)) brs
  clvStakeSum : s.clvStakeSum =
    total (fun br => (closeOf ref br).map fun cb => br.stake * clvOf br cb) brs
  stakeForClv : s.stakeForClv = total (fun br => (closeOf ref br).map fun _ => br.stake) brs
  beatStake : s.beatStake = total (fun br => if beats ref br then some br.stake else none) brs
  marketBet : ∀ m, s.marketBet m =
    brs.any fun br => br.marketId.toNat == m && (settledOf ref br).isSome
  pnlMarket : ∀ m, s.pnlMarket m = total (within marketOf m (settledOf ref)) brs
  totalPnl : s.totalPnl = total (settledOf ref) brs
  totalStakeSettled : s.totalStakeSettled =
    total (fun br => (settledOf ref br).map fun _ => br.stake) brs
  bCnt : ∀ b, s.bCnt b = (brs.countP fun br => decide (bucketIn ref br = some b)).toUInt64
  bStake : ∀ b, s.bStake b = total (within (bucketIn ref) b fun br => some br.stake) brs
  bEdge : ∀ b, s.bEdge b = total (within (bucketIn ref) b fun br => some (edgeMass br)) brs
  bPnl : ∀ b, s.bPnl b = total (within (bucketIn ref) b (settledOf ref)) brs
  bPnlStake : ∀ b, s.bPnlStake b =
    total (within (bucketIn ref) b fun br => (settledOf ref br).map fun _ => br.stake) brs
  totalEdgeMass : s.totalEdgeMass = total (fun br => (bucketIn ref br).map fun _ => edgeMass br) brs

theorem countP_concat_toUInt64 {α : Type} (p : α → Bool) (xs : List α) (x : α) :
    ((xs ++ [x]).countP p).toUInt64 = (xs.countP p).toUInt64 + if p x then 1 else 0 := by
  rw [List.countP_append, List.countP_singleton]
  refine (UInt64.ofNat_add _ _).trans ?_
  cases p x
  · rfl
  · rfl

theorem totals_init (ref : Reference) : Totals ref [] Scores.init := by
  constructor <;> intros <;> rfl

/-- One more bet. -/
theorem Totals.snoc {ref : Reference} {brs : List (BetRecord ℝ)} {s s' : Scores ℝ}
    (h : Totals ref brs s) {br : BetRecord ℝ} (hscore : scoreBet ref s br = .ok s') :
    Totals ref (brs ++ [br]) s' := by
  have hsum : ∀ f : BetRecord ℝ → ℝ, ((brs ++ [br]).map f).sum = (brs.map f).sum + f br :=
    fun f => by rw [List.map_append, List.sum_append, List.map_singleton, List.sum_singleton]
  rw [scoreBet_eq hscore]
  exact
    { nBets := by
        show s.nBets + 1 = _
        rw [h.nBets, List.length_append]
        exact (UInt64.ofNat_add _ _).symm
      totalStake := by rw [hsum, ← h.totalStake]
      believedEdgeStakewt := by rw [hsum, ← h.believedEdgeStakewt]
      nClv := by rw [countP_concat_toUInt64, ← h.nClv]
      beat := by rw [countP_concat_toUInt64, ← h.beat]
      clvSum := by rw [total_concat, ← h.clvSum]
      clvStakeSum := by rw [total_concat, ← h.clvStakeSum]
      stakeForClv := by rw [total_concat, ← h.stakeForClv]
      beatStake := by rw [total_concat, ← h.beatStake]
      marketBet := fun m => by
        show (s.marketBet m || _) = _
        rw [List.any_append, ← h.marketBet, List.any_cons, List.any_nil, Bool.or_false]
      pnlMarket := fun m => by rw [total_concat, ← h.pnlMarket]
      totalPnl := by rw [total_concat, ← h.totalPnl]
      totalStakeSettled := by rw [total_concat, ← h.totalStakeSettled]
      bCnt := fun b => by
        rw [countP_concat_toUInt64, ← h.bCnt]
        simp only [decide_eq_true_eq]
      bStake := fun b => by rw [total_concat, ← h.bStake]
      bEdge := fun b => by rw [total_concat, ← h.bEdge]
      bPnl := fun b => by rw [total_concat, ← h.bPnl]
      bPnlStake := fun b => by rw [total_concat, ← h.bPnlStake]
      totalEdgeMass := by rw [total_concat, ← h.totalEdgeMass] }

/-- **The sums of a run.** -/
theorem totals_foldlM {ref : Reference} {brs : List (BetRecord ℝ)} {s : Scores ℝ}
    (h : brs.foldlM (scoreBet ref) Scores.init = .ok s) : Totals ref brs s := by
  induction brs using List.reverseRecOn generalizing s with
  | nil =>
    rw [← Except.ok.inj h]
    exact totals_init ref
  | append_singleton brs br ih =>
    rw [List.foldlM_append] at h
    cases hrest : brs.foldlM (scoreBet ref) (Scores.init : Scores ℝ) with
    | error e =>
      rw [hrest] at h
      cases h
    | ok t =>
      rw [hrest] at h
      have hlast : scoreBet ref t br = .ok s := by
        change [br].foldlM (scoreBet ref) t = .ok s at h
        rw [List.foldlM_cons] at h
        cases hone : scoreBet ref t br with
        | error e =>
          rw [hone] at h
          cases h
        | ok u =>
          rw [hone] at h
          exact h
      exact (ih hrest).snoc hlast

/-! ## 3. What the report prints of them -/

section Report

variable {F : Type} [DoubleArith F]

/-- "mean CLV", unweighted, in percent. -/
def Scores.meanClv (s : Scores F) : F := ((100 : ℕ) : F) * s.clvSum / ((s.nClv.toNat : ℕ) : F)

/-- "beat the close", in percent of the bets. -/
def Scores.beatShare (s : Scores F) : F :=
  ((100 : ℕ) : F) * ((s.beat.toNat : ℕ) : F) / ((s.nClv.toNat : ℕ) : F)

/-- "settled markets bet". -/
def Scores.events (s : Scores F) (markets : Nat) : Nat :=
  ((List.range markets).filter s.marketBet).length

/-- "effective # markets". -/
def Scores.effectiveMarkets (s : Scores F) (markets : Nat) : F :=
  let absv := ((List.range markets).filter s.marketBet).map fun m => Libm.abs (s.pnlMarket m)
  let sumAbs := sumLoop absv
  let sumSq := sumLoop (absv.map fun a => a * a)
  let herf := if 0 < sumAbs then sumSq / (sumAbs * sumAbs) else 0
  if 0 < herf then 1 / herf else 0

/-- "edge-share" of a bucket, in percent. -/
def Scores.edgeShare (s : Scores F) (b : Fin 8) : F :=
  if s.totalEdgeMass != 0 then ((100 : ℕ) : F) * s.bEdge b / s.totalEdgeMass else 0

end Report

theorem beats_closes {ref : Reference} {br : BetRecord ℝ} (h : beats ref br = true) :
    (closeOf ref br).isSome = true := by
  unfold beats at h
  cases hclose : closeOf ref br with
  | none =>
    rw [hclose] at h
    cases h
  | some cb => rfl

/-- A close is a price at which something can be won. -/
theorem closeOf_pos {ref : Reference} {br : BetRecord ℝ} {cb : UInt32}
    (h : closeOf ref br = some cb) : (0 : ℝ) < decimalOdds cb := by
  have hcb : ¬ cb < 1001 := by
    unfold closeOf at h
    split at h
    · split at h
      · dsimp only at h
        split at h
        · cases h
        · next hge => exact Option.some.inj h ▸ hge
      · cases h
    · cases h
  have hnat : (0 : Nat) < cb.toNat := by
    have hge : (1001 : UInt32).toNat ≤ cb.toNat := UInt32.le_iff_toNat_le.mp (not_lt.mp hcb)
    exact lt_of_lt_of_le (by decide) hge
  unfold decimalOdds
  exact div_pos (Nat.cast_pos.mpr hnat) (by norm_num)

/-- A bet beats its close exactly where its closing-line value is positive. -/
theorem clvOf_pos_iff {ref : Reference} {br : BetRecord ℝ} {cb : UInt32}
    (h : closeOf ref br = some cb) : 0 < clvOf br cb ↔ beats ref br = true := by
  have hpos := closeOf_pos h
  unfold clvOf beats
  rw [h, Option.any_some, decide_eq_true_iff, sub_pos, lt_div_iff₀ hpos, one_mul,
    decimalOdds_lt_iff]

/-- Where no bet beats its close, the mean closing-line value is not positive; where all do, it is
    not negative. -/
theorem meanClv_sign {ref : Reference} {brs : List (BetRecord ℝ)} {s : Scores ℝ}
    (h : Totals ref brs s) :
    ((∀ br ∈ brs, beats ref br = false) → s.meanClv ≤ 0) ∧
      ((∀ br ∈ brs, (closeOf ref br).isSome = true → beats ref br = true) → 0 ≤ s.meanClv) := by
  have hcast : (0 : ℝ) ≤ ((s.nClv.toNat : ℕ) : ℝ) := Nat.cast_nonneg _
  have hhundred : (0 : ℝ) ≤ ((100 : ℕ) : ℝ) := Nat.cast_nonneg _
  unfold Scores.meanClv
  rw [h.clvSum]
  constructor
  · intro hnone
    refine div_nonpos_of_nonpos_of_nonneg (mul_nonpos_of_nonneg_of_nonpos hhundred ?_) hcast
    have hle : total (fun br => (closeOf ref br).map (clvOf br)) brs ≤
        (brs.map fun _ => (0 : ℝ)).sum := by
      refine List.sum_le_sum fun br hbr => ?_
      dsimp only
      cases hclose : closeOf ref br with
      | none => exact le_refl (0 : ℝ)
      | some cb =>
        refine not_lt.mp fun hpos => ?_
        have hbeat := (clvOf_pos_iff hclose).mp hpos
        rw [hnone br hbr] at hbeat
        cases hbeat
    simpa using hle
  · intro hall
    refine div_nonneg (mul_nonneg hhundred ?_) hcast
    refine List.sum_nonneg fun x hx => ?_
    obtain ⟨br, hbr, rfl⟩ := List.mem_map.mp hx
    dsimp only
    cases hclose : closeOf ref br with
    | none => exact le_refl (0 : ℝ)
    | some cb =>
      exact le_of_lt ((clvOf_pos_iff hclose).mpr (hall br hbr (by rw [hclose]; rfl)))

/-! ## 4. The sums balance -/

/-- What the buckets got of the bets that contribute and are in one. -/
theorem sum_within_bucketIn (ref : Reference) (f : BetRecord ℝ → Option ℝ) (brs : List (BetRecord ℝ)) :
    ∑ b, total (within (bucketIn ref) b f) brs =
      total (fun br => (bucketIn ref br).bind fun _ => f br) brs := by
  rw [sum_total_within]
  simp only [Finset.mem_univ, if_true]

/-- A settled bet is in a bucket, where jumps are given. -/
theorem bind_bucketIn_settled {ref : Reference}
    (hjumps : ref.jumps.isSome = true) {α : Type} (f : ℝ → α) (br : BetRecord ℝ) :
    (bucketIn ref br).bind (fun _ => (settledOf ref br).map f) = (settledOf ref br).map f := by
  obtain ⟨jumps, hjumps⟩ := Option.isSome_iff_exists.mp hjumps
  by_cases hm : br.marketId.toNat < ref.markets
  · have hbucket : bucketIn ref br =
        some (bucketOf (ticksSinceJump (jumps br.marketId.toNat) (tickOf br))) := by
      unfold bucketIn
      rw [if_pos hm, hjumps]
      rfl
    rw [hbucket]
    rfl
  · have hnone : settledOf ref br = none := if_neg hm
    rw [hnone]
    exact Option.bind_fun_none _

section Balance

variable {ref : Reference} {brs : List (BetRecord ℝ)} {s : Scores ℝ} (h : Totals ref brs s)

include h

theorem Totals.counts (hlen : brs.length < 2 ^ 64) :
    s.beat ≤ s.nClv ∧ s.nClv ≤ s.nBets := by
  have hclv := brs.countP_le_length (p := fun br => (closeOf ref br).isSome)
  have hbeat : brs.countP (beats ref) ≤ brs.countP fun br => (closeOf ref br).isSome :=
    List.countP_mono_left fun br _ hbr => beats_closes hbr
  rw [h.beat, h.nClv, h.nBets, UInt64.le_iff_toNat_le, UInt64.le_iff_toNat_le,
    UInt64.toNat_ofNat_of_lt' (lt_of_le_of_lt (hbeat.trans hclv) hlen),
    UInt64.toNat_ofNat_of_lt' (lt_of_le_of_lt hclv hlen), UInt64.toNat_ofNat_of_lt' hlen]
  exact ⟨hbeat, hclv⟩

/-- So the share of them that beats the close is one. -/
theorem Totals.beatShare_bounds (hlen : brs.length < 2 ^ 64) (hclv : 0 < s.nClv) :
    0 ≤ s.beatShare ∧ s.beatShare ≤ 100 := by
  have hle := UInt64.le_iff_toNat_le.mp (h.counts hlen).1
  have hpos := UInt64.lt_iff_toNat_lt.mp hclv
  have hbeat : ((s.beat.toNat : ℕ) : ℝ) ≤ ((s.nClv.toNat : ℕ) : ℝ) := Nat.cast_le.mpr hle
  have hpos' : (0 : ℝ) < ((s.nClv.toNat : ℕ) : ℝ) := Nat.cast_pos.mpr hpos
  have hzero : (0 : ℝ) ≤ ((s.beat.toNat : ℕ) : ℝ) := Nat.cast_nonneg _
  unfold Scores.beatShare
  push_cast
  constructor
  · positivity
  · rw [div_le_iff₀ hpos']
    linarith

/-- The profits of the session's markets add up to the total. -/
theorem Totals.sum_pnlMarket :
    ∑ m ∈ Finset.range ref.markets, s.pnlMarket m = s.totalPnl := by
  simp only [h.pnlMarket]
  rw [h.totalPnl, sum_total_within]
  refine total_congr fun br _ => ?_
  unfold marketOf
  rw [Option.bind_some]
  by_cases hm : br.marketId.toNat ∈ Finset.range ref.markets
  · rw [if_pos hm]
  · have hnone : settledOf ref br = none := if_neg fun hlt => hm (Finset.mem_range.mpr hlt)
    rw [if_neg hm, hnone]

/-- The profits of the buckets add up to the total. -/
theorem Totals.sum_bPnl (hjumps : ref.jumps.isSome = true) : ∑ b, s.bPnl b = s.totalPnl := by
  simp only [h.bPnl]
  rw [sum_within_bucketIn, h.totalPnl]
  refine total_congr fun br _ => ?_
  have hsame := bind_bucketIn_settled hjumps id br
  rw [Option.map_id_fun, id] at hsame
  rw [hsame]

theorem Totals.sum_bPnlStake (hjumps : ref.jumps.isSome = true) :
    ∑ b, s.bPnlStake b = s.totalStakeSettled := by
  simp only [h.bPnlStake]
  rw [sum_within_bucketIn, h.totalStakeSettled]
  refine total_congr fun br _ => ?_
  rw [bind_bucketIn_settled hjumps]

theorem Totals.sum_bEdge : ∑ b, s.bEdge b = s.totalEdgeMass := by
  simp only [h.bEdge]
  rw [sum_within_bucketIn, h.totalEdgeMass]
  refine total_congr fun br _ => ?_
  cases bucketIn ref br with
  | none => rfl
  | some b => rfl

/-- So the shares of the buckets make a hundred percent. -/
theorem Totals.sum_edgeShare (hmass : s.totalEdgeMass ≠ 0) : ∑ b, s.edgeShare b = 100 := by
  have hne : (s.totalEdgeMass != 0) = true := bne_iff_ne.mpr hmass
  unfold Scores.edgeShare
  simp only [hne, if_true]
  rw [← Finset.sum_div, ← Finset.mul_sum, h.sum_bEdge, mul_div_assoc, div_self hmass, mul_one]
  norm_num

omit h in
/-- Without edge mass no share of it is printed. -/
theorem edgeShare_of_no_mass (hmass : s.totalEdgeMass = 0) (b : Fin 8) : s.edgeShare b = 0 := by
  have heq : (s.totalEdgeMass != 0) = false := bne_eq_false_iff_eq.mpr hmass
  unfold Scores.edgeShare
  rw [heq]
  rfl

/-- Of each bet that has a bucket, one count is one up. -/
theorem Totals.sum_bCnt (hlen : brs.length < 2 ^ 64) :
    ∑ b, (s.bCnt b).toNat = brs.countP fun br => (bucketIn ref br).isSome := by
  have hcount : ∀ b, (s.bCnt b).toNat = brs.countP fun br => decide (bucketIn ref br = some b) := by
    intro b
    rw [h.bCnt]
    exact UInt64.toNat_ofNat_of_lt' (lt_of_le_of_lt List.countP_le_length hlen)
  simp only [hcount]
  clear hcount h hlen
  induction brs with
  | nil => simp
  | cons br brs ih =>
    simp only [List.countP_cons, Finset.sum_add_distrib]
    rw [ih]
    congr 1
    cases bucketIn ref br with
    | none => simp
    | some k => simp [Finset.sum_ite_eq]

/-- The effective number of markets is between one and the number of those that were bet on. -/
theorem Totals.effectiveMarkets_bounds {m : Nat} (hm : m < ref.markets) (hpnl : s.pnlMarket m ≠ 0) :
    1 ≤ s.effectiveMarkets ref.markets ∧
      s.effectiveMarkets ref.markets ≤ (s.events ref.markets : ℝ) := by
  let absv : List ℝ := ((List.range ref.markets).filter s.marketBet).map fun m => |s.pnlMarket m|
  have hbet : s.marketBet m = true := by
    rw [h.marketBet]
    by_contra hnone
    refine hpnl ?_
    rw [h.pnlMarket]
    refine List.sum_eq_zero fun x hx => ?_
    obtain ⟨br, hbr, rfl⟩ := List.mem_map.mp hx
    have hnot := List.any_eq_false.mp (Bool.eq_false_of_not_eq_true hnone) br hbr
    unfold within marketOf
    by_cases hown : some br.marketId.toNat = some m
    · rw [if_pos hown]
      rw [Option.some.inj hown, beq_self_eq_true, Bool.true_and, Option.not_isSome_iff_eq_none]
        at hnot
      rw [hnot]
      rfl
    · rw [if_neg hown]
      rfl
  have hmem : |s.pnlMarket m| ∈ absv :=
    List.mem_map.mpr ⟨m, List.mem_filter.mpr ⟨List.mem_range.mpr hm, hbet⟩, rfl⟩
  have hnonneg : ∀ v ∈ absv, 0 ≤ v := by
    intro v hv
    obtain ⟨m', -, rfl⟩ := List.mem_map.mp hv
    exact abs_nonneg _
  have hpos : 0 < absv.sum :=
    (abs_pos.mpr hpnl).trans_le (List.single_le_sum hnonneg _ hmem)
  have heff : s.effectiveMarkets ref.markets = effective absv := by
    have hentries : (absv.map fun v => ((0 : UInt64), v)).map Prod.snd = absv := by
      rw [List.map_map]
      exact List.map_id _
    rw [← hentries, ← effectiveSignals_eq (by rwa [hentries])]
    unfold effectiveSignals
    rw [hentries, List.map_map]
    rfl
  rw [heff]
  refine ⟨one_le_effective hnonneg hpos, (effective_le hpos).trans ?_⟩
  have hcount := List.length_filter_le (fun v => decide (v ≠ 0)) absv
  rw [List.length_map] at hcount
  exact_mod_cast hcount

omit h in
/-- Where no market has a profit or a loss, the number is zero. -/
theorem effectiveMarkets_of_no_pnl {markets : Nat} (hpnl : ∀ m < markets, s.pnlMarket m = 0) :
    s.effectiveMarkets markets = 0 := by
  have hsum : sumLoop (((List.range markets).filter s.marketBet).map fun m =>
      Libm.abs (s.pnlMarket m)) = 0 := by
    rw [sumLoop_eq_sum]
    refine List.sum_eq_zero fun x hx => ?_
    obtain ⟨m, hm, rfl⟩ := List.mem_map.mp hx
    rw [hpnl m (List.mem_range.mp (List.mem_filter.mp hm).1)]
    exact abs_zero
  unfold Scores.effectiveMarkets
  dsimp only
  rw [hsum, if_neg (lt_irrefl _), if_neg (lt_irrefl _)]

end Balance

/-! ## 5. The tool -/

/-- **What the tool goes by**: the markets of the session, and the side files it was given. -/
theorem reference_of_run {G : Type} [DoubleArith G] [Neg G] [FromBits G] {args : Args}
    {files : Bytes → Option (List UInt8)} {s : Scores G} (h : run args files = .ok s) :
    ∃ ref reader log, SessionReader.start args.session (files args.session) = .ok reader ∧
      files args.bets = some log ∧ ref.markets = reader.header.markets.toNat ∧
      readSettlement files args.settle = .ok ref.winner ∧
      readJumps files args.jumps = .ok ref.jumps ∧
      (betsOf log).foldlM (scoreBet ref) Scores.init = .ok s := by
  obtain ⟨ref, reader, log, hpass, hmarkets, hwinner, hjumps, hloop⟩ := run_inv h
  exact ⟨ref, reader, log, hpass.session, hpass.bets.opens.found, hmarkets, hwinner, hjumps, hloop⟩

/-- Jumps are gone by exactly where a jump file was asked for. -/
theorem isSome_readJumps {files : Bytes → Option (List UInt8)} {path : Bytes}
    {jumps : Option (Nat → List UInt64)} (h : readJumps files path = .ok jumps) (hasked : path ≠ []) :
    jumps.isSome = true := by
  obtain ⟨bytes, -, rfl⟩ := readJumps_ok hasked h
  rfl

/-- **The report of any run balances**, over the reals. What was logged is split by market and, with
    jumps, by bucket: the markets' profits add up to the total, the buckets' profits, settled stakes,
    edges and counts to theirs, and the edge shares to a hundred percent -- unless there is no edge
    mass to share, when each is zero. No more bets beat their close than have one, and the mean
    closing-line value (the unweighted one) has the sign that says so where they all agree. The
    effective number of markets is between one and the number bet on if one of them has a profit or
    a loss, and zero if none has. -/
theorem balance_of_run {args : Args} {files : Bytes → Option (List UInt8)} {s : Scores ℝ}
    (h : run args files = .ok s)
    (hlen : ∀ log, files args.bets = some log → log.length < 2 ^ 64) :
    ∃ ref reader log, SessionReader.start args.session (files args.session) = .ok reader ∧
      ref.markets = reader.header.markets.toNat ∧ files args.bets = some log ∧
      Totals ref (betsOf log) s ∧
      (s.beat ≤ s.nClv ∧ s.nClv ≤ s.nBets) ∧
      (0 < s.nClv → 0 ≤ s.beatShare ∧ s.beatShare ≤ 100) ∧
      ((∀ br ∈ betsOf log, beats ref br = false) → s.meanClv ≤ 0) ∧
      ((∀ br ∈ betsOf log, (closeOf ref br).isSome = true → beats ref br = true) → 0 ≤ s.meanClv) ∧
      ∑ m ∈ Finset.range ref.markets, s.pnlMarket m = s.totalPnl ∧
      (∀ m < ref.markets, s.pnlMarket m ≠ 0 →
        1 ≤ s.effectiveMarkets ref.markets ∧
          s.effectiveMarkets ref.markets ≤ (s.events ref.markets : ℝ)) ∧
      ((∀ m < ref.markets, s.pnlMarket m = 0) → s.effectiveMarkets ref.markets = 0) ∧
      (args.jumps ≠ [] →
        ∑ b, s.bPnl b = s.totalPnl ∧ ∑ b, s.bPnlStake b = s.totalStakeSettled ∧
        ∑ b, s.bEdge b = s.totalEdgeMass ∧
        (s.totalEdgeMass ≠ 0 → ∑ b, s.edgeShare b = 100) ∧
        (s.totalEdgeMass = 0 → ∀ b, s.edgeShare b = 0) ∧
        ∑ b, (s.bCnt b).toNat = ((betsOf log : List (BetRecord ℝ)).countP fun br =>
          decide (br.marketId.toNat < ref.markets))) := by
  obtain ⟨ref, reader, log, hstart, hlog, hmarkets, -, hjumps, hloop⟩ := reference_of_run h
  have htotals := totals_foldlM hloop
  have hbets : (betsOf log : List (BetRecord ℝ)).length < 2 ^ 64 := by
    unfold betsOf
    rw [length_readFrames (by decide)]
    have hle := Nat.div_le_self (log.drop BetLogHeader.size).length BetRecord.size
    rw [List.length_drop] at hle ⊢
    have hlog' := hlen log hlog
    omega
  obtain ⟨hnone, hall⟩ := meanClv_sign htotals
  refine ⟨ref, reader, log, hstart, hmarkets, hlog, htotals, htotals.counts hbets,
    htotals.beatShare_bounds hbets, hnone, hall, htotals.sum_pnlMarket,
    fun m hm hpnl => htotals.effectiveMarkets_bounds hm hpnl, effectiveMarkets_of_no_pnl,
    fun hasked => ?_⟩
  have hsome := isSome_readJumps hjumps hasked
  refine ⟨htotals.sum_bPnl hsome, htotals.sum_bPnlStake hsome, htotals.sum_bEdge,
    htotals.sum_edgeShare, edgeShare_of_no_mass, ?_⟩
  rw [htotals.sum_bCnt hbets]
  refine List.countP_congr fun br _ => ?_
  obtain ⟨jumps, hsome⟩ := Option.isSome_iff_exists.mp hsome
  unfold bucketIn
  by_cases hm : br.marketId.toNat < ref.markets
  · simp [hm, hsome]
  · simp [hm]

/-- A log the engine has completed opens. -/
theorem logOpens_fileOf {F : Type} [Convert F] {files : Bytes → Option (List UInt8)} {path : Bytes} {seed : UInt64}
    {bets : List (BetRecord F)} (hfile : files path = some (BetLogSink.fileOf seed bets)) :
    LogOpens files path (BetLogSink.fileOf seed bets) := by
  refine ⟨⟨hfile, ?_, ?_⟩, ?_⟩
  · rw [BetLogSink.fileOf_eq, List.length_append, BetLogHeader.toBytes_length]
    exact Nat.le_add_right _ _
  · rw [BetLogSink.fileOf_eq]
    exact congrArg BetLogHeader.magic (BetLogHeader.ofBytes_toBytes _ _)
  · rw [BetLogSink.fileOf_eq, BetLogHeader.ofBytes_toBytes]
    rfl

/-- One market that jumps at its first tick, and one bet on it. -/
noncomputable def oneBetFiles (path : Bytes) : Option (List UInt8) :=
  if path = ascii "session" then
    some (FileSink.fileOf VerifySession.smallHeader [VerifySession.evenRecord])
  else if path = ascii "jumps" then
    some (jumpHeader 42 1 ++ [({ tick := 0, marketId := 0 } : JumpRecord)].flatMap JumpRecord.toBytes)
  else some (BetLogSink.fileOf 42 [loggedBet])

def oneBetArgs : Args :=
  { bets := ascii "bets", session := ascii "session", jumps := ascii "jumps" }

theorem run_oneBet : ∃ s : Scores ℝ, run oneBetArgs oneBetFiles = .ok s := by
  obtain ⟨reader, t, hstart, hdel, hheader, -⟩ := @SessionReader.delivers_fileOf (ascii "session")
    VerifySession.smallHeader ⟨rfl, rfl, rfl⟩ [VerifySession.evenRecord] (by simp) (by decide)
  have hsession : oneBetFiles (ascii "session") =
      some (FileSink.fileOf VerifySession.smallHeader [VerifySession.evenRecord]) := if_pos rfl
  have hjumps : oneBetFiles (ascii "jumps") =
      some (jumpHeader 42 1 ++
        [({ tick := 0, marketId := 0 } : JumpRecord)].flatMap JumpRecord.toBytes) :=
    (if_neg (by decide)).trans (if_pos rfl)
  have hlog : oneBetFiles (ascii "bets") = some (BetLogSink.fileOf 42 [loggedBet]) :=
    (if_neg (by decide)).trans (if_neg (by decide))
  have hpass : ChecksPass oneBetArgs oneBetFiles reader (BetLogSink.fileOf 42 [loggedBet]) := by
    refine ⟨?_, by rw [hheader]; decide, ⟨_, SessionReader.readAll_eq_ok_iff.mpr ⟨t, hdel⟩⟩,
      Or.inl rfl, Or.inr ⟨_, opens_sideHeader hjumps⟩, logOpens_fileOf hlog⟩
    show SessionReader.start (ascii "session") (oneBetFiles (ascii "session")) = .ok reader
    rw [hsession]
    exact hstart
  obtain ⟨ref, -, -, -, hrun⟩ := @run_of_checks ℝ _ _ _ _ _ _ _ hpass
  rw [hrun]
  rcases foldlM_scoreBet ref (betsOf (BetLogSink.fileOf 42 [loggedBet])) (Scores.init : Scores ℝ)
    with ⟨-, hok⟩ | ⟨⟨br, hbr, hstray⟩, -⟩
  · exact hok
  · rw [BetLogSink.fileOf_eq, betsOf_toBytes] at hbr
    obtain ⟨r, hr, rfl⟩ := List.mem_map.mp hbr
    rw [List.mem_singleton.mp hr] at hstray
    exact absurd hstray.2 (by decide)

theorem balance_of_run_one_bet :
    ∃ s : Scores ℝ, run oneBetArgs oneBetFiles = .ok s ∧ ∑ b, s.bEdge b = s.totalEdgeMass := by
  obtain ⟨s, hs⟩ := run_oneBet
  have hlog : oneBetFiles (ascii "bets") = some (BetLogSink.fileOf 42 [loggedBet]) :=
    (if_neg (by decide)).trans (if_neg (by decide))
  obtain ⟨_, _, _, -, -, -, -, -, -, -, -, -, -, -, hjumps⟩ := balance_of_run hs fun log hfound => by
    rw [← Option.some.inj (hlog.symm.trans hfound), BetLogSink.fileOf_eq, List.length_append,
      BetLogHeader.toBytes_length, length_flatMap_toBytes]
    decide
  exact ⟨s, hs, (hjumps (by decide)).2.2.1⟩

end OddsEngine.AnalyzeBets
