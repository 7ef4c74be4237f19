/-
  File:      OddsEngine/Analytics/JumpEpisodes.lean
  Subject:   The jump episodes of a bet log, and how many signals they are worth
             (analytics/analyze_bets.cpp).

  A bet belongs to the episode of its market's latest jump at or before its tick. The tool finds
  that jump by binary search in the sorted ticks and packs it with the market into one key; the
  masses of an episode's bets are added up, and the number of signals is the inverse of their
  Herfindahl index.

  * `keyOf_eq_iff` -- one key is one market and one latest jump, of any bets: ticks are below 2^38,
    as the timestamp has 64 bits and a tick takes a tenth of a second;
  * `scoreBet_episodeEdge`, `Tallied.snoc` -- what one bet adds;
  * `episodes_of_loop` -- so the masses are those of the episodes, and sum up to that of all bets;
    and the effective number is between one and the number of episodes with any mass;
  * `loop_of_run` -- the tool goes through such a loop, whatever files it is given.
-/
import Mathlib.Data.Nat.Bitwise
import OddsEngine.Lib.Herfindahl
import OddsEngine.Analytics.AnalyzeBets

namespace OddsEngine.AnalyzeBets

open Lib

/-! ## 1. The latest jump -/

/-- The last of a sorted list up to a bound. -/
theorem mem_takeWhile_le_iff {l : List UInt64} (h : l.Pairwise (· ≤ ·)) (t x : UInt64) :
    x ∈ (l.takeWhile fun j => decide (j ≤ t)) ↔ x ∈ l ∧ x ≤ t := by
  induction l with
  | nil => simp
  | cons y l ih =>
    obtain ⟨hy, hl⟩ := List.pairwise_cons.mp h
    by_cases hyt : y ≤ t
    · rw [List.takeWhile_cons_of_pos (by simpa using hyt), List.mem_cons, ih hl, List.mem_cons]
      constructor
      · rintro (rfl | ⟨hx, hxt⟩)
        · exact ⟨Or.inl rfl, hyt⟩
        · exact ⟨Or.inr hx, hxt⟩
      · rintro ⟨rfl | hx, hxt⟩
        · exact Or.inl rfl
        · exact Or.inr ⟨hx, hxt⟩
    · rw [List.takeWhile_cons_of_neg (by simpa using hyt)]
      refine ⟨fun hx => absurd hx List.not_mem_nil, ?_⟩
      rintro ⟨hx, hxt⟩
      rcases List.mem_cons.mp hx with rfl | hmem
      · exact absurd hxt hyt
      · exact absurd ((hy x hmem).trans hxt) hyt

theorem le_of_getLast? {l : List UInt64} (h : l.Pairwise (· ≤ ·)) {last x : UInt64}
    (hlast : l.getLast? = some last) (hx : x ∈ l) : x ≤ last := by
  obtain ⟨front, rfl⟩ := List.getLast?_eq_some_iff.mp hlast
  rcases List.mem_append.mp hx with hfront | hend
  · exact (List.pairwise_append.mp h).2.2 x hfront last (List.mem_singleton.mpr rfl)
  · rw [List.mem_singleton.mp hend]

/-- The latest of the market's jumps at or before `tick`; `none`: there is none. The order of the
    records says nothing. -/
def IsLatest (records : List JumpRecord) (m : UInt16) (tick : UInt64) : Option UInt64 → Prop
  | none => ∀ r ∈ records, r.marketId = m → ¬ r.tick ≤ tick
  | some j => (∃ r ∈ records, r.marketId = m ∧ r.tick = j) ∧ j ≤ tick ∧
      ∀ r ∈ records, r.marketId = m → r.tick ≤ tick → r.tick ≤ j

theorem IsLatest.unique {records : List JumpRecord} {m : UInt16} {tick : UInt64}
    {j j' : Option UInt64} (h : IsLatest records m tick j) (h' : IsLatest records m tick j') :
    j = j' := by
  cases j with
  | none =>
    cases j' with
    | none => rfl
    | some j' =>
      obtain ⟨⟨r, hr, hm, rfl⟩, hle, -⟩ := h'
      exact absurd hle (h r hr hm)
  | some j =>
    obtain ⟨⟨r, hr, hm, rfl⟩, hle, hmax⟩ := h
    cases j' with
    | none => exact absurd hle (h' r hr hm)
    | some j' =>
      obtain ⟨⟨r', hr', hm', rfl⟩, hle', hmax'⟩ := h'
      exact congrArg some (le_antisymm (hmax' r hr hm hle) (hmax r' hr' hm' hle'))

theorem mem_jumpTicks {records : List JumpRecord} {m : UInt16} {j : UInt64} :
    j ∈ jumpTicks records m.toNat ↔ ∃ r ∈ records, r.marketId = m ∧ r.tick = j := by
  simp [jumpTicks, List.mem_mergeSort, and_assoc, UInt16.toNat_inj]

theorem jumpTicks_sorted (records : List JumpRecord) (m : Nat) :
    (jumpTicks records m).Pairwise (· ≤ ·) := by
  have htrans : ∀ a b c : UInt64, decide (a ≤ b) = true → decide (b ≤ c) = true →
      decide (a ≤ c) = true := by
    intro a b c hab hbc
    simp only [decide_eq_true_eq] at hab hbc ⊢
    exact hab.trans hbc
  have htotal : ∀ a b : UInt64, (decide (a ≤ b) || decide (b ≤ a)) = true := by
    intro a b
    simp only [Bool.or_eq_true, decide_eq_true_eq]
    exact le_total a b
  have h := List.pairwise_mergeSort htrans htotal
    ((records.filter fun r => r.marketId.toNat == m).map JumpRecord.tick)
  exact h.imp fun hab => by simpa using hab

/-- **The search finds the latest jump.** -/
theorem ticksSinceJump_spec (records : List JumpRecord) (m : UInt16) (tick : UInt64) :
    ∃ j, IsLatest records m tick j ∧
      ticksSinceJump (jumpTicks records m.toNat) tick =
        j.elim (-1) fun last => (tick.toNat : Int) - last.toNat := by
  have hsorted := jumpTicks_sorted records m.toNat
  have hmem := mem_takeWhile_le_iff hsorted tick
  have htake := hsorted.sublist (List.takeWhile_sublist fun j => decide (j ≤ tick))
  unfold ticksSinceJump
  cases hlast : ((jumpTicks records m.toNat).takeWhile fun j => decide (j ≤ tick)).getLast? with
  | none =>
    refine ⟨none, fun r hr hm hle => ?_, rfl⟩
    have hin := (hmem r.tick).mpr ⟨mem_jumpTicks.mpr ⟨r, hr, hm, rfl⟩, hle⟩
    rw [List.getLast?_eq_none_iff.mp hlast] at hin
    exact absurd hin List.not_mem_nil
  | some last =>
    obtain ⟨hin, hle⟩ := (hmem last).mp (List.mem_of_getLast? hlast)
    refine ⟨some last, ⟨mem_jumpTicks.mp hin, hle, fun r hr hm hrle => ?_⟩, rfl⟩
    exact le_of_getLast? htake hlast
      ((hmem r.tick).mpr ⟨mem_jumpTicks.mpr ⟨r, hr, hm, rfl⟩, hrle⟩)

/-! ## 2. The key -/

variable {F : Type}

def tickOf (br : BetRecord F) : UInt64 := br.simTimestampNs / kTickIntervalNs

/-- The key under which the mass of a bet is added. -/
def keyOf (records : List JumpRecord) (br : BetRecord F) : UInt64 :=
  episodeKey br.marketId (tickOf br)
    (ticksSinceJump (jumpTicks records br.marketId.toNat) (tickOf br))

/-- One market, and one latest jump or none. -/
def SameEpisode (records : List JumpRecord) (br br' : BetRecord F) : Prop :=
  br.marketId = br'.marketId ∧
    ∃ j, IsLatest records br.marketId (tickOf br) j ∧ IsLatest records br'.marketId (tickOf br') j

theorem toNat_tickOf_lt (br : BetRecord F) : (tickOf br).toNat < 2 ^ 38 := by
  have hts := br.simTimestampNs.toNat_lt
  have hinterval : kTickIntervalNs.toNat = 100000000 := rfl
  rw [tickOf, UInt64.toNat_div, hinterval]
  omega

/-- The packed number, in its two parts. -/
theorem toNat_pack (m : UInt16) {x : UInt64} (hx : x.toNat < 2 ^ 40) :
    ((m.toUInt64 <<< 40) ^^^ x).toNat = m.toNat * 2 ^ 40 + x.toNat := by
  have hm := m.toNat_lt
  have hshift : (m.toUInt64 <<< 40).toNat = 2 ^ 40 * m.toNat := by
    have h40 : (40 : UInt64).toNat % 64 = 40 := rfl
    rw [UInt64.toNat_shiftLeft, UInt16.toNat_toUInt64, h40, Nat.shiftLeft_eq]
    omega
  rw [UInt64.toNat_xor, hshift, Nat.mul_comm m.toNat]
  refine Nat.eq_of_testBit_eq fun i => ?_
  rw [Nat.testBit_xor, Nat.testBit_two_pow_mul, Nat.testBit_two_pow_mul_add _ hx]
  by_cases hi : i < 40
  · have hlow : ¬ 40 ≤ i := Nat.not_le.mpr hi
    simp [hi, hlow]
  · have hle : 40 ≤ i := Nat.not_lt.mp hi
    have hbig : x.toNat < 2 ^ i := hx.trans_le (Nat.pow_le_pow_right (by decide) hle)
    simp [hi, hle, Nat.testBit_lt_two_pow hbig]

/-- The key holds the market and the tick after the latest jump, or zero. -/
theorem toNat_episodeKey {records : List JumpRecord} {m : UInt16} {tick : UInt64}
    (ht : tick.toNat < 2 ^ 38) {j : Option UInt64} (hj : IsLatest records m tick j) :
    (episodeKey m tick (ticksSinceJump (jumpTicks records m.toNat) tick)).toNat =
      m.toNat * 2 ^ 40 + j.elim 0 fun last => last.toNat + 1 := by
  obtain ⟨j', hj', htsj⟩ := ticksSinceJump_spec records m tick
  obtain rfl := hj.unique hj'
  unfold episodeKey
  rw [htsj]
  cases j with
  | none =>
    show ((m.toUInt64 <<< 40) ^^^ (0 : UInt64)).toNat = _
    rw [toNat_pack m (by decide)]
    rfl
  | some last =>
    have hle := UInt64.le_iff_toNat_le.mp hj.2.1
    have hpos : (0 : Int) ≤ (tick.toNat : Int) - last.toNat := by omega
    have hback : (if 0 ≤ (tick.toNat : Int) - last.toNat
        then (tick.toNat : Int) - ((tick.toNat : Int) - last.toNat) else -1) + 1 =
          ((last.toNat + 1 : Nat) : Int) := by
      rw [if_pos hpos]
      omega
    have hnat : (UInt64.ofInt ((last.toNat + 1 : Nat) : Int)).toNat = last.toNat + 1 := by
      have hmod : (((last.toNat + 1 : Nat) : Int) % 2 ^ 64).toNat = last.toNat + 1 := by omega
      have hsize : last.toNat + 1 < UInt64.size := by
        show last.toNat + 1 < 2 ^ 64
        omega
      rw [UInt64.ofInt, hmod]
      exact UInt64.toNat_ofNat_of_lt' hsize
    refine Eq.trans (congrArg (fun x => ((m.toUInt64 <<< 40) ^^^ UInt64.ofInt x).toNat) hback) ?_
    rw [toNat_pack m (by rw [hnat]; omega), hnat]
    rfl

/-- **The key never collides**: one key is one market and one latest jump. -/
theorem keyOf_eq_iff (records : List JumpRecord) (br br' : BetRecord F) :
    keyOf records br = keyOf records br' ↔ SameEpisode records br br' := by
  obtain ⟨j, hj, -⟩ := ticksSinceJump_spec records br.marketId (tickOf br)
  obtain ⟨j', hj', -⟩ := ticksSinceJump_spec records br'.marketId (tickOf br')
  have hbound : ∀ {m : UInt16} {tick : UInt64} {j : Option UInt64}, tick.toNat < 2 ^ 38 →
      IsLatest records m tick j → (j.elim 0 fun last => last.toNat + 1) < 2 ^ 40 := by
    intro m tick j ht hj
    cases j with
    | none => exact Nat.two_pow_pos 40
    | some last =>
      have hle := UInt64.le_iff_toNat_le.mp hj.2.1
      show last.toNat + 1 < _
      omega
  have hlt := hbound (toNat_tickOf_lt br) hj
  have hlt' := hbound (toNat_tickOf_lt br') hj'
  have hsame : (j.elim 0 fun last => last.toNat + 1) = (j'.elim 0 fun last => last.toNat + 1) ↔
      j = j' := by
    cases j with
    | none =>
      cases j' with
      | none => simp
      | some last' => simp
    | some last =>
      cases j' with
      | none => simp
      | some last' => simp [UInt64.toNat_inj]
  unfold keyOf
  rw [← UInt64.toNat_inj, toNat_episodeKey (toNat_tickOf_lt br) hj,
    toNat_episodeKey (toNat_tickOf_lt br') hj']
  constructor
  · intro heq
    have hm : br.marketId.toNat = br'.marketId.toNat := by omega
    have hjj : j = j' := hsame.mp (by omega)
    exact ⟨UInt16.toNat_inj.mp hm, j, hj, hjj ▸ hj'⟩
  · rintro ⟨hm, i, hi, hi'⟩
    rw [hm, hj.unique hi, hj'.unique hi']

/-! ## 3. The masses -/

section Masses

variable [DoubleArith F]

/-- `stake * edge`. -/
def edgeMass (br : BetRecord F) : F := br.stake * (br.fairProb * decimalOdds br.oddsMilliTaken - 1)

/-- `se`, `se2`, `herf_e`, `eff_ep`. -/
def effectiveSignals (entries : List (UInt64 × F)) : F :=
  let se := sumLoop (entries.map Prod.snd)
  let se2 := sumLoop (entries.map fun kv => kv.2 * kv.2)
  let herfE := if 0 < se then se2 / (se * se) else 0
  if 0 < herfE then 1 / herfE else 0

theorem addClosing_episodeEdge (s : Scores F) (br : BetRecord F) (oTake : F) (cb : UInt32) :
    (s.addClosing br oTake cb).episodeEdge = s.episodeEdge := by
  unfold Scores.addClosing
  by_cases hcb : cb < 1001
  · rw [if_pos hcb]
  · rw [if_neg hcb]
    dsimp only
    by_cases hbeat : decimalOdds cb < oTake
    · rw [if_pos hbeat]
    · rw [if_neg hbeat]

variable [Neg F]

/-- A bet on a market of the session adds its mass under its key, whatever else it adds. -/
theorem scoreBet_episodeEdge {ref : Reference} {records : List JumpRecord}
    (hjumps : ref.jumps = some (jumpTicks records)) {s s' : Scores F} {br : BetRecord F}
    (hm : br.marketId.toNat < ref.markets) (h : scoreBet ref s br = .ok s') :
    s'.episodeEdge = addTo (keyOf records br) (Libm.abs (edgeMass br)) s.episodeEdge := by
  unfold scoreBet at h
  dsimp only at h
  rw [if_pos hm, hjumps] at h
  cases hread : rd (ref.closing br.marketId.toNat) br.outcome.toNat with
  | error e =>
    rw [hread] at h
    cases h
  | ok cb =>
    rw [hread] at h
    obtain rfl := Except.ok.inj h
    dsimp only
    generalize (ref.winner.bind fun winner => winner br.marketId.toNat).map _ = pnl
    cases pnl with
    | none => exact congrArg (addTo _ _) (addClosing_episodeEdge _ _ _ _)
    | some pnl => exact congrArg (addTo _ _) (addClosing_episodeEdge _ _ _ _)

end Masses

/-! ## 4. The tally -/

theorem keys_addTo (k : UInt64) (x : ℝ) (entries : List (UInt64 × ℝ)) :
    (addTo k x entries).map Prod.fst =
      if k ∈ entries.map Prod.fst then entries.map Prod.fst else entries.map Prod.fst ++ [k] := by
  induction entries with
  | nil => simp [addTo]
  | cons e entries ih =>
    obtain ⟨k', v⟩ := e
    by_cases hk : k' = k
    · simp [addTo, hk]
    · have hk' : ¬ k = k' := fun heq => hk heq.symm
      rw [addTo, if_neg hk, List.map_cons, ih, List.map_cons]
      by_cases hmem : k ∈ entries.map Prod.fst
      · rw [if_pos hmem, if_pos (List.mem_cons_of_mem _ hmem)]
      · rw [if_neg hmem, if_neg (fun h => (List.mem_cons.mp h).elim hk' hmem), List.cons_append]

theorem sum_addTo (k : UInt64) (x : ℝ) (entries : List (UInt64 × ℝ)) :
    ((addTo k x entries).map Prod.snd).sum = (entries.map Prod.snd).sum + x := by
  induction entries with
  | nil => simp [addTo]
  | cons e entries ih =>
    obtain ⟨k', v⟩ := e
    by_cases hk : k' = k
    · rw [addTo, if_pos hk]
      simp only [List.map_cons, List.sum_cons]
      ring
    · rw [addTo, if_neg hk]
      simp only [List.map_cons, List.sum_cons, ih]
      ring

/-- What stands under `k`. -/
def under (k : UInt64) (entries : List (UInt64 × ℝ)) : ℝ :=
  ((entries.filter fun e => decide (e.1 = k)).map Prod.snd).sum

theorem under_addTo (k k' : UInt64) (x : ℝ) (entries : List (UInt64 × ℝ)) :
    under k (addTo k' x entries) = under k entries + if k' = k then x else 0 := by
  induction entries with
  | nil =>
    by_cases hk : k' = k
    · simp [under, addTo, hk]
    · simp [under, addTo, hk]
  | cons e entries ih =>
    obtain ⟨i, v⟩ := e
    unfold under at ih ⊢
    by_cases hi : i = k'
    · rw [addTo, if_pos hi]
      by_cases hk : i = k
      · simp only [hk, hi ▸ hk, decide_true, List.filter_cons_of_pos, List.map_cons, List.sum_cons,
          if_true]
        ring
      · have hk' : ¬ k' = k := fun h => hk (hi.trans h)
        simp [hk, hk']
    · rw [addTo, if_neg hi]
      by_cases hk : i = k
      · rw [List.filter_cons_of_pos (by simp [hk]), List.filter_cons_of_pos (by simp [hk]),
          List.map_cons, List.sum_cons, ih, List.map_cons, List.sum_cons, add_assoc]
      · rw [List.filter_cons_of_neg (by simp [hk]), List.filter_cons_of_neg (by simp [hk]), ih]

/-- A key stands there once, so what stands under it is its entry. -/
theorem under_of_mem {entries : List (UInt64 × ℝ)} (hnodup : (entries.map Prod.fst).Nodup)
    {e : UInt64 × ℝ} (he : e ∈ entries) : under e.1 entries = e.2 := by
  induction entries with
  | nil => exact absurd he List.not_mem_nil
  | cons i entries ih =>
    rw [List.map_cons, List.nodup_cons] at hnodup
    unfold under at ih ⊢
    rcases List.mem_cons.mp he with rfl | hmem
    · have hrest : (entries.filter fun i => decide (i.1 = e.1)) = [] := by
        refine List.filter_eq_nil_iff.mpr fun i hi => ?_
        rw [decide_eq_true_eq]
        exact fun heq => hnodup.1 (heq ▸ List.mem_map_of_mem hi)
      rw [List.filter_cons_of_pos (by simp), hrest]
      simp
    · have hne : ¬ i.1 = e.1 := fun heq => hnodup.1 (heq ▸ List.mem_map_of_mem hmem)
      rw [List.filter_cons_of_neg (by simp [hne])]
      exact ih hnodup.2 hmem

/-- The entries are the episodes bet on, each once, with the masses of their bets. -/
structure Tallied (records : List JumpRecord) (brs : List (BetRecord ℝ))
    (entries : List (UInt64 × ℝ)) : Prop where
  nodup : (entries.map Prod.fst).Nodup
  keys : ∀ k, k ∈ entries.map Prod.fst ↔ ∃ br ∈ brs, keyOf records br = k
  mass : ∀ k, under k entries =
    ((brs.filter fun br => decide (keyOf records br = k)).map fun br => |edgeMass br|).sum
  total : (entries.map Prod.snd).sum = (brs.map fun br => |edgeMass br|).sum

theorem Tallied.nil (records : List JumpRecord) : Tallied records [] [] where
  nodup := List.nodup_nil
  keys := by simp
  mass := fun _ => rfl
  total := rfl

/-- **One bet** goes to its own episode. -/
theorem Tallied.snoc {records : List JumpRecord} {brs : List (BetRecord ℝ)}
    {entries : List (UInt64 × ℝ)} (h : Tallied records brs entries) (br : BetRecord ℝ) :
    Tallied records (brs ++ [br]) (addTo (keyOf records br) |edgeMass br| entries) where
  nodup := by
    rw [keys_addTo]
    by_cases hk : keyOf records br ∈ entries.map Prod.fst
    · rw [if_pos hk]
      exact h.nodup
    · rw [if_neg hk]
      exact List.nodup_append.mpr ⟨h.nodup, List.nodup_singleton _, fun a ha b hb heq =>
        hk (List.mem_singleton.mp hb ▸ heq ▸ ha)⟩
  keys := by
    intro k
    have hsnoc : (∃ b ∈ brs ++ [br], keyOf records b = k) ↔
        k ∈ entries.map Prod.fst ∨ keyOf records br = k := by
      rw [h.keys k]
      simp [List.mem_append, or_and_right, exists_or]
    rw [hsnoc, keys_addTo]
    by_cases hk : keyOf records br ∈ entries.map Prod.fst
    · rw [if_pos hk]
      exact ⟨Or.inl, fun hor => hor.elim id fun heq => heq ▸ hk⟩
    · rw [if_neg hk, List.mem_append, List.mem_singleton, eq_comm (a := k)]
  mass := by
    intro k
    rw [under_addTo, h.mass k, List.filter_append, List.map_append, List.sum_append]
    by_cases hk : keyOf records br = k
    · simp [hk]
    · simp [hk]
  total := by
    rw [sum_addTo, h.total, List.map_append, List.sum_append, List.map_singleton,
      List.sum_singleton]

/-- **The whole log**, from any tally. -/
theorem Tallied.foldlM {ref : Reference} {records : List JumpRecord}
    (hjumps : ref.jumps = some (jumpTicks records)) {seen brs : List (BetRecord ℝ)}
    {s s' : Scores ℝ} (h : Tallied records seen s.episodeEdge)
    (hin : ∀ br ∈ brs, br.marketId.toNat < ref.markets)
    (hrun : brs.foldlM (scoreBet ref) s = .ok s') :
    Tallied records (seen ++ brs) s'.episodeEdge := by
  induction brs generalizing seen s with
  | nil =>
    obtain rfl := Except.ok.inj hrun
    rwa [List.append_nil]
  | cons br brs ih =>
    obtain ⟨hbr, hbrs⟩ := List.forall_mem_cons.mp hin
    rw [List.foldlM_cons] at hrun
    cases hstep : scoreBet ref s br with
    | error e =>
      rw [hstep] at hrun
      cases hrun
    | ok s₁ =>
      rw [hstep] at hrun
      have hnext : Tallied records (seen ++ [br]) s₁.episodeEdge := by
        rw [scoreBet_episodeEdge hjumps hbr hstep]
        exact h.snoc br
      rw [List.append_cons]
      exact ih hnext hbrs hrun

theorem Tallied.mass_nonneg {records : List JumpRecord} {brs : List (BetRecord ℝ)}
    {entries : List (UInt64 × ℝ)} (h : Tallied records brs entries) {e : UInt64 × ℝ}
    (he : e ∈ entries) : 0 ≤ e.2 := by
  rw [← under_of_mem h.nodup he, h.mass]
  refine List.sum_nonneg fun x hx => ?_
  obtain ⟨br, -, rfl⟩ := List.mem_map.mp hx
  exact abs_nonneg _

theorem Tallied.total_pos {records : List JumpRecord} {brs : List (BetRecord ℝ)}
    {entries : List (UInt64 × ℝ)} (h : Tallied records brs entries) {br : BetRecord ℝ}
    (hbr : br ∈ brs) (hmass : edgeMass br ≠ 0) : 0 < (entries.map Prod.snd).sum := by
  have hnonneg : ∀ x ∈ brs.map fun br => |edgeMass br|, 0 ≤ x := by
    intro x hx
    obtain ⟨br, -, rfl⟩ := List.mem_map.mp hx
    exact abs_nonneg _
  rw [h.total]
  exact (abs_pos.mpr hmass).trans_le
    (List.single_le_sum hnonneg _ (List.mem_map_of_mem hbr))

/-! ## 5. The effective number of signals -/

theorem effectiveSignals_eq {entries : List (UInt64 × ℝ)} (hpos : 0 < (entries.map Prod.snd).sum) :
    effectiveSignals entries = effective (entries.map Prod.snd) := by
  have hsq : (entries.map fun kv => kv.2 * kv.2) = (entries.map Prod.snd).map (· ^ 2) := by
    rw [List.map_map]
    exact List.map_congr_left fun kv _ => (sq kv.2).symm
  have hherf : 0 < ((entries.map Prod.snd).map (· ^ 2)).sum /
      ((entries.map Prod.snd).sum * (entries.map Prod.snd).sum) :=
    div_pos (sum_sq_pos hpos) (mul_pos hpos hpos)
  unfold effectiveSignals
  simp only [sumLoop_eq_sum]
  rw [hsq, if_pos hpos, if_pos hherf, one_div_div, effective, sq]

/-- **The episodes of a log.** One key is one market and one latest jump; the masses under the keys
    are those of the episodes, with the total of all bets; and with any mass at all, in whatever
    order the map is gone through, the effective number of signals is between one and the number of
    episodes with mass. -/
theorem episodes_of_loop {ref : Reference} {records : List JumpRecord}
    (hjumps : ref.jumps = some (jumpTicks records)) {brs : List (BetRecord ℝ)} {s : Scores ℝ}
    (hin : ∀ br ∈ brs, br.marketId.toNat < ref.markets)
    (hrun : brs.foldlM (scoreBet ref) Scores.init = .ok s) :
    (∀ br br' : BetRecord ℝ,
      keyOf records br = keyOf records br' ↔ SameEpisode records br br') ∧
    Tallied records brs s.episodeEdge ∧
    ∀ entries : List (UInt64 × ℝ), entries.Perm s.episodeEdge → (∃ br ∈ brs, edgeMass br ≠ 0) →
      1 ≤ effectiveSignals entries ∧
      effectiveSignals entries ≤ (entries.filter fun e => decide (e.2 ≠ 0)).length := by
  have htally := (Tallied.nil records).foldlM hjumps hin hrun
  refine ⟨keyOf_eq_iff records, htally, ?_⟩
  rintro entries hperm ⟨br, hbr, hmass⟩
  have hnonneg : ∀ v ∈ entries.map Prod.snd, 0 ≤ v := by
    intro v hv
    obtain ⟨e, he, rfl⟩ := List.mem_map.mp hv
    exact htally.mass_nonneg (hperm.mem_iff.mp he)
  have hpos : 0 < (entries.map Prod.snd).sum := by
    rw [(hperm.map Prod.snd).sum_eq]
    exact htally.total_pos hbr hmass
  have hcount : ((entries.map Prod.snd).filter fun v => decide (v ≠ 0)).length =
      (entries.filter fun e => decide (e.2 ≠ 0)).length := by
    rw [List.filter_map, List.length_map]
    rfl
  rw [effectiveSignals_eq hpos, ← hcount]
  exact ⟨one_le_effective hnonneg hpos, effective_le hpos⟩

/-- A market that jumps at tick 5, and a bet on it before and one after. -/
theorem episodes_of_loop_two_bets :
    ∃ (records : List JumpRecord) (ref : Reference) (brs : List (BetRecord ℝ)) (s : Scores ℝ),
      brs.foldlM (scoreBet ref) Scores.init = .ok s ∧ Tallied records brs s.episodeEdge ∧
      1 ≤ effectiveSignals s.episodeEdge := by
  let records : List JumpRecord := [⟨5, 0⟩]
  let ref : Reference :=
    { markets := 1, closing := fun _ _ => 0, winner := none, jumps := some (jumpTicks records) }
  let bet (ts : UInt64) : BetRecord ℝ := ⟨ts, 0, 0, 1, 2000, 1⟩
  have hin : ∀ br ∈ [bet 300000000, bet 600000000], br.marketId.toNat < ref.markets := by
    simp [bet, ref]
  have hmass : edgeMass (bet 300000000) ≠ 0 := by
    have h2000 : (2000 : UInt32).toNat = 2000 := rfl
    simp only [edgeMass, bet, decimalOdds, h2000]
    norm_num
  rcases foldlM_scoreBet ref [bet 300000000, bet 600000000] Scores.init with
    ⟨-, s, hs⟩ | ⟨⟨br, hbr, -, hout⟩, -⟩
  · obtain ⟨-, htally, heff⟩ := @episodes_of_loop ref records rfl _ s hin hs
    exact ⟨records, ref, _, s, hs, htally,
      (heff _ (List.Perm.refl _) ⟨_, List.mem_cons_self, hmass⟩).1⟩
  · have hzero : br.outcome = 0 := by
      rcases List.mem_cons.mp hbr with rfl | hbr
      · rfl
      · rw [List.mem_singleton.mp hbr]
    rw [hzero] at hout
    exact absurd hout (by decide)

/-! ## 6. The tool -/

theorem openFile_ok {files : Bytes → Option (List UInt8)} {path cannotOpen short badMagic : Bytes}
    {magic : UInt32} {bytes : List UInt8}
    (h : openFile files path cannotOpen short badMagic magic = .ok bytes) :
    files path = some bytes := by
  unfold openFile at h
  cases hfound : files path with
  | none =>
    rw [hfound] at h
    cases h
  | some found =>
    rw [hfound] at h
    dsimp only at h
    split at h
    · cases h
    · split at h
      · cases h
      · rw [Except.ok.inj h]

theorem readJumps_ok {files : Bytes → Option (List UInt8)} {path : Bytes} (hasked : path ≠ [])
    {jumps : Option (Nat → List UInt64)} (h : readJumps files path = .ok jumps) :
    ∃ bytes, files path = some bytes ∧
      jumps = some (jumpTicks (readFrames 16 JumpRecord.ofBytes (bytes.drop 24))) := by
  unfold readJumps at h
  rw [if_neg hasked] at h
  cases hopen : openFile files path (ascii "cannot open jump file") (ascii "jump header short")
      (ascii "bad jump magic") kJumpMagic with
  | error e =>
    rw [hopen] at h
    cases h
  | ok bytes =>
    rw [hopen] at h
    exact ⟨bytes, openFile_ok hopen, (Except.ok.inj h).symm⟩

/-- **A tool that was given jumps has gone through such a loop**, with the records of the jump file
    and the bets of the log. -/
theorem loop_of_run {G : Type} [DoubleArith G] [Neg G] [FromBits G] {args : Args}
    {files : Bytes → Option (List UInt8)} {s : Scores G} (hasked : args.jumps ≠ [])
    (h : run args files = .ok s) :
    ∃ ref reader log bytes, SessionReader.start args.session (files args.session) = .ok reader ∧
      files args.bets = some log ∧ files args.jumps = some bytes ∧
      ref.markets = reader.header.markets.toNat ∧
      ref.jumps = some (jumpTicks (readFrames 16 JumpRecord.ofBytes (bytes.drop 24))) ∧
      (betsOf log).foldlM (scoreBet ref) Scores.init = .ok s := by
  obtain ⟨ref, reader, log, hpass, hmarkets, -, hjumps, hloop⟩ := run_inv h
  obtain ⟨bytes, hbytes, hread⟩ := readJumps_ok hasked hjumps
  exact ⟨ref, reader, log, bytes, hpass.session, hpass.bets.opens.found, hbytes, hmarkets, hread,
    hloop⟩

end OddsEngine.AnalyzeBets
