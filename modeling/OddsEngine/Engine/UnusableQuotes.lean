/-
  File:      OddsEngine/Engine/UnusableQuotes.lean
  Subject:   What a fresh quote that the consensus cannot use does to its market
             (the market loop of engine/main.cpp).

  A book that is not stale but whose quote the devig turns down, or whose number of outcomes is not
  the price's, does not count for the fair price. It does count for the best odds: these are taken
  over all books that are not stale, before the quote is devigged. So the price is the one without
  the book, and the bets are the ones sized on the best odds WITH it
  (`priceMarket_of_passedOver`); a corrupt quote can make a bet (`not_as_if_stale`).
-/
import OddsEngine.Engine.FairPrice

namespace OddsEngine

open Lib

variable {F : Type} [DoubleArith F]

/-- The table with slot `s` as it was before its first record: a stale book. -/
def asStale (table : Table) (s : Fin 1024 × Fin 16) : Table :=
  { table with table := Function.update table.table s {} }

theorem get_asStale_self (table : Table) (s : Fin 1024 × Fin 16) : (asStale table s).get s = {} :=
  Function.update_self s _ _

theorem get_asStale_of_ne (table : Table) {s s' : Fin 1024 × Fin 16} (h : s' ≠ s) :
    (asStale table s).get s' = table.get s' :=
  Function.update_of_ne h _ _

theorem countsOk_asStale {table : Table} (h : CountsOk table) (s : Fin 1024 × Fin 16) :
    CountsOk (asStale table s) := by
  intro s'
  by_cases hs : s' = s
  · rw [hs, get_asStale_self]
    exact Nat.zero_le _
  · rw [get_asStale_of_ne table hs]
    exact h s'

theorem slot_injective {shape : Shape} {m : Fin shape.markets} {b b' : Fin shape.books}
    (h : b' ≠ b) : shape.slot m b' ≠ shape.slot m b := by
  intro e
  exact h (Fin.castLE_injective shape.books_le (congrArg Prod.snd e))

section Passed

variable (cfg : LiveConfig F) (betlog : Bool) (table : Table) (shape : Shape)
  (m : Fin shape.markets) (b : Fin shape.books) (ts : UInt64)

/-- The consensus passes the book over: the devig cannot use its quote (it is invalid, or without
    margin, or no answer was found), or its number of outcomes is not the price's. -/
def PassedOver : Prop :=
  ¬ Usable F cfg.devigMethod (table.get (shape.slot m b)) ∨
    ((marketFair cfg table shape m ts).hasFairPrice = true ∧
      (table.get (shape.slot m b)).outcomeCount ≠ (marketFair cfg table shape m ts).count)

omit [DoubleArith F] in
theorem fresh_asStale (b' : Fin shape.books) :
    Fresh cfg (asStale table (shape.slot m b)) (shape.slot m b') ts ↔
      b' ≠ b ∧ Fresh cfg table (shape.slot m b') ts := by
  unfold Fresh BookTable.isStale
  by_cases hb : b' = b
  · subst hb
    have hget : (asStale table (shape.slot m b')).table (shape.slot m b') = {} :=
      get_asStale_self table _
    rw [hget]
    simp
  · have hget : (asStale table (shape.slot m b)).table (shape.slot m b') =
        table.table (shape.slot m b') := get_asStale_of_ne table (slot_injective hb)
    rw [hget]
    simp [hb]

theorem bookInput_asStale (b' : Fin shape.books) :
    bookInput cfg (asStale table (shape.slot m b)) (shape.slot m b') ts =
      if b' = b then BookInput.init else bookInput cfg table (shape.slot m b') ts := by
  unfold bookInput
  simp only [fresh_asStale]
  by_cases hb : b' = b
  · simp [hb]
  · rw [get_asStale_of_ne table (slot_injective hb)]
    simp [hb]

/-- The inputs with the book and without it differ in its entry only. -/
theorem marketInputs_asStale : ∃ pre post,
    marketInputs cfg table shape m ts = pre ++ bookInput cfg table (shape.slot m b) ts :: post ∧
      marketInputs cfg (asStale table (shape.slot m b)) shape m ts =
        pre ++ BookInput.init :: post := by
  obtain ⟨bs, bs', hbs⟩ := List.append_of_mem (List.mem_finRange b)
  have hnodup : (bs ++ b :: bs').Nodup := hbs ▸ List.nodup_finRange shape.books
  have hne : ∀ b' ∈ bs ++ bs', b' ≠ b := by
    intro b' hb' he
    have hmid := (List.nodup_middle.mp hnodup)
    exact (List.nodup_cons.mp hmid).1 (he ▸ hb')
  refine ⟨bs.map fun b' => bookInput cfg table (shape.slot m b') ts,
    bs'.map fun b' => bookInput cfg table (shape.slot m b') ts, ?_, ?_⟩
  · unfold marketInputs
    rw [hbs, List.map_append, List.map_cons]
  · unfold marketInputs
    rw [hbs, List.map_append, List.map_cons, bookInput_asStale, if_pos rfl]
    have hmap : ∀ l : List (Fin shape.books), (∀ b' ∈ l, b' ≠ b) →
        l.map (fun b' => bookInput cfg (asStale table (shape.slot m b)) (shape.slot m b') ts) =
          l.map fun b' => bookInput cfg table (shape.slot m b') ts := by
      intro l hl
      refine List.map_congr_left fun b' hb' => ?_
      rw [bookInput_asStale, if_neg (hl b' hb')]
    rw [hmap bs fun b' hb' => hne b' (List.mem_append_left _ hb'),
      hmap bs' fun b' hb' => hne b' (List.mem_append_right _ hb')]

/-- The price does not see a book that is passed over. -/
theorem marketFair_asStale (hcount : CountsOk table)
    (hpass : PassedOver cfg table shape m b ts) :
    marketFair cfg table shape m ts =
      marketFair cfg (asStale table (shape.slot m b)) shape m ts := by
  obtain ⟨pre, post, hwith, hwithout⟩ := marketInputs_asStale cfg table shape m b ts
  unfold marketFair
  rw [hwith, hwithout]
  refine Consensus.fairPrice_passed_over ?_
  have hnot : ∀ hno : ¬ (Fresh cfg table (shape.slot m b) ts ∧
      Usable F cfg.devigMethod (table.get (shape.slot m b))),
      Consensus.Counts (bookInput cfg table (shape.slot m b) ts) = false := by
    intro hno
    unfold bookInput quoteInput
    split
    · next hf =>
      rw [if_neg fun hu => hno ⟨hf, hu⟩]
      rfl
    · rfl
  by_cases hfu : Fresh cfg table (shape.slot m b) ts ∧
      Usable F cfg.devigMethod (table.get (shape.slot m b))
  · rcases hpass with hun | ⟨hfair, hne⟩
    · exact absurd hfu.2 hun
    · right
      have hinput : (bookInput cfg table (shape.slot m b) ts).count =
          (table.get (shape.slot m b)).outcomeCount := by
        unfold bookInput
        rw [if_pos hfu.1]
        exact quoteInput_count hfu.2 (hcount _)
      unfold marketFair at hfair hne
      rw [hwith] at hfair hne
      exact ⟨hfair, hinput ▸ hne⟩
  · exact Or.inl (hnot hfu)

omit [DoubleArith F] in
/-- Without the book, the best odds are the best of the others. -/
theorem isBest_asStale :
    IsBest table shape m (fun b' => b' ≠ b ∧ Fresh cfg table (shape.slot m b') ts)
      (marketBest cfg (asStale table (shape.slot m b)) shape m ts) := by
  have h := isBest_marketBest cfg (asStale table (shape.slot m b)) shape m ts
  have hget : ∀ b', b' ≠ b → (asStale table (shape.slot m b)).get (shape.slot m b') =
      table.get (shape.slot m b') := fun b' hb' => get_asStale_of_ne table (slot_injective hb')
  constructor
  · intro i b' hb' hq
    have hup := h.upper i b' ((fresh_asStale cfg table shape m b ts b').mpr hb')
    unfold Quotes at hup hq
    rw [hget b' hb'.1] at hup
    exact hup hq
  · intro i
    rcases h.attained i with h0 | ⟨b', hf, hq, ho⟩
    · exact Or.inl h0
    · have hb' := (fresh_asStale cfg table shape m b ts b').mp hf
      unfold Quotes at hq
      rw [hget b' hb'.1] at hq ho
      exact Or.inr ⟨b', hb', hq, ho⟩

/-- **A book that the consensus passes over does not move the price, and takes part in the best
    odds**: with it and without it the market has the same fair price, and the bets are sized on
    that price at the best odds over the fresh books, with it and without it. The results are the
    same where it beats none of the other books' odds. -/
theorem priceMarket_of_passedOver (hcount : CountsOk table)
    (hpass : PassedOver cfg table shape m b ts) :
    ∃ fair best best',
      IsBest table shape m (fun b' => Fresh cfg table (shape.slot m b') ts) best ∧
      IsBest table shape m (fun b' => b' ≠ b ∧ Fresh cfg table (shape.slot m b') ts) best' ∧
      priceMarket cfg betlog table shape m ts =
        .ok (fair, betsOn cfg betlog ts m.val.toUInt16 fair best) ∧
      priceMarket cfg betlog (asStale table (shape.slot m b)) shape m ts =
        .ok (fair, betsOn cfg betlog ts m.val.toUInt16 fair best') ∧
      ((∀ i, Quotes table shape m b i →
          (table.get (shape.slot m b)).oddsMilli i ≤ best' i) → best = best') := by
  have hcount' := countsOk_asStale hcount (shape.slot m b)
  have hbest := isBest_marketBest cfg table shape m ts
  have hbest' := isBest_asStale cfg table shape m b ts
  refine ⟨marketFair cfg table shape m ts, marketBest cfg table shape m ts,
    marketBest cfg (asStale table (shape.slot m b)) shape m ts, hbest, hbest', ?_, ?_, ?_⟩
  · exact priceMarket_eq cfg betlog table shape (hcount.marketInBounds cfg shape m ts)
  · rw [priceMarket_eq cfg betlog _ shape (hcount'.marketInBounds cfg shape m ts)]
    unfold marketBets
    rw [← marketFair_asStale cfg table shape m b ts hcount hpass]
  · intro hle
    -- the best of the others is the best of all
    refine hbest.unique ⟨fun i b' hf hq => ?_, fun i => ?_⟩
    · by_cases hb' : b' = b
      · subst hb'
        exact hle i hq
      · exact hbest'.upper i b' ⟨hb', hf⟩ hq
    · rcases hbest'.attained i with h0 | ⟨b', hf, hq, ho⟩
      · exact Or.inl h0
      · exact Or.inr ⟨b', hf.2, hq, ho⟩

end Passed

/-! ## One corrupt quote -/

/-- 1.9 on both sides. -/
def evenBook : Quote := { seqNo := 1, outcomeCount := 2, oddsMilli := fun _ => 1900 }

theorem outcomes_neZero : NeZero 4 := inferInstance

theorem books_neZero : NeZero 16 := inferInstance

attribute [local instance] outcomes_neZero in
/-- Even money for nothing on one side, 4 on the other. -/
def corruptBook : Quote :=
  { seqNo := 1, outcomeCount := 2, oddsMilli := fun i => if i = 0 then 1000 else 4000 }

attribute [local instance] books_neZero in
def twoQuotes : Table :=
  { table := fun s => if s = (0, 0) then evenBook else if s = (0, 1) then corruptBook else {} }

abbrev twoBooks : Shape :=
  { markets := 1, books := 2, markets_le := oneBook.markets_le, books_le := by decide }

/-- Full Kelly, multiplicative devig. -/
noncomputable def fullKelly : LiveConfig ℝ :=
  { staleMs := 3000, kellyFraction := 1, maxExposure := 1, devigMethod := .multiplicative,
    changes := 0 }

theorem countsOk_twoQuotes : CountsOk twoQuotes := by
  intro s
  show ((if s = (0, 0) then evenBook else if s = (0, 1) then corruptBook else {} :
    Quote).outcomeCount).toNat ≤ kMaxOutcomes
  split
  · decide
  · split
    · decide
    · decide

theorem fresh_twoQuotes : Fresh fullKelly twoQuotes (0, 0) 0 ∧ Fresh fullKelly twoQuotes (0, 1) 0 := by
  constructor
  · show BookTable.isStale _ _ _ (3000 * 1000000) = false
    decide
  · show BookTable.isStale _ _ _ (3000 * 1000000) = false
    decide

theorem invalid_corruptBook :
    runDevig .multiplicative (quoteOdds corruptBook : List ℝ) = DevigResult.init := by
  have hodds : (quoteOdds corruptBook : List ℝ) = [1000 / 1000, 4000 / 1000] := by
    simp [quoteOdds, corruptBook, decimalOdds]
  have hv : Devig.validOdds [(1000 : ℝ) / 1000, 4000 / 1000] = false := by
    simp [Devig.validOdds]
  rw [hodds]
  show Devig.multiplicative _ = _
  unfold Devig.multiplicative
  rw [hv]
  rfl

theorem passedOver_corruptBook : PassedOver fullKelly twoQuotes twoBooks 0 1 0 := by
  refine Or.inl fun hu => ?_
  have hinit : (runDevig .multiplicative (quoteOdds corruptBook : List ℝ)).usableAsDistribution =
    true := hu
  rw [invalid_corruptBook] at hinit
  exact absurd hinit Bool.false_ne_true

theorem multiplicative_evenBook :
    runDevig .multiplicative (quoteOdds evenBook : List ℝ) =
      { (DevigResult.init : DevigResult ℝ) with
        count := 2, prob := Devig.fill [1 / 2, 1 / 2], status := .ok, normalized := true } := by
  have hodds : (quoteOdds evenBook : List ℝ) = [1900 / 1000, 1900 / 1000] := by
    simp [quoteOdds, evenBook, decimalOdds]
  have hv : Devig.validOdds [(1900 : ℝ) / 1000, 1900 / 1000] = true := by
    simp [Devig.validOdds]
    norm_num
  have hB : ¬ Devig.booksum [(1900 : ℝ) / 1000, 1900 / 1000] ≤ 1 := by
    unfold Devig.booksum
    rw [sumLoop_eq_sum]
    norm_num
  have hp : [(1900 : ℝ) / 1000, 1900 / 1000].map
      (fun o => (1 / o) / Devig.booksum [(1900 : ℝ) / 1000, 1900 / 1000]) = [1 / 2, 1 / 2] := by
    unfold Devig.booksum
    rw [sumLoop_eq_sum]
    norm_num
  rw [hodds]
  show Devig.multiplicative _ = _
  unfold Devig.multiplicative
  rw [if_neg (by rw [hv]; decide)]
  dsimp only
  rw [if_neg hB, hp]
  rfl

theorem usable_evenBook : Usable ℝ .multiplicative evenBook := by
  unfold Usable
  rw [multiplicative_evenBook]
  rfl

/-- The consensus of the two books is the even one's 1/2 on both sides. -/
theorem marketFair_twoQuotes :
    let fair := marketFair fullKelly twoQuotes twoBooks 0 0
    fair.hasFairPrice = true ∧ fair.count = 2 ∧ span fair.prob 2 = [1 / 2, 1 / 2] := by
  intro fair
  have hunusable : ¬ Usable ℝ .multiplicative corruptBook := by
    unfold Usable
    rw [invalid_corruptBook]
    exact Bool.false_ne_true
  have hinputs : marketInputs fullKelly twoQuotes twoBooks 0 0 =
      [quoteInput .multiplicative evenBook, BookInput.init] := by
    show [bookInput fullKelly twoQuotes (0, 0) 0, bookInput fullKelly twoQuotes (0, 1) 0] = _
    unfold bookInput
    rw [if_pos fresh_twoQuotes.1, if_pos fresh_twoQuotes.2]
    have hnone : (quoteInput .multiplicative (twoQuotes.get (0, 1)) : BookInput ℝ) =
        BookInput.init := if_neg hunusable
    exact congrArg _ (congrArg (fun b => [b]) hnone)
  have hcounts : Consensus.Counts (quoteInput .multiplicative evenBook : BookInput ℝ) = true := by
    have hunit : Consensus.UnitBook (quoteInput .multiplicative evenBook : BookInput ℝ) := by
      unfold quoteInput
      rw [if_pos usable_evenBook]
      exact fun _ => rfl
    rw [Consensus.counts_iff hunit]
    unfold quoteInput
    rw [if_pos usable_evenBook]
  have halone : fair = Consensus.fairPrice [quoteInput .multiplicative evenBook] := by
    show marketFair fullKelly twoQuotes twoBooks 0 0 = _
    unfold marketFair
    rw [hinputs, ← Consensus.fairPrice_filter, List.filter_cons_of_pos hcounts]
    rfl
  have hcount : (quoteInput .multiplicative evenBook : BookInput ℝ).count = 2 :=
    quoteInput_count usable_evenBook (by decide)
  obtain ⟨hfair, hn, hprob⟩ := Consensus.fairPrice_singleton hcounts
  rw [hcount] at hn hprob
  have hhalf : ∀ i : Fin kMaxOutcomes, i.val < 2 → fair.prob i = 1 / 2 := by
    intro i hi
    rw [halone, hprob i hi]
    unfold quoteInput
    rw [if_pos usable_evenBook, multiplicative_evenBook]
    show (if i.val < 2 then [(1 : ℝ) / 2, 1 / 2].getD i.val 0 else 0) = 1 / 2
    rw [if_pos hi]
    have hi2 : i.val = 0 ∨ i.val = 1 := by omega
    rcases hi2 with h | h
    · rw [h]; rfl
    · rw [h]; rfl
  refine ⟨halone ▸ hfair, halone ▸ hn, ?_⟩
  show [fair.prob 0, fair.prob 1] = [1 / 2, 1 / 2]
  rw [hhalf 0 (by decide), hhalf 1 (by decide)]

/-- No edge at 1.9 on both sides of an even market. -/
theorem hasBet_even :
    (Kelly.allocate [1 / 2, 1 / 2] [1900 / 1000, 1900 / 1000] 1 1 :
      Kelly.AllocationResult ℝ).hasBet = false := by
  have hv : Kelly.validArgs [(1 : ℝ) / 2, 1 / 2] [1900 / 1000, 1900 / 1000] 1 1 = true := by
    simp [Kelly.validArgs]
    norm_num
  have horder : Kelly.order (Kelly.rate [(1 : ℝ) / 2, 1 / 2] [1900 / 1000, 1900 / 1000]) 2 =
      [0, 1] := by
    simp [Kelly.order, Kelly.insert, Kelly.rate, List.range_succ]
  have hpick : Kelly.pick [(1 : ℝ) / 2, 1 / 2] [1900 / 1000, 1900 / 1000] [0, 1] 2 = none := by
    simp [Kelly.pick, sumLoop_eq_sum, Kelly.rate]
    norm_num
  rw [← horder] at hpick
  rw [Kelly.allocate_of_pick_none hv hpick]
  rfl

/-- ... and a sure profit at 1.9 and 4. -/
theorem allocate_corrupt :
    let a : Kelly.AllocationResult ℝ :=
      Kelly.allocate [1 / 2, 1 / 2] [1900 / 1000, 4000 / 1000] 1 1
    a.hasBet = true ∧ 0 < a.stake 1 := by
  have hv : Kelly.validArgs [(1 : ℝ) / 2, 1 / 2] [1900 / 1000, 4000 / 1000] 1 1 = true := by
    simp [Kelly.validArgs]
    norm_num
  have hlt : Kelly.rate [(1 : ℝ) / 2, 1 / 2] [1900 / 1000, 4000 / 1000] 0 <
      Kelly.rate [(1 : ℝ) / 2, 1 / 2] [1900 / 1000, 4000 / 1000] 1 := by
    simp [Kelly.rate]
    norm_num
  have horder : Kelly.order (Kelly.rate [(1 : ℝ) / 2, 1 / 2] [1900 / 1000, 4000 / 1000]) 2 =
      [1, 0] := by
    simp only [Kelly.order, Kelly.insert, List.range_succ, List.range_zero, List.nil_append,
      List.foldl_append, List.foldl_cons, List.foldl_nil, hlt, if_true, List.reverse_cons,
      List.reverse_nil]
    rfl
  have hpick : Kelly.pick [(1 : ℝ) / 2, 1 / 2] [1900 / 1000, 4000 / 1000] [1, 0] 2 =
      some (2, 0) := by
    simp [Kelly.pick, sumLoop_eq_sum, Kelly.rate]
    norm_num
  rw [← horder] at hpick
  have hset := Kelly.allocate_of_pick_some hv hpick
  have hlen : [(1 : ℝ) / 2, 1 / 2].length = 2 := rfl
  rw [hlen, horder] at hset
  intro a
  have ha : a = _ := hset
  rw [ha]
  simp [Kelly.stakeSet, Kelly.stakeStep, Kelly.fullStake]
  norm_num
  simp [Kelly.scaleStakes]

/-- The best odds with the corrupt quote. -/
theorem marketBest_twoQuotes : marketBest fullKelly twoQuotes twoBooks 0 0 =
    fun i => if i.val < 2 then (if i.val = 0 then 1900 else 4000) else 0 := by
  show bestStep fullKelly twoQuotes (0, 1) 0 (bestStep fullKelly twoQuotes (0, 0) 0 fun _ => 0) = _
  unfold bestStep
  rw [if_pos fresh_twoQuotes.2, if_pos fresh_twoQuotes.1]
  decide

/-- ... and without it. -/
theorem marketBest_evenBook : marketBest fullKelly (asStale twoQuotes (0, 1)) twoBooks 0 0 =
    fun i => if i.val < 2 then 1900 else 0 := by
  have h0 : Fresh fullKelly (asStale twoQuotes (0, 1)) (0, 0) 0 := by
    show BookTable.isStale _ _ _ (3000 * 1000000) = false
    decide
  have h1 : ¬ Fresh fullKelly (asStale twoQuotes (0, 1)) (0, 1) 0 := by
    show ¬ BookTable.isStale _ _ _ (3000 * 1000000) = false
    decide
  show bestStep fullKelly (asStale twoQuotes (0, 1)) (0, 1) 0
    (bestStep fullKelly (asStale twoQuotes (0, 1)) (0, 0) 0 fun _ => 0) = _
  unfold bestStep
  rw [if_neg h1, if_pos h0]
  decide

/-- The bets on the price 1/2, 1/2 at two best odds. -/
theorem marketBets_halves {table : Table} {o o' : UInt32}
    (hfair : (marketFair fullKelly table twoBooks 0 0).hasFairPrice = true)
    (hcount : (marketFair fullKelly table twoBooks 0 0).count = 2)
    (hspan : span (marketFair fullKelly table twoBooks 0 0).prob 2 = [1 / 2, 1 / 2])
    (hbest : marketBest fullKelly table twoBooks 0 0 =
      fun i => if i.val < 2 then (if i.val = 0 then o else o') else 0)
    (ho : ¬ o < kMinOddsMilli) (ho' : ¬ o' < kMinOddsMilli) {a : Kelly.AllocationResult ℝ}
    (ha : Kelly.allocate [1 / 2, 1 / 2] [decimalOdds o, decimalOdds o'] 1 1 = a) :
    marketBets fullKelly true table twoBooks 0 0 =
      if a.hasBet then stakedRecords 0 0 (marketFair fullKelly table twoBooks 0 0)
        (marketBest fullKelly table twoBooks 0 0) a.stake
      else [] := by
  have htake : (List.ofFn (marketBest fullKelly table twoBooks 0 0)).take 2 = [o, o'] := by
    rw [hbest]
    rfl
  have halloc : allocation fullKelly (marketFair fullKelly table twoBooks 0 0)
      (marketBest fullKelly table twoBooks 0 0) = a := by
    unfold allocation
    rw [hcount]
    show Kelly.allocate (span _ 2) (((List.ofFn _).take 2).map decimalOdds) 1 1 = a
    rw [hspan, htake]
    exact ha
  have hquoted : allQuoted (marketBest fullKelly table twoBooks 0 0)
      (marketFair fullKelly table twoBooks 0 0).count.toNat = true := by
    unfold allQuoted
    rw [hcount]
    show ((List.ofFn _).take 2).all _ = true
    rw [htake]
    simp only [List.all_cons, List.all_nil, ho, ho', decide_false, Bool.not_false, Bool.and_self]
  unfold marketBets betsOn sizedRecords
  rw [hfair, halloc, hquoted]
  rfl

/-- A quote with 1.0 on one side is invalid to the devig, and its 4.0 on the other side is bet
    into: the market does not come out as if the book were stale. -/
theorem not_as_if_stale :
    CountsOk twoQuotes ∧ Fresh fullKelly twoQuotes (twoBooks.slot 0 1) 0 ∧
      (runDevig fullKelly.devigMethod
        (quoteOdds (twoQuotes.get (twoBooks.slot 0 1)) : List ℝ)).status = .invalidInput ∧
      priceMarket fullKelly true twoQuotes twoBooks 0 0 ≠
        priceMarket fullKelly true (asStale twoQuotes (twoBooks.slot 0 1)) twoBooks 0 0 := by
  have hinvalid : runDevig fullKelly.devigMethod
      (quoteOdds (twoQuotes.get (twoBooks.slot 0 1)) : List ℝ) = DevigResult.init :=
    invalid_corruptBook
  have hsamePrice := marketFair_asStale fullKelly twoQuotes twoBooks 0 1 0 countsOk_twoQuotes
    passedOver_corruptBook
  have hcount' := countsOk_asStale countsOk_twoQuotes (twoBooks.slot 0 1)
  refine ⟨countsOk_twoQuotes, fresh_twoQuotes.2, by rw [hinvalid]; rfl, fun hsame => ?_⟩
  obtain ⟨hfair, hn, hspan⟩ := marketFair_twoQuotes
  rw [priceMarket_eq fullKelly true twoQuotes twoBooks
      (countsOk_twoQuotes.marketInBounds fullKelly twoBooks 0 0),
    priceMarket_eq fullKelly true _ twoBooks (hcount'.marketInBounds fullKelly twoBooks 0 0)]
    at hsame
  have hbets := (Prod.mk.inj (Except.ok.inj hsame)).2
  -- one bet on outcome 1 at the corrupt quote's odds
  have hodds : [decimalOdds 1900, decimalOdds 4000] = [(1900 : ℝ) / 1000, 4000 / 1000] := by
    simp [decimalOdds]
  have hwith := marketBets_halves hfair hn hspan marketBest_twoQuotes (by decide) (by decide)
    (by rw [hodds])
  rw [if_pos allocate_corrupt.1] at hwith
  have hbet : betRecord 0 0 (marketFair fullKelly twoQuotes twoBooks 0 0)
      (marketBest fullKelly twoQuotes twoBooks 0 0)
      (Kelly.allocate [1 / 2, 1 / 2] [1900 / 1000, 4000 / 1000] 1 1).stake 1 ∈
        marketBets fullKelly true twoQuotes twoBooks 0 0 := by
    rw [hwith]
    exact mem_stakedRecords_iff.mpr
      ⟨1, by rw [hn]; decide, not_le.mpr allocate_corrupt.2, rfl⟩
  rw [hbets] at hbet
  -- no bet at the even book's
  have heven : [decimalOdds 1900, decimalOdds 1900] = [(1900 : ℝ) / 1000, 1900 / 1000] := by
    simp [decimalOdds]
  rw [hsamePrice] at hfair hn hspan
  have hwithout := marketBets_halves hfair hn hspan
    (marketBest_evenBook.trans (funext fun i => by rw [ite_self])) (by decide) (by decide)
    (by rw [heven])
  rw [if_neg (by rw [hasBet_even]; decide)] at hwithout
  rw [hwithout] at hbet
  exact absurd hbet List.not_mem_nil

/-- The price of the two books is the even one's, with the corrupt book and without it. -/
theorem priceMarket_of_passedOver_corruptBook :
    ∃ fair best best',
      priceMarket fullKelly true twoQuotes twoBooks 0 0 =
        .ok (fair, betsOn fullKelly true 0 0 fair best) ∧
      priceMarket fullKelly true (asStale twoQuotes (twoBooks.slot 0 1)) twoBooks 0 0 =
        .ok (fair, betsOn fullKelly true 0 0 fair best') := by
  obtain ⟨fair, best, best', _, _, h, h', _⟩ :=
    priceMarket_of_passedOver fullKelly true twoQuotes twoBooks 0 1 0 countsOk_twoQuotes
      passedOver_corruptBook
  exact ⟨fair, best, best', h, h'⟩

end OddsEngine
