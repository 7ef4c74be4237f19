/-
  File:      OddsEngine/Sim/Generator.lean
  Subject:   The simulator's generation loop (`main` of sim/main.cpp).

  Tick by tick, market by market, book by book; a book whose interval does not divide the tick is
  passed over, every other one quotes, and the record goes to the sink with the book's next number.
  The numbers belong to the book, not to the (market, book): one counter for all markets.

  What the random streams make of the books' beliefs is a parameter: `quotes` gives the probabilities
  a book quotes at a tick on a market.

  * `generate_eq_foldl` -- the three loops are one loop over the `visits` they make;
  * `numbered_foldl` -- after any visits a book's counter is the number of records it sent, and
    each record in the sink stems from a visit and carries the number of the book's earlier ones;
  * `length_generate` -- how many records there are.
-/
import Mathlib.Algebra.BigOperators.Fin
import Mathlib.Algebra.BigOperators.Ring.Finset
import Mathlib.Data.List.FinRange
import OddsEngine.Proto.Messages
import OddsEngine.Sim.Bookmaker

namespace OddsEngine

open Lib

namespace Generator

variable {F : Type} [DoubleArith F] [Truncate F]

/-- `static_cast<uint64_t>(update_interval_ticks)`. -/
def interval (book : SimBookConfig F) : UInt64 := book.updateIntervalTicks.toInt64.toUInt64

/-- What the loop keeps: the books' counters, and what the sink was given so far. -/
structure State (books : Nat) where
  seqNo : Fin books → UInt64 := fun _ => 0
  sink : List OddsUpdate := []

/-- The record of a quote. Slots past the third outcome stay zero. -/
def recordOf (bookId : UInt16) (seqNo tick : UInt64) (m : Nat) (odds : Fin kOutcomes → UInt32) :
    OddsUpdate :=
  { seqNo
    simTimestampNs := tick * kTickIntervalNs
    bookId
    marketId := m.toUInt16
    outcomeCount := kOutcomes.toUInt8
    oddsMilli := fun i => if h : i.val < kOutcomes then odds ⟨i.val, h⟩ else 0 }

/-- One round of the innermost loop. -/
def bookStep (roster : List (SimBookConfig F)) (quotes : UInt64 → Nat → Nat → Fin kOutcomes → F)
    (tick : UInt64) (m : Nat) (s : State roster.length) (b : Fin roster.length) :
    State roster.length :=
  if tick % interval roster[b] ≠ 0 then s
  else
    let odds := Bookmaker.quotedOdds (quotes tick m b)
    let update := recordOf roster[b].cfg.bookId (s.seqNo b) tick m odds
    { seqNo := Function.update s.seqNo b (s.seqNo b + 1), sink := s.sink ++ [update] }

/-- The generation loop. -/
def loop (roster : List (SimBookConfig F)) (quotes : UInt64 → Nat → Nat → Fin kOutcomes → F)
    (markets : UInt32) (ticks : UInt64) : State roster.length :=
  (List.range ticks.toNat).foldl (fun s tick =>
    (List.range markets.toNat).foldl (fun s m =>
      (List.finRange roster.length).foldl (bookStep roster quotes tick.toUInt64 m) s) s) {}

/-- The record stream of a simulation. -/
def generate (roster : List (SimBookConfig F)) (quotes : UInt64 → Nat → Nat → Fin kOutcomes → F)
    (markets : UInt32) (ticks : UInt64) : List OddsUpdate :=
  (loop roster quotes markets ticks).sink

/-! ## 1. One loop over the visits -/

/-- One round of the innermost loop: the tick, the market, the book. -/
structure Visit (books : Nat) where
  tick : Nat
  market : Nat
  book : Fin books

/-- The rounds of one tick. -/
def visitsAt (books markets tick : Nat) : List (Visit books) :=
  (List.range markets).flatMap fun market =>
    (List.finRange books).map fun book => { tick, market, book }

/-- The rounds of the three loops, in order. -/
def visits (books markets ticks : Nat) : List (Visit books) :=
  (List.range ticks).flatMap (visitsAt books markets)

theorem visits_succ (books markets ticks : Nat) :
    visits books markets (ticks + 1) = visits books markets ticks ++ visitsAt books markets ticks := by
  simp [visits, List.range_succ]

theorem mem_visits {books markets ticks : Nat} {v : Visit books}
    (h : v ∈ visits books markets ticks) : v.tick < ticks ∧ v.market < markets := by
  simp only [visits, visitsAt, List.mem_flatMap, List.mem_map, List.mem_range] at h
  obtain ⟨t, ht, m, hm, b, _, rfl⟩ := h
  exact ⟨ht, hm⟩

/-- The ticks of the rounds never go back. -/
theorem visits_sorted (books markets ticks : Nat) :
    (visits books markets ticks).Pairwise fun v w => v.tick ≤ w.tick := by
  induction ticks with
  | zero => exact List.Pairwise.nil
  | succ n ih =>
    rw [visits_succ]
    have tick_eq : ∀ v ∈ visitsAt books markets n, v.tick = n := by
      intro v hv
      simp only [visitsAt, List.mem_flatMap, List.mem_map] at hv
      obtain ⟨m, _, b, _, rfl⟩ := hv
      rfl
    refine List.pairwise_append.mpr ⟨ih, ?_, fun v hv w hw => ?_⟩
    · refine List.pairwise_of_forall_mem_list fun v hv w hw => ?_
      rw [tick_eq v hv, tick_eq w hw]
    · rw [tick_eq w hw]
      exact Nat.le_of_lt (mem_visits hv).1

variable (roster : List (SimBookConfig F)) (quotes : UInt64 → Nat → Nat → Fin kOutcomes → F)

def step (s : State roster.length) (v : Visit roster.length) : State roster.length :=
  bookStep roster quotes v.tick.toUInt64 v.market s v.book

theorem generate_eq_foldl (markets : UInt32) (ticks : UInt64) :
    generate roster quotes markets ticks =
      ((visits roster.length markets.toNat ticks.toNat).foldl (step roster quotes) {}).sink := by
  simp only [generate, loop, visits, visitsAt, List.foldl_flatMap, List.foldl_map]
  rfl

/-! ## 2. What the sink holds after some visits -/

/-- The book quotes at this visit. -/
def sends (v : Visit roster.length) : Bool :=
  decide (v.tick.toUInt64 % interval roster[v.book] = 0)

/-- How many records book `b` sends at these visits. -/
def sentBy (b : Fin roster.length) (vs : List (Visit roster.length)) : Nat :=
  vs.countP fun v => sends roster v && decide (v.book = b)

/-- The record of a visit, with the number `k`. -/
def sent (v : Visit roster.length) (k : Nat) : OddsUpdate :=
  recordOf roster[v.book].cfg.bookId k.toUInt64 v.tick.toUInt64 v.market
    (Bookmaker.quotedOdds (quotes v.tick.toUInt64 v.market v.book))

omit [DoubleArith F] [Truncate F] in
theorem sentBy_append (b : Fin roster.length) (vs ws : List (Visit roster.length)) :
    sentBy roster b (vs ++ ws) = sentBy roster b vs + sentBy roster b ws := List.countP_append

/-- The counters after some visits: what each book sent. The sink holds one record for each, with
    the number of the book's earlier ones. -/
structure Numbered (vs : List (Visit roster.length)) (s : State roster.length) : Prop where
  counters : ∀ b, s.seqNo b = (sentBy roster b vs).toUInt64
  length : s.sink.length = vs.countP (sends roster)
  origin : ∀ u ∈ s.sink, ∃ v ∈ vs, ∃ k, k < sentBy roster v.book vs ∧ u = sent roster quotes v k

/-- One more visit: nothing, or one record with the book's next number. -/
theorem step_eq {vs : List (Visit roster.length)} {s : State roster.length}
    (h : Numbered roster quotes vs s) (v : Visit roster.length) :
    step roster quotes s v =
      if sends roster v then
        { seqNo := Function.update s.seqNo v.book (s.seqNo v.book + 1)
          sink := s.sink ++ [sent roster quotes v (sentBy roster v.book vs)] }
      else s := by
  unfold step bookStep
  by_cases hdue : sends roster v = true
  · rw [if_pos hdue, if_neg (not_not.mpr (of_decide_eq_true hdue)), h.counters]
    rfl
  · rw [if_neg hdue, if_pos fun e => hdue (decide_eq_true e)]

theorem numbered_step {vs : List (Visit roster.length)} {s : State roster.length}
    (h : Numbered roster quotes vs s) (v : Visit roster.length) :
    Numbered roster quotes (vs ++ [v]) (step roster quotes s v) := by
  have hlast : ∀ b, sentBy roster b [v] = if sends roster v ∧ v.book = b then 1 else 0 := by
    intro b
    simp [sentBy, List.countP_cons]
  have horigin : ∀ u ∈ s.sink, ∃ w ∈ vs ++ [v], ∃ k, k < sentBy roster w.book (vs ++ [v]) ∧
      u = sent roster quotes w k := by
    intro u hu
    obtain ⟨w, hw, k, hk, rfl⟩ := h.origin u hu
    refine ⟨w, List.mem_append_left _ hw, k, ?_, rfl⟩
    rw [sentBy_append]
    omega
  rw [step_eq roster quotes h v]
  by_cases hdue : sends roster v
  · rw [if_pos hdue]
    refine ⟨fun b => ?_, ?_, fun u hu => ?_⟩
    · rw [sentBy_append, hlast]
      by_cases hb : v.book = b
      · subst hb
        dsimp only
        rw [Function.update_self, if_pos ⟨hdue, rfl⟩, h.counters]
        exact (UInt64.ofNat_add _ _).symm
      · dsimp only
        rw [Function.update_of_ne (Ne.symm hb), if_neg (fun hc => hb hc.2), Nat.add_zero]
        exact h.counters b
    · simp [h.length, hdue]
    · rcases List.mem_append.mp hu with hu | hu
      · exact horigin u hu
      · refine ⟨v, by simp, sentBy roster v.book vs, ?_, List.mem_singleton.mp hu⟩
        rw [sentBy_append, hlast, if_pos ⟨hdue, rfl⟩]
        exact Nat.lt_succ_self _
  · rw [if_neg hdue]
    refine ⟨fun b => ?_, ?_, horigin⟩
    · rw [sentBy_append, hlast, if_neg (fun hc => hdue hc.1), Nat.add_zero]
      exact h.counters b
    · simp [h.length, hdue]

/-- **After any visits**, by induction on the last one. -/
theorem numbered_foldl (vs : List (Visit roster.length)) :
    Numbered roster quotes vs (vs.foldl (step roster quotes) {}) := by
  induction vs using List.reverseRecOn with
  | nil => exact ⟨fun _ => rfl, rfl, by simp⟩
  | append_singleton vs v ih =>
    rw [List.foldl_append]
    exact numbered_step roster quotes ih v

/-! ## 3. How many records there are -/

/-- The multiples of `i` below `n`. -/
def due (i n : Nat) : Nat := (n + i - 1) / i

theorem due_succ {i : Nat} (hi : 0 < i) (n : Nat) :
    due i (n + 1) = due i n + if n % i = 0 then 1 else 0 := by
  have hdiv := Nat.div_add_mod n i
  have hmod := Nat.mod_lt n hi
  have hnext : (n + 1 + i - 1) / i = n / i + 1 := by
    rw [show n + 1 + i - 1 = n + i by omega, Nat.add_div_right n hi]
  unfold due
  rw [hnext]
  by_cases h : n % i = 0
  · have hlast : (n + i - 1) / i = n / i := by
      rw [show n + i - 1 = i * (n / i) + (i - 1) by omega, Nat.mul_add_div hi,
        Nat.div_eq_of_lt (show i - 1 < i by omega), Nat.add_zero]
    rw [if_pos h, hlast]
  · have hlast : (n + i - 1) / i = n / i + 1 := by
      rw [show n + i - 1 = i * (n / i) + (n % i - 1 + i) by omega, Nat.mul_add_div hi,
        Nat.add_div_right _ hi, Nat.div_eq_of_lt (show n % i - 1 < i by omega), Nat.zero_add]
    rw [if_neg h, hlast, Nat.add_zero]

theorem due_le {i : Nat} (hi : 0 < i) (n : Nat) : due i n ≤ n := by
  induction n with
  | zero => rw [due, Nat.div_eq_of_lt (by omega)]
  | succ n ih =>
    rw [due_succ hi]
    split <;> omega

omit [DoubleArith F] [Truncate F] in
/-- At one tick a book sends one record for every market, or none. -/
theorem sentBy_visitsAt (b : Fin roster.length) (markets : Nat) {tick : Nat} (ht : tick < 2 ^ 64) :
    sentBy roster b (visitsAt roster.length markets tick) =
      markets * if tick % (interval roster[b]).toNat = 0 then 1 else 0 := by
  have htick : tick.toUInt64.toNat = tick := UInt64.toNat_ofNat_of_lt' ht
  have hdue : tick.toUInt64 % interval roster[b] = 0 ↔ tick % (interval roster[b]).toNat = 0 := by
    rw [← UInt64.toNat_inj, UInt64.toNat_mod, htick]
    rfl
  have market : ∀ m, ((List.finRange roster.length).map fun book =>
      ({ tick, market := m, book } : Visit roster.length)).countP
        (fun v => sends roster v && decide (v.book = b)) =
      if tick % (interval roster[b]).toNat = 0 then 1 else 0 := by
    intro m
    rw [List.countP_map]
    by_cases h : tick % (interval roster[b]).toNat = 0
    · rw [if_pos h, ← List.count_eq_one_of_mem (List.nodup_finRange _) (List.mem_finRange b)]
      refine List.countP_congr fun b' _ => ?_
      by_cases hb : b' = b
      · subst hb
        simpa [sends] using hdue.mpr h
      · simp [hb]
    · rw [if_neg h]
      refine List.countP_eq_zero.mpr fun b' _ hc => ?_
      simp only [Function.comp, sends, Bool.and_eq_true, decide_eq_true_eq] at hc
      obtain ⟨hs, rfl⟩ := hc
      exact h (hdue.mp hs)
  unfold sentBy visitsAt
  rw [List.countP_flatMap]
  simp [Function.comp_def, market]

omit [DoubleArith F] [Truncate F] in
/-- Over the run it sends one for every market and every multiple of its interval. -/
theorem sentBy_visits {b : Fin roster.length} (hi : 0 < (interval roster[b]).toNat)
    (markets : Nat) {ticks : Nat} (ht : ticks ≤ 2 ^ 64) :
    sentBy roster b (visits roster.length markets ticks) =
      markets * due (interval roster[b]).toNat ticks := by
  induction ticks with
  | zero =>
    rw [due, Nat.div_eq_of_lt (by omega)]
    rfl
  | succ n ih =>
    rw [visits_succ, sentBy_append, ih (by omega), sentBy_visitsAt roster b markets (by omega),
      due_succ hi, Nat.mul_add]

omit [DoubleArith F] [Truncate F] in
/-- The records of the books together. -/
theorem countP_sends (vs : List (Visit roster.length)) :
    vs.countP (sends roster) = ∑ b, sentBy roster b vs := by
  induction vs with
  | nil => simp [sentBy]
  | cons v vs ih =>
    have hv : (if sends roster v then 1 else 0) =
        ∑ b, if sends roster v && decide (v.book = b) then 1 else 0 := by
      by_cases h : sends roster v
      · simp [h]
      · simp [h]
    simp only [sentBy, List.countP_cons, Finset.sum_add_distrib] at ih ⊢
    rw [ih, hv]

/-- **How many records a simulation has**: for every market, from every book, one at each multiple
    of the book's interval. -/
theorem length_generate (markets : UInt32) (ticks : UInt64)
    (hi : ∀ book ∈ roster, 0 < (interval book).toNat) :
    (generate roster quotes markets ticks).length =
      markets.toNat * (roster.map fun book => due (interval book).toNat ticks.toNat).sum := by
  have hbook : ∀ b : Fin roster.length,
      sentBy roster b (visits roster.length markets.toNat ticks.toNat) =
        markets.toNat * due (interval roster[b]).toNat ticks.toNat := fun b =>
    sentBy_visits roster (hi _ (List.getElem_mem b.isLt)) _ (Nat.le_of_lt ticks.toNat_lt)
  rw [generate_eq_foldl, (numbered_foldl roster quotes _).length, countP_sends,
    Finset.sum_congr rfl fun b _ => hbook b, ← Finset.mul_sum]
  congr 1
  exact Fin.sum_univ_fun_getElem roster fun book => due (interval book).toNat ticks.toNat

end Generator

end OddsEngine
