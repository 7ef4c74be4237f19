/-
  File:      OddsEngine/Engine/ConsensusOrder.lean
  Subject:   What the numbering of the books can change about the consensus price
             (engine/Consensus.hpp).

  A weighted mean does not see the order of its books (`weightedMean_perm`), so the only way in
  for the numbering is the FIRST usable book, whose number of outcomes decides who contributes.
  `fairPrice_perm_iff` says that it is the only one: two numberings of the same books give one
  price exactly if their first usable books have the same count.
-/
import OddsEngine.Engine.ConsensusMean

namespace Lib

/-- The order of the values is nothing to the mean. -/
theorem weightedMean_perm {α : Type} (w f : α → ℝ) {xs ys : List α} (h : xs.Perm ys) :
    weightedMean w f xs = weightedMean w f ys := by
  unfold weightedMean
  rw [(h.map w).sum_eq, (h.map fun x => w x * f x).sum_eq]

end Lib

namespace OddsEngine

open Lib

namespace Consensus

/-- The number of outcomes of the first usable book, if there is one. -/
def firstCount {F : Type} [DoubleArith F] (books : List (BookInput F)) : Option UInt8 :=
  (books.find? Counts).map BookInput.count

/-- The contributors, by the count they share. -/
theorem contributors_eq_filter {books : List (BookInput ℝ)} {n : UInt8}
    (h : firstCount books = some n) :
    contributors books = books.filter fun b => Counts b && b.count == n := by
  obtain ⟨b0, hf, rfl⟩ := Option.map_eq_some_iff.mp h
  unfold contributors
  rw [hf]

theorem contributors_of_firstCount_none {books : List (BookInput ℝ)}
    (h : firstCount books = none) : contributors books = [] := by
  rw [contributors_eq_nil_iff]
  exact Option.map_eq_none_iff.mp h

/-- `fairPrice_eq`, by the count alone. -/
theorem fairPrice_of_firstCount {books : List (BookInput ℝ)} {n : UInt8}
    (h : firstCount books = some n) :
    fairPrice books =
      { prob := fun i => if i.val < n.toNat then
          weightedMean BookInput.weight (fun b => b.prob i) (contributors books) else 0
        count := n
        hasFairPrice := true
        totalWeight := ((contributors books).map BookInput.weight).sum
        booksUsed := (contributors books).length } := by
  obtain ⟨b0, hf, rfl⟩ := Option.map_eq_some_iff.mp h
  rw [fairPrice_eq, hf]

theorem fairPrice_of_firstCount_none {books : List (BookInput ℝ)}
    (h : firstCount books = none) : fairPrice books = ConsensusResult.init :=
  fairPrice_of_nil (contributors_of_firstCount_none h)

/-- Some book is usable in every numbering or in none. -/
theorem firstCount_isSome_perm {books books' : List (BookInput ℝ)} (h : books.Perm books') :
    (firstCount books).isSome = (firstCount books').isSome := by
  have hiff : (firstCount books).isSome ↔ (firstCount books').isSome := by
    simp only [firstCount, Option.isSome_map, List.find?_isSome]
    constructor
    · rintro ⟨b, hb, hc⟩
      exact ⟨b, h.mem_iff.mp hb, hc⟩
    · rintro ⟨b, hb, hc⟩
      exact ⟨b, h.mem_iff.mpr hb, hc⟩
  exact Bool.eq_iff_iff.mpr hiff

/-- With one first count, the numberings have the same contributors in two orders. -/
theorem contributors_perm {books books' : List (BookInput ℝ)} (h : books.Perm books')
    (hcount : firstCount books = firstCount books') :
    (contributors books).Perm (contributors books') := by
  cases hn : firstCount books with
  | none =>
    rw [contributors_of_firstCount_none hn, contributors_of_firstCount_none (hcount ▸ hn)]
  | some n =>
    rw [contributors_eq_filter hn, contributors_eq_filter (hcount ▸ hn)]
    exact h.filter _

/-- The usable books agreeing on the number of outcomes, every numbering starts with that count. -/
theorem firstCount_perm {books books' : List (BookInput ℝ)} (h : books.Perm books')
    (hagree : ∀ b ∈ books, ∀ b' ∈ books, Counts b = true → Counts b' = true →
      b.count = b'.count) : firstCount books = firstCount books' := by
  have hsome := firstCount_isSome_perm h
  cases hn : firstCount books with
  | none =>
    rw [hn] at hsome
    exact (Option.not_isSome_iff_eq_none.mp (by rw [← hsome]; exact Bool.false_ne_true)).symm
  | some n =>
    rw [hn] at hsome
    obtain ⟨n', hn'⟩ := Option.isSome_iff_exists.mp hsome.symm
    obtain ⟨b, hb, rfl⟩ := Option.map_eq_some_iff.mp hn
    obtain ⟨b', hb', rfl⟩ := Option.map_eq_some_iff.mp hn'
    rw [hn', hagree b (List.mem_of_find?_eq_some hb) b'
      (h.mem_iff.mpr (List.mem_of_find?_eq_some hb')) (List.find?_some hb) (List.find?_some hb')]

/-- **What the numbering can change**: of the same books in two orders, the price is the same
    exactly if the first usable books have the same number of outcomes; so it is always the same
    where all usable books have one. -/
theorem fairPrice_perm_iff {books books' : List (BookInput ℝ)} (h : books.Perm books') :
    (fairPrice books = fairPrice books' ↔ firstCount books = firstCount books') ∧
    ((∀ b ∈ books, ∀ b' ∈ books, Counts b = true → Counts b' = true → b.count = b'.count) →
      fairPrice books = fairPrice books') := by
  have hsame : firstCount books = firstCount books' → fairPrice books = fairPrice books' := by
    intro hcount
    cases hn : firstCount books with
    | none =>
      rw [fairPrice_of_firstCount_none hn, fairPrice_of_firstCount_none (hcount ▸ hn)]
    | some n =>
      have hperm := contributors_perm h hcount
      rw [fairPrice_of_firstCount hn, fairPrice_of_firstCount (hcount ▸ hn),
        (hperm.map BookInput.weight).sum_eq, hperm.length_eq]
      simp only [weightedMean_perm _ _ hperm]
  refine ⟨⟨fun hprice => ?_, hsame⟩, fun hagree => hsame (firstCount_perm h hagree)⟩
  -- the price shows the count it was made with
  have hsome := firstCount_isSome_perm h
  cases hn : firstCount books with
  | none =>
    rw [hn] at hsome
    exact (Option.not_isSome_iff_eq_none.mp (by rw [← hsome]; exact Bool.false_ne_true)).symm
  | some n =>
    rw [hn] at hsome
    obtain ⟨n', hn'⟩ := Option.isSome_iff_exists.mp hsome.symm
    rw [fairPrice_of_firstCount hn, fairPrice_of_firstCount hn'] at hprice
    have hcount : n = n' := congrArg ConsensusResult.count hprice
    rw [hn', hcount]

/-- A usable book of `n` outcomes, every one at probability `q`. -/
noncomputable def flatBook (n : UInt8) (q : ℝ) : BookInput ℝ :=
  { prob := fun _ => q, count := n, weight := 1, available := true }

theorem counts_flatBook (n : UInt8) (q : ℝ) : Counts (flatBook n q) = true :=
  (counts_iff_real _).mpr ⟨rfl, one_pos⟩

/-- Two usable books of three outcomes each, numbered both ways. -/
theorem fairPrice_perm_iff_two_books :
    fairPrice [flatBook 3 (1 / 2), flatBook 3 (1 / 3)] =
      fairPrice [flatBook 3 (1 / 3), flatBook 3 (1 / 2)] :=
  (fairPrice_perm_iff (List.Perm.swap (flatBook 3 (1 / 3)) (flatBook 3 (1 / 2)) [])).2
    (by simp [flatBook])

/-- A book of three outcomes and one of two: the price has as many as the first. -/
theorem not_fairPrice_perm :
    ¬ ∀ books books' : List (BookInput ℝ), (∀ b ∈ books, b.count.toNat ≤ kMaxOutcomes) →
      books.Perm books' → fairPrice books = fairPrice books' := by
  intro h
  have hcount : ∀ b ∈ [flatBook 3 (1 / 3), flatBook 2 (1 / 2)], b.count.toNat ≤ kMaxOutcomes := by
    simp [flatBook, kMaxOutcomes]
  have heq := h [flatBook 3 (1 / 3), flatBook 2 (1 / 2)] [flatBook 2 (1 / 2), flatBook 3 (1 / 3)]
    hcount (List.Perm.swap _ _ [])
  have h3 : firstCount [flatBook 3 (1 / 3), flatBook 2 (1 / 2)] = some 3 := by
    rw [firstCount, List.find?_cons_of_pos (counts_flatBook 3 _)]
    rfl
  have h2 : firstCount [flatBook 2 (1 / 2), flatBook 3 (1 / 3)] = some 2 := by
    rw [firstCount, List.find?_cons_of_pos (counts_flatBook 2 _)]
    rfl
  rw [fairPrice_of_firstCount h3, fairPrice_of_firstCount h2] at heq
  exact absurd (congrArg ConsensusResult.count heq) (by decide : (3 : UInt8) ≠ 2)

end Consensus

end OddsEngine
