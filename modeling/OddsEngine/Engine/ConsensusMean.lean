/-
  File:      OddsEngine/Engine/ConsensusMean.lean
  Subject:   The consensus price is the weighted mean of its contributors, over the reals
             (engine/Consensus.hpp).

  `fairPrice_eq` gives the whole answer: with no contributor it is the zeroed default, else each
  entry is the weighted mean of the contributors' entries. What a mean keeps follows, for lists of
  any books (`fairPrice_mean`), and a book that does not contribute may say what it likes
  (`fairPrice_replace`).
-/
import OddsEngine.Lib.WeightedMean
import OddsEngine.Engine.FairPrice

namespace OddsEngine

open Lib

namespace Consensus

/-! ## 1. The contributors -/

theorem counts_iff_real (b : BookInput ℝ) : Counts b = true ↔ b.available = true ∧ 0 < b.weight := by
  simp [Counts]

/-- A book contributes if it is available, has weight, and has as many outcomes as the first such
    book. -/
theorem mem_contributors {books : List (BookInput ℝ)} {b : BookInput ℝ} :
    b ∈ contributors books ↔ b ∈ books ∧ Counts b = true ∧
      ∃ b0, books.find? Counts = some b0 ∧ b.count = b0.count := by
  unfold contributors
  cases books.find? Counts with
  | none => simp
  | some b0 => simp [List.mem_filter]

theorem count_of_mem_contributors {books : List (BookInput ℝ)} {b b0 : BookInput ℝ}
    (hf : books.find? Counts = some b0) (hb : b ∈ contributors books) : b.count = b0.count := by
  obtain ⟨-, -, b1, hf1, hcount⟩ := mem_contributors.mp hb
  rw [hf] at hf1
  cases hf1
  exact hcount

theorem weight_pos_of_mem_contributors {books : List (BookInput ℝ)} {b : BookInput ℝ}
    (hb : b ∈ contributors books) : 0 < b.weight :=
  ((counts_iff_real b).mp (mem_contributors.mp hb).2.1).2

theorem contributors_eq_nil_iff (books : List (BookInput ℝ)) :
    contributors books = [] ↔ books.find? Counts = none := by
  constructor
  · intro hnil
    cases hf : books.find? Counts with
    | none => rfl
    | some b0 =>
      have hmem : b0 ∈ contributors books :=
        mem_contributors.mpr ⟨List.mem_of_find?_eq_some hf, List.find?_some hf, b0, hf, rfl⟩
      rw [hnil] at hmem
      exact absurd hmem List.not_mem_nil
  · intro hnone
    unfold contributors
    rw [hnone]

/-! ## 2. The answer -/

/-- The books of `n` outcomes added one after the other. -/
theorem foldl_addBook_eq {n : Nat} (books : List (BookInput ℝ)) (out : ConsensusResult ℝ)
    (hcount : ∀ b ∈ books, b.count.toNat = n) :
    books.foldl addBook out =
      { out with
        prob := fun i => if i.val < n then
          out.prob i + (books.map fun b => b.weight * b.prob i).sum else out.prob i
        totalWeight := out.totalWeight + (books.map BookInput.weight).sum
        booksUsed := out.booksUsed + books.length } := by
  induction books generalizing out with
  | nil => simp
  | cons b books ih =>
    have hb : b.count.toNat = n := hcount b List.mem_cons_self
    rw [List.foldl_cons, ih _ fun x hx => hcount x (List.mem_cons_of_mem b hx)]
    simp only [addBook, hb, List.map_cons, List.sum_cons, List.length_cons,
      ConsensusResult.mk.injEq, true_and]
    refine ⟨funext fun i => ?_, add_assoc _ _ _, by omega⟩
    by_cases hi : i.val < n
    · simp only [if_pos hi, add_assoc]
    · simp only [if_neg hi]

/-- **The whole answer**: the zeroed default where nobody contributes, else the weighted means. -/
theorem fairPrice_eq (books : List (BookInput ℝ)) :
    fairPrice books =
      match books.find? Counts with
      | none => ConsensusResult.init
      | some b0 =>
        { prob := fun i => if i.val < b0.count.toNat then
            weightedMean BookInput.weight (fun b => b.prob i) (contributors books) else 0
          count := b0.count
          hasFairPrice := true
          totalWeight := ((contributors books).map BookInput.weight).sum
          booksUsed := (contributors books).length } := by
  have hfold := foldl_fairStep_init books
  unfold fairPrice
  rw [hfold]
  cases hf : books.find? Counts with
  | none => exact if_pos (le_refl (0 : ℝ))
  | some b0 =>
    have hset : (books.filter fun b => Counts b && b.count == b0.count) = contributors books := by
      unfold contributors
      rw [hf]
    have hcount : ∀ b ∈ contributors books, b.count.toNat = b0.count.toNat :=
      fun b hb => congrArg UInt8.toNat (count_of_mem_contributors hf hb)
    have hweight : 0 < ((contributors books).map BookInput.weight).sum := by
      refine sum_weights_pos (fun b hb => weight_pos_of_mem_contributors hb) fun hnil => ?_
      rw [contributors_eq_nil_iff, hf] at hnil
      cases hnil
    dsimp only
    rw [hset, foldl_addBook_eq _ _ hcount]
    have htotal : (start b0.count : ConsensusResult ℝ).totalWeight = 0 := rfl
    have hprob : ∀ i, (start b0.count : ConsensusResult ℝ).prob i = 0 := fun _ => rfl
    have hused : (start b0.count : ConsensusResult ℝ).booksUsed = 0 := rfl
    simp only [htotal, hprob, hused, zero_add]
    rw [if_neg (not_le.mpr hweight)]
    have hentry : ∀ i : Fin kMaxOutcomes,
        (if i.val < b0.count.toNat then (if i.val < b0.count.toNat then
            ((contributors books).map fun b => b.weight * b.prob i).sum else 0) /
          ((contributors books).map BookInput.weight).sum
        else if i.val < b0.count.toNat then
          ((contributors books).map fun b => b.weight * b.prob i).sum else 0) =
        if i.val < b0.count.toNat then
          weightedMean BookInput.weight (fun b => b.prob i) (contributors books) else 0 := by
      intro i
      by_cases hi : i.val < b0.count.toNat
      · simp only [if_pos hi, weightedMean]
      · simp only [if_neg hi]
    exact congrArg
      (fun prob => (ConsensusResult.mk prob b0.count true _ _ : ConsensusResult ℝ)) (funext hentry)

theorem fairPrice_of_nil {books : List (BookInput ℝ)} (h : contributors books = []) :
    fairPrice books = ConsensusResult.init := by
  rw [fairPrice_eq, (contributors_eq_nil_iff books).mp h]

/-! ## 3. What the mean keeps -/

/-- The mass of the means is the mean of the masses. -/
theorem mass_weightedMean {p : ProbVector ℝ} {n : Nat} {books : List (BookInput ℝ)}
    (hp : ∀ i : Fin kMaxOutcomes, i.val < n →
      p i = weightedMean BookInput.weight (fun b => b.prob i) books) :
    mass p n = weightedMean BookInput.weight (fun b => mass b.prob n) books := by
  unfold mass
  rw [weightedMean_sum]
  refine Finset.sum_congr rfl fun i _ => ?_
  split
  · next hi => exact hp i hi
  · simp [weightedMean]

/-- What a price of the books `S` is. -/
structure MeanOf (S : List (BookInput ℝ)) (r : ConsensusResult ℝ) : Prop where
  hasFairPrice : r.hasFairPrice = true
  booksUsed : r.booksUsed = S.length
  totalWeight : r.totalWeight = (S.map BookInput.weight).sum
  count : ∀ b ∈ S, b.count = r.count
  prob : ∀ i : Fin kMaxOutcomes, i.val < r.count.toNat →
    r.prob i = (S.map fun b => b.weight * b.prob i).sum / (S.map BookInput.weight).sum
  between : ∀ i : Fin kMaxOutcomes, i.val < r.count.toNat → ∀ lo hi : ℝ,
    (∀ b ∈ S, lo ≤ b.prob i ∧ b.prob i ≤ hi) → lo ≤ r.prob i ∧ r.prob i ≤ hi
  beyond : ∀ i : Fin kMaxOutcomes, ¬ i.val < r.count.toNat → r.prob i = 0
  mass : ∀ e : ℝ, (∀ b ∈ S, |mass b.prob r.count.toNat - 1| ≤ e) →
    |mass r.prob r.count.toNat - 1| ≤ e

theorem meanOf_fairPrice {books : List (BookInput ℝ)} (hne : contributors books ≠ []) :
    MeanOf (contributors books) (fairPrice books) := by
  rw [ne_eq, contributors_eq_nil_iff] at hne
  obtain ⟨b0, hf⟩ := Option.ne_none_iff_exists'.mp hne
  have heq := fairPrice_eq books
  rw [hf] at heq
  dsimp only at heq
  have hnonempty : contributors books ≠ [] := by
    rw [ne_eq, contributors_eq_nil_iff, hf]
    exact Option.some_ne_none b0
  have hweight : ∀ b ∈ contributors books, 0 < b.weight :=
    fun b hb => weight_pos_of_mem_contributors hb
  have hprob : ∀ i : Fin kMaxOutcomes, i.val < (fairPrice books).count.toNat →
      (fairPrice books).prob i =
        weightedMean BookInput.weight (fun b => b.prob i) (contributors books) := by
    intro i hi
    rw [heq] at hi ⊢
    exact if_pos hi
  exact {
    hasFairPrice := by rw [heq]
    booksUsed := by rw [heq]
    totalWeight := by rw [heq]
    count := by
      intro b hb
      rw [count_of_mem_contributors hf hb, heq]
    prob := hprob
    between := by
      intro i hi lo up hbounds
      rw [hprob i hi]
      exact ⟨le_weightedMean hweight hnonempty fun b hb => (hbounds b hb).1,
        weightedMean_le hweight hnonempty fun b hb => (hbounds b hb).2⟩
    beyond := by
      intro i hi
      rw [heq] at hi ⊢
      exact if_neg hi
    mass := by
      intro e hmass
      rw [mass_weightedMean hprob, abs_le]
      constructor
      · have hlo : ∀ b ∈ contributors books,
            1 - e ≤ mass b.prob (fairPrice books).count.toNat :=
          fun b hb => by linarith [(abs_le.mp (hmass b hb)).1]
        linarith [le_weightedMean hweight hnonempty hlo]
      · have hhi : ∀ b ∈ contributors books,
            mass b.prob (fairPrice books).count.toNat ≤ 1 + e :=
          fun b hb => by linarith [(abs_le.mp (hmass b hb)).2]
        linarith [weightedMean_le hweight hnonempty hhi] }

/-! ## 4. Books outside -/

/-- A book that does not contribute is not the first that counts. -/
theorem find?_of_not_mem {pre post : List (BookInput ℝ)} {b : BookInput ℝ}
    (h : b ∉ contributors (pre ++ b :: post)) :
    (pre ++ b :: post).find? Counts = (pre ++ post).find? Counts := by
  rw [List.find?_append, List.find?_append]
  cases hpre : pre.find? Counts with
  | some b0 => rfl
  | none =>
    have hb : Counts b = false := by
      refine Bool.eq_false_of_not_eq_true fun hb => h ?_
      refine mem_contributors.mpr ⟨by simp, hb, b, ?_, rfl⟩
      rw [List.find?_append, hpre, List.find?_cons_of_pos hb]
      rfl
    rw [List.find?_cons_of_neg (by rw [hb]; exact Bool.false_ne_true)]

/-- Nor is it missed among the contributors. -/
theorem contributors_of_not_mem {pre post : List (BookInput ℝ)} {b : BookInput ℝ}
    (h : b ∉ contributors (pre ++ b :: post)) :
    contributors (pre ++ b :: post) = contributors (pre ++ post) := by
  have hfind := find?_of_not_mem h
  unfold contributors at h ⊢
  rw [hfind] at h ⊢
  cases hf : (pre ++ post).find? Counts with
  | none => rfl
  | some b0 =>
    rw [hf] at h
    dsimp only at h ⊢
    have hno : ¬ (Counts b && b.count == b0.count) = true :=
      fun hb => h (List.mem_filter.mpr ⟨by simp, hb⟩)
    have hdrop : (b :: post).filter (fun b => Counts b && b.count == b0.count) =
        post.filter fun b => Counts b && b.count == b0.count := List.filter_cons_of_neg hno
    rw [List.filter_append, hdrop, ← List.filter_append]

theorem fairPrice_of_not_mem {pre post : List (BookInput ℝ)} {b : BookInput ℝ}
    (h : b ∉ contributors (pre ++ b :: post)) :
    fairPrice (pre ++ b :: post) = fairPrice (pre ++ post) := by
  rw [fairPrice_eq, fairPrice_eq, find?_of_not_mem h, contributors_of_not_mem h]

/-- Membership goes by availability, weight and count. -/
theorem not_mem_contributors_of_prob {pre post : List (BookInput ℝ)} {b : BookInput ℝ}
    (p : ProbVector ℝ) (h : b ∉ contributors (pre ++ b :: post)) :
    { b with prob := p } ∉ contributors (pre ++ { b with prob := p } :: post) := by
  intro hmem
  obtain ⟨-, hcounts, b1, hf, hcount⟩ := mem_contributors.mp hmem
  have hb : Counts b = true := hcounts
  refine h (mem_contributors.mpr ⟨by simp, hb, ?_⟩)
  rw [List.find?_append] at hf ⊢
  cases hpre : pre.find? Counts with
  | some b0 =>
    rw [hpre] at hf
    cases hf
    exact ⟨b1, rfl, hcount⟩
  | none =>
    rw [List.find?_cons_of_pos hb]
    exact ⟨b, rfl, rfl⟩

/-- **The consensus price**: of any books, it is the weighted mean of the contributors, or the
    zeroed default where there are none; and no book outside them has a say. -/
theorem fairPrice_mean (books : List (BookInput ℝ)) :
    ((fairPrice books).hasFairPrice = true ↔ contributors books ≠ []) ∧
    (contributors books ≠ [] → MeanOf (contributors books) (fairPrice books)) ∧
    (contributors books = [] → fairPrice books = ConsensusResult.init) ∧
    ∀ pre b post, books = pre ++ b :: post → b ∉ contributors books →
      (∀ p, fairPrice (pre ++ { b with prob := p } :: post) = fairPrice books) ∧
      ∀ b', b' ∉ contributors (pre ++ b' :: post) →
        fairPrice (pre ++ b' :: post) = fairPrice books := by
  refine ⟨⟨fun hfair hnil => ?_, fun hne => (meanOf_fairPrice hne).hasFairPrice⟩, meanOf_fairPrice,
    fairPrice_of_nil, ?_⟩
  · rw [fairPrice_of_nil hnil] at hfair
    exact absurd hfair Bool.false_ne_true
  · rintro pre b post rfl hout
    have hrest := fairPrice_of_not_mem hout
    refine ⟨fun p => ?_, fun b' hout' => ?_⟩
    · rw [fairPrice_of_not_mem (not_mem_contributors_of_prob p hout), hrest]
    · rw [fairPrice_of_not_mem hout', hrest]

end Consensus

end OddsEngine
