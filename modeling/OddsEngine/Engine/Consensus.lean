/-
  File:      OddsEngine/Engine/Consensus.lean
  Subject:   The consensus fair price of one market (engine/Consensus.hpp).

  A weighted average of the books' probability vectors. `fairPrice` walks the books once: the
  first book that counts fixes the number of outcomes, later ones with another number are skipped.
  `fairPrice_contributors` says which books that is: the price is the price of the CONTRIBUTORS
  alone, the usable books whose count is the first usable book's.

  The vectors have four places. `devig` never counts more; of a larger count the loops of the source
  run past the end of the arrays, which the model does not follow: it goes over the four there are.
-/
import OddsEngine.Engine.Devig

namespace OddsEngine

open Lib

structure BookInput (F : Type) where
  prob : ProbVector F
  count : UInt8
  weight : F
  /-- `false` keeps the book out of the average, whatever the reason. -/
  available : Bool

structure ConsensusResult (F : Type) where
  prob : ProbVector F
  count : UInt8
  hasFairPrice : Bool
  totalWeight : F
  booksUsed : Nat

variable {F : Type} [DoubleArith F]

/-- `BookInput{}`. -/
def BookInput.init : BookInput F :=
  { prob := fun _ => 0, count := 0, weight := 0, available := false }

/-- `ConsensusResult{}`. -/
def ConsensusResult.init : ConsensusResult F :=
  { prob := fun _ => 0, count := 0, hasFairPrice := false, totalWeight := 0, booksUsed := 0 }

namespace Consensus

/-- A book that is not passed over at once. -/
def Counts (b : BookInput F) : Bool := !(!b.available || decide (b.weight ≤ 0))

/-- A contributing book, added in (`count` is four at most, see above). -/
def addBook (out : ConsensusResult F) (b : BookInput F) : ConsensusResult F :=
  { out with
    prob := fun i => if i.val < b.count.toNat then out.prob i + b.weight * b.prob i else out.prob i
    totalWeight := out.totalWeight + b.weight
    booksUsed := out.booksUsed + 1 }

/-- One round of the loop over the books. -/
def fairStep (out : ConsensusResult F) (b : BookInput F) : ConsensusResult F :=
  if !Counts b then out
  else if out.booksUsed = 0 then addBook { out with count := b.count } b
  else if b.count ≠ out.count then out
  else addBook out b

def fairPrice (books : List (BookInput F)) : ConsensusResult F :=
  let out := books.foldl fairStep ConsensusResult.init
  if out.totalWeight ≤ 0 then ConsensusResult.init
  else
    { out with
      prob := fun i => if i.val < out.count.toNat then out.prob i / out.totalWeight else out.prob i
      hasFairPrice := true }

/-! ## Who contributes -/

/-- The usable books whose count is the first usable book's. -/
def contributors (books : List (BookInput F)) : List (BookInput F) :=
  match books.find? Counts with
  | none => []
  | some b0 => books.filter fun b => Counts b && b.count == b0.count

theorem fairStep_of_not_counts (out : ConsensusResult F) (b : BookInput F)
    (h : Counts b = false) : fairStep out b = out := by
  unfold fairStep
  rw [if_pos (by rw [h]; rfl)]

theorem fairStep_of_mismatch (out : ConsensusResult F) (b : BookInput F)
    (hused : out.booksUsed ≠ 0) (h : b.count ≠ out.count) : fairStep out b = out := by
  unfold fairStep
  rw [if_neg hused, if_pos h, ite_self]

theorem fairStep_of_match (out : ConsensusResult F) (b : BookInput F)
    (hc : Counts b = true) (hused : out.booksUsed ≠ 0) (h : b.count = out.count) :
    fairStep out b = addBook out b := by
  unfold fairStep
  rw [if_neg (by rw [hc]; decide), if_neg hused, if_neg (fun hn => hn h)]

/-- The first usable book fixes the count. -/
theorem fairStep_first (out : ConsensusResult F) (b : BookInput F) (hc : Counts b = true)
    (hunused : out.booksUsed = 0) :
    fairStep out b = addBook { out with count := b.count } b := by
  unfold fairStep
  rw [if_neg (by rw [hc]; decide), if_pos hunused]

/-- The accumulator before any book, the count already fixed. -/
def start (n : UInt8) : ConsensusResult F :=
  { (ConsensusResult.init : ConsensusResult F) with count := n }

theorem fairStep_init (b : BookInput F) (hc : Counts b = true) :
    fairStep ConsensusResult.init b = addBook (start b.count) b :=
  fairStep_first _ b hc rfl

/-- Once a book was used, the loop adds the books of its count and passes the others over. -/
theorem foldl_fairStep_of_used (books : List (BookInput F)) (out : ConsensusResult F)
    (h : out.booksUsed ≠ 0) :
    books.foldl fairStep out =
      (books.filter fun b => Counts b && b.count == out.count).foldl addBook out := by
  induction books generalizing out with
  | nil => rfl
  | cons b books ih =>
    rw [List.foldl_cons]
    by_cases hc : Counts b = true
    · by_cases hn : b.count = out.count
      · rw [fairStep_of_match out b hc h hn, ih _ (Nat.succ_ne_zero _),
          List.filter_cons_of_pos (by rw [hc, hn]; exact beq_self_eq_true _)]
        rfl
      · rw [fairStep_of_mismatch out b h hn, ih out h,
          List.filter_cons_of_neg (by simp only [hc, Bool.true_and, beq_iff_eq]; exact hn)]
    · rw [fairStep_of_not_counts out b (Bool.eq_false_of_not_eq_true hc), ih out h,
        List.filter_cons_of_neg (by simp [hc])]

/-- The loop over the books is the sum over the contributors. -/
theorem foldl_fairStep_init (books : List (BookInput F)) :
    books.foldl fairStep (ConsensusResult.init : ConsensusResult F) =
      match books.find? Counts with
      | none => ConsensusResult.init
      | some b0 => (books.filter fun b => Counts b && b.count == b0.count).foldl addBook
          (start b0.count) := by
  induction books with
  | nil => rfl
  | cons b books ih =>
    rw [List.foldl_cons]
    by_cases hc : Counts b = true
    · rw [fairStep_init b hc, List.find?_cons_of_pos hc,
        foldl_fairStep_of_used _ _ (Nat.succ_ne_zero _)]
      show _ = List.foldl addBook (start b.count) _
      rw [List.filter_cons_of_pos (by rw [hc]; exact beq_self_eq_true _)]
      rfl
    · rw [fairStep_of_not_counts _ b (Bool.eq_false_of_not_eq_true hc), ih,
        List.find?_cons_of_neg hc]
      cases books.find? Counts with
      | none => rfl
      | some b0 =>
        show List.foldl addBook _ _ = List.foldl addBook _ _
        rw [List.filter_cons_of_neg (by simp [hc])]

/-- The first usable book is also the contributors' first usable book. -/
theorem find?_contributors (books : List (BookInput F)) :
    (contributors books).find? Counts = books.find? Counts := by
  unfold contributors
  cases hf : books.find? Counts with
  | none => rfl
  | some b0 =>
    show (books.filter fun b => Counts b && b.count == b0.count).find? Counts = some b0
    obtain ⟨hb0, pre, post, rfl, hpre⟩ := List.find?_eq_some_iff_append.mp hf
    have hnil : (pre.filter fun b => Counts b && b.count == b0.count) = [] := by
      rw [List.filter_eq_nil_iff]
      intro b hb hcount
      have := hpre b hb
      simp_all
    rw [List.filter_append, hnil, List.nil_append,
      List.filter_cons_of_pos (by rw [hb0]; exact beq_self_eq_true _), List.find?_cons_of_pos hb0]

/-- **The price is the price of the contributors alone.** -/
theorem fairPrice_contributors (books : List (BookInput F)) :
    fairPrice books = fairPrice (contributors books) := by
  have h : books.foldl fairStep (ConsensusResult.init : ConsensusResult F) =
      (contributors books).foldl fairStep ConsensusResult.init := by
    rw [foldl_fairStep_init books, foldl_fairStep_init (contributors books), find?_contributors]
    unfold contributors
    cases books.find? Counts with
    | none => rfl
    | some b0 =>
      show List.foldl addBook _ _ = List.foldl addBook _ _
      rw [List.filter_filter]
      congr 2
      funext b
      exact (Bool.and_self _).symm
  unfold fairPrice
  rw [h]

/-! ## Counts and weights -/

theorem fairStep_count_le {n : Nat} {out : ConsensusResult F} {b : BookInput F}
    (hout : out.count.toNat ≤ n) (hb : b.count.toNat ≤ n) : (fairStep out b).count.toNat ≤ n := by
  unfold fairStep
  split
  · exact hout
  · split
    · exact hb
    · split
      · exact hout
      · exact hout

/-- The price has no more entries than the books have. -/
theorem fairPrice_count_le {n : Nat} {books : List (BookInput F)}
    (h : ∀ b ∈ books, b.count.toNat ≤ n) : (fairPrice books).count.toNat ≤ n := by
  have hfold : ∀ out : ConsensusResult F, out.count.toNat ≤ n →
      (books.foldl fairStep out).count.toNat ≤ n := by
    intro out hout
    induction books generalizing out with
    | nil => exact hout
    | cons b books ih =>
      exact ih (fun x hx => h x (List.mem_cons_of_mem b hx)) _
        (fairStep_count_le hout (h b List.mem_cons_self))
  unfold fairPrice
  dsimp only
  split
  · exact Nat.zero_le n
  · exact hfold _ (Nat.zero_le n)

/-- What the weight 1 of every contributing book needs of the arithmetic: one is positive, and
    stays so when more ones are added. -/
class UnitWeights (F : Type) [DoubleArith F] : Prop where
  zero_le : (0 : F) ≤ 0
  one_pos : ¬ (1 : F) ≤ 0
  zero_add_one_pos : ¬ (0 : F) + 1 ≤ 0
  add_one_pos : ∀ x : F, ¬ x ≤ 0 → ¬ x + 1 ≤ 0

instance : UnitWeights ℝ where
  zero_le := le_refl (0 : ℝ)
  one_pos := by norm_num
  zero_add_one_pos := by norm_num
  add_one_pos x hx := by linarith

/-- A book as `process_tick` fills it in: unavailable, or of weight 1. -/
def UnitBook (b : BookInput F) : Prop := b.available = true → b.weight = 1

theorem counts_iff [UnitWeights F] {b : BookInput F} (h : UnitBook b) :
    Counts b = true ↔ b.available = true := by
  unfold Counts
  cases ha : b.available with
  | false => simp
  | true =>
    have hw : ¬ b.weight ≤ 0 := by
      rw [h ha]
      exact UnitWeights.one_pos
    simp [hw]

/-- Adding books of weight 1 keeps a positive weight positive. -/
theorem foldl_addBook_pos [UnitWeights F] {books : List (BookInput F)}
    (h : ∀ b ∈ books, b.weight = 1) {out : ConsensusResult F} (hout : ¬ out.totalWeight ≤ 0) :
    ¬ (books.foldl addBook out).totalWeight ≤ 0 := by
  induction books generalizing out with
  | nil => exact hout
  | cons b books ih =>
    refine ih (fun x hx => h x (List.mem_cons_of_mem b hx)) ?_
    have hb : b.weight = 1 := h b List.mem_cons_self
    show ¬ out.totalWeight + b.weight ≤ 0
    rw [hb]
    exact UnitWeights.add_one_pos _ hout

/-- **There is a price exactly when some book is available.** -/
theorem hasFairPrice_iff [UnitWeights F] {books : List (BookInput F)}
    (h : ∀ b ∈ books, UnitBook b) :
    (fairPrice books).hasFairPrice = true ↔ ∃ b ∈ books, b.available = true := by
  have hprice : (fairPrice books).hasFairPrice = true ↔
      ¬ (books.foldl fairStep (ConsensusResult.init : ConsensusResult F)).totalWeight ≤ 0 := by
    unfold fairPrice
    dsimp only
    split
    · next ht => exact ⟨fun e => absurd e Bool.false_ne_true, fun hn => absurd ht hn⟩
    · next ht => exact ⟨fun _ => ht, fun _ => rfl⟩
  rw [hprice, foldl_fairStep_init]
  cases hf : books.find? Counts with
  | none =>
    have hnone := List.find?_eq_none.mp hf
    refine ⟨fun hn => absurd UnitWeights.zero_le hn, fun ⟨b, hb, ha⟩ => ?_⟩
    exact absurd ((counts_iff (h b hb)).mpr ha) (hnone b hb)
  | some b0 =>
    have hb0 : Counts b0 = true := List.find?_some hf
    have hmem : b0 ∈ books := List.mem_of_find?_eq_some hf
    refine ⟨fun _ => ⟨b0, hmem, (counts_iff (h b0 hmem)).mp hb0⟩, fun _ => ?_⟩
    have hone : ∀ b ∈ books.filter (fun b => Counts b && b.count == b0.count), b.weight = 1 := by
      intro b hb
      obtain ⟨hb, hc⟩ := List.mem_filter.mp hb
      rw [Bool.and_eq_true] at hc
      exact h b hb ((counts_iff (h b hb)).mp hc.1)
    show ¬ (List.foldl addBook (start b0.count) _).totalWeight ≤ 0
    cases hl : books.filter (fun b => Counts b && b.count == b0.count) with
    | nil =>
      have hin : b0 ∈ books.filter (fun b => Counts b && b.count == b0.count) :=
        List.mem_filter.mpr ⟨hmem, by rw [hb0]; exact beq_self_eq_true _⟩
      rw [hl] at hin
      exact absurd hin List.not_mem_nil
    | cons c cs =>
      rw [hl] at hone
      refine foldl_addBook_pos (fun x hx => hone x (List.mem_cons_of_mem c hx)) ?_
      have hc : c.weight = 1 := hone c List.mem_cons_self
      show ¬ (0 : F) + c.weight ≤ 0
      rw [hc]
      exact UnitWeights.zero_add_one_pos

/-! ## Books passed over -/

/-- Once a book was used the number of outcomes is fixed. -/
theorem foldl_fairStep_count {books : List (BookInput F)} {out : ConsensusResult F}
    (h : out.booksUsed ≠ 0) : (books.foldl fairStep out).count = out.count := by
  rw [foldl_fairStep_of_used books out h]
  generalize books.filter (fun b => Counts b && b.count == out.count) = used
  have hcount : ∀ out : ConsensusResult F, (used.foldl addBook out).count = out.count := by
    induction used with
    | nil => exact fun _ => rfl
    | cons b used ih => exact fun out => ih (addBook out b)
  exact hcount out

/-- A book of another number of outcomes than the price's is passed over where it stands. -/
theorem fairStep_of_count_ne {pre post : List (BookInput F)} {b : BookInput F}
    (hfair : (fairPrice (pre ++ b :: post)).hasFairPrice = true)
    (hne : b.count ≠ (fairPrice (pre ++ b :: post)).count) :
    fairStep (pre.foldl fairStep ConsensusResult.init) b =
      pre.foldl fairStep ConsensusResult.init := by
  have hcount : (fairPrice (pre ++ b :: post)).count =
      ((pre ++ b :: post).foldl fairStep (ConsensusResult.init : ConsensusResult F)).count := by
    unfold fairPrice at hfair ⊢
    dsimp only at hfair ⊢
    split at hfair
    · exact absurd hfair Bool.false_ne_true
    · next ht => rw [if_neg ht]
  rw [hcount, List.foldl_append, List.foldl_cons] at hne
  by_cases hc : Counts b = true
  · -- a book that is added leaves its own count to the end
    have hadded : ∀ out : ConsensusResult F,
        (post.foldl fairStep (addBook out b)).count = out.count :=
      fun out => foldl_fairStep_count (Nat.succ_ne_zero _)
    by_cases hused : (pre.foldl fairStep (ConsensusResult.init : ConsensusResult F)).booksUsed = 0
    · rw [fairStep_first _ b hc hused, hadded] at hne
      exact absurd rfl hne
    · refine fairStep_of_mismatch _ b hused fun heq => ?_
      rw [fairStep_of_match _ b hc hused heq, hadded] at hne
      exact hne heq
  · exact fairStep_of_not_counts _ b (Bool.eq_false_of_not_eq_true hc)

/-- A book passed over could as well not be available. -/
theorem fairPrice_passed_over {pre post : List (BookInput F)} {b : BookInput F}
    (h : Counts b = false ∨ (fairPrice (pre ++ b :: post)).hasFairPrice = true ∧
      b.count ≠ (fairPrice (pre ++ b :: post)).count) :
    fairPrice (pre ++ b :: post) = fairPrice (pre ++ BookInput.init :: post) := by
  have hstep : fairStep (pre.foldl fairStep ConsensusResult.init) b =
      pre.foldl fairStep ConsensusResult.init := by
    rcases h with hc | ⟨hfair, hne⟩
    · exact fairStep_of_not_counts _ b hc
    · exact fairStep_of_count_ne hfair hne
  have hinit : fairStep (pre.foldl fairStep ConsensusResult.init) BookInput.init =
      (pre.foldl fairStep ConsensusResult.init : ConsensusResult F) :=
    fairStep_of_not_counts _ _ rfl
  unfold fairPrice
  rw [List.foldl_append, List.foldl_cons, hstep, List.foldl_append, List.foldl_cons, hinit]

end Consensus

end OddsEngine
