/-
  File:      OddsEngine/Lib/ErrorSummary.lean
  Subject:   What a list of errors comes to: the sizes, the squares, the largest.

  * `sq_absTotal_le`, `sqTotal_le` -- the mean of the sizes is at most the root of the mean of the
    squares, and this at most the largest (both stated without the root);
  * `largest_le_iff` -- the largest is the least bound, so of a list that is split it is the largest
    of the parts.
-/
import Mathlib.Algebra.BigOperators.Group.List.Basic
import Mathlib.Algebra.Order.BigOperators.Group.List
import Mathlib.Algebra.Order.Field.Basic
import Mathlib.Data.List.Induction
import Mathlib.Tactic.Linarith
import Mathlib.Tactic.Ring

namespace Lib

variable {K : Type*} [Field K] [LinearOrder K] [IsStrictOrderedRing K]

def absTotal (es : List K) : K := (es.map fun e => |e|).sum

def sqTotal (es : List K) : K := (es.map fun e => e * e).sum

def largest (es : List K) : K := es.foldl (fun w e => if w < |e| then |e| else w) 0

omit [IsStrictOrderedRing K] in
theorem absTotal_concat (es : List K) (e : K) : absTotal (es ++ [e]) = absTotal es + |e| := by
  unfold absTotal
  rw [List.map_append, List.sum_append, List.map_singleton, List.sum_singleton]

omit [LinearOrder K] [IsStrictOrderedRing K] in
theorem sqTotal_concat (es : List K) (e : K) : sqTotal (es ++ [e]) = sqTotal es + e * e := by
  unfold sqTotal
  rw [List.map_append, List.sum_append, List.map_singleton, List.sum_singleton]

omit [IsStrictOrderedRing K] in
theorem largest_concat (es : List K) (e : K) :
    largest (es ++ [e]) = if largest es < |e| then |e| else largest es := by
  unfold largest
  rw [List.foldl_append]
  rfl

theorem absTotal_nonneg (es : List K) : 0 ≤ absTotal es :=
  List.sum_nonneg fun x hx => by
    obtain ⟨e, -, rfl⟩ := List.mem_map.mp hx
    exact abs_nonneg e

theorem sqTotal_nonneg (es : List K) : 0 ≤ sqTotal es :=
  List.sum_nonneg fun x hx => by
    obtain ⟨e, -, rfl⟩ := List.mem_map.mp hx
    exact mul_self_nonneg e

omit [IsStrictOrderedRing K] in
/-- **The largest is the least bound** of the errors. -/
theorem largest_le_iff {es : List K} {c : K} :
    largest es ≤ c ↔ 0 ≤ c ∧ ∀ e ∈ es, |e| ≤ c := by
  induction es using List.reverseRecOn with
  | nil => exact ⟨fun h => ⟨h, fun e he => absurd he List.not_mem_nil⟩, And.left⟩
  | append_singleton es e ih =>
    rw [largest_concat]
    constructor
    · intro h
      have hboth : largest es ≤ c ∧ |e| ≤ c := by
        by_cases hlt : largest es < |e|
        · rw [if_pos hlt] at h
          exact ⟨hlt.le.trans h, h⟩
        · rw [if_neg hlt] at h
          exact ⟨h, (not_lt.mp hlt).trans h⟩
      obtain ⟨hc, hes⟩ := ih.mp hboth.1
      refine ⟨hc, fun x hx => ?_⟩
      rcases List.mem_append.mp hx with hx | hx
      · exact hes x hx
      · rw [List.mem_singleton.mp hx]
        exact hboth.2
    · rintro ⟨hc, hall⟩
      have hes := ih.mpr ⟨hc, fun x hx => hall x (List.mem_append_left _ hx)⟩
      have he := hall e (List.mem_append_right _ (List.mem_singleton.mpr rfl))
      split
      · exact he
      · exact hes

omit [IsStrictOrderedRing K] in
theorem largest_nonneg (es : List K) : 0 ≤ largest es := (largest_le_iff.mp (le_refl _)).1

omit [IsStrictOrderedRing K] in
theorem le_largest {es : List K} {e : K} (he : e ∈ es) : |e| ≤ largest es :=
  (largest_le_iff.mp (le_refl _)).2 e he

/-- Twice the product of a sum and one more term, from what is known of the sum. -/
theorem two_mul_le_of_sq_le {A S k a : K} (hk : 0 ≤ k) (hS : 0 ≤ S) (h : A ^ 2 ≤ k * S) :
    2 * (A * a) ≤ S + k * a ^ 2 := by
  rcases hk.eq_or_lt with rfl | hpos
  · rw [zero_mul] at h
    have hA : A = 0 := pow_eq_zero_iff two_ne_zero |>.mp (le_antisymm h (sq_nonneg A))
    rw [hA, zero_mul, mul_zero, zero_mul, add_zero]
    exact hS
  · have hsquare : 0 ≤ (A - k * a) ^ 2 := sq_nonneg _
    have hscaled : k * (2 * (A * a)) ≤ k * (S + k * a ^ 2) := by
      calc k * (2 * (A * a)) = A ^ 2 + (k * a) ^ 2 - (A - k * a) ^ 2 := by ring
        _ ≤ k * S + (k * a) ^ 2 := by linarith
        _ = k * (S + k * a ^ 2) := by ring
    exact le_of_mul_le_mul_left hscaled hpos

/-- **The mean of the sizes is at most the root of the mean square.** -/
theorem sq_absTotal_le (es : List K) : absTotal es ^ 2 ≤ es.length * sqTotal es := by
  induction es using List.reverseRecOn with
  | nil => simp [absTotal, sqTotal]
  | append_singleton es e ih =>
    have hcross := two_mul_le_of_sq_le (a := |e|) (Nat.cast_nonneg es.length) (sqTotal_nonneg es) ih
    have habs : |e| ^ 2 = e * e := by rw [sq_abs, sq]
    rw [absTotal_concat, sqTotal_concat, List.length_append, List.length_singleton, Nat.cast_add,
      Nat.cast_one]
    calc (absTotal es + |e|) ^ 2 = absTotal es ^ 2 + 2 * (absTotal es * |e|) + |e| ^ 2 := by ring
      _ ≤ es.length * sqTotal es + (sqTotal es + es.length * |e| ^ 2) + |e| ^ 2 := by linarith
      _ = (es.length + 1) * (sqTotal es + e * e) := by rw [habs]; ring

/-- **The mean square is at most the square of the largest.** -/
theorem sqTotal_le (es : List K) : sqTotal es ≤ es.length * largest es ^ 2 := by
  have heach : ∀ x ∈ es.map fun e => e * e, x ≤ largest es ^ 2 := by
    intro x hx
    obtain ⟨e, he, rfl⟩ := List.mem_map.mp hx
    rw [← sq, ← sq_abs]
    exact pow_le_pow_left₀ (abs_nonneg e) (le_largest he) 2
  have hsum := List.sum_le_card_nsmul _ _ heach
  rw [List.length_map, nsmul_eq_mul] at hsum
  exact hsum

end Lib
