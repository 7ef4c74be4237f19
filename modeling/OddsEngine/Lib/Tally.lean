/-
  File:      OddsEngine/Lib/Tally.lean
  Subject:   Sums over a log to which some entries contribute and others do not.

  * `total_concat` -- one more entry adds what it contributes;
  * `sum_total_within` -- what goes into some of the buckets adds up to what these buckets got.
-/
import Mathlib.Algebra.BigOperators.Group.Finset.Piecewise
import Mathlib.Algebra.BigOperators.Group.List.Basic

namespace Lib

variable {α κ M : Type} [AddCommMonoid M]

/-- What the entries contribute, together. -/
def total (f : α → Option M) (xs : List α) : M := (xs.map fun x => (f x).getD 0).sum

@[simp] theorem total_nil (f : α → Option M) : total f [] = 0 := rfl

theorem total_cons (f : α → Option M) (x : α) (xs : List α) :
    total f (x :: xs) = (f x).getD 0 + total f xs := List.sum_cons

theorem total_concat (f : α → Option M) (xs : List α) (x : α) :
    total f (xs ++ [x]) = total f xs + (f x).getD 0 := by
  unfold total
  rw [List.map_append, List.sum_append, List.map_singleton, List.sum_singleton]

theorem total_congr {f g : α → Option M} {xs : List α}
    (h : ∀ x ∈ xs, (f x).getD 0 = (g x).getD 0) : total f xs = total g xs :=
  congrArg List.sum (List.map_congr_left h)

theorem total_some (f : α → M) (xs : List α) : total (fun x => some (f x)) xs = (xs.map f).sum := rfl

/-- The entries of one bucket. -/
def within [DecidableEq κ] (key : α → Option κ) (b : κ) (f : α → Option M) (x : α) : Option M :=
  if key x = some b then f x else none

omit [AddCommMonoid M] in
theorem within_of_none [DecidableEq κ] {key : α → Option κ} {b : κ} {f : α → Option M} {x : α}
    (h : f x = none) : within key b f x = none := by
  unfold within
  rw [h]
  exact ite_self none

/-- **The buckets add up**: each entry is in one of them at most. -/
theorem sum_total_within [DecidableEq κ] (key : α → Option κ) (f : α → Option M) (S : Finset κ)
    (xs : List α) :
    ∑ b ∈ S, total (within key b f) xs =
      total (fun x => (key x).bind fun b => if b ∈ S then f x else none) xs := by
  induction xs with
  | nil => simp
  | cons x xs ih =>
    have hone : ∑ b ∈ S, (within key b f x).getD 0 =
        ((key x).bind fun b => if b ∈ S then f x else none).getD 0 := by
      unfold within
      cases hkey : key x with
      | none => simp
      | some k =>
        have hpick : ∀ b, (if some k = some b then f x else none).getD 0 =
            if k = b then (f x).getD 0 else 0 := by
          intro b
          by_cases hb : k = b
          · simp [hb]
          · simp [hb]
        simp only [hpick, Finset.sum_ite_eq, Option.bind_some]
        by_cases hk : k ∈ S
        · simp [hk]
        · simp [hk]
    simp only [total_cons, Finset.sum_add_distrib]
    rw [hone, ih]

end Lib
