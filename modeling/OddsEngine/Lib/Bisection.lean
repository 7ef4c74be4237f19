/-
  File:      OddsEngine/Lib/Bisection.lean
  Subject:   Bisection on a bracket of real numbers.

  A bracket holds a sign change of `g`. Wherever it is cut, one of the parts still does
  (`Brackets.narrow`); a round cuts it in the middle (`Brackets.halve`) and halves its width. A
  decreasing `g` has its one root in every bracket (`Brackets.root_mem`). Where `g` is Lipschitz the values at the two ends cannot stay apart, so some
  middle meets any tolerance, in a number of rounds known beforehand (`Brackets.exists_abs_lt`).
-/
import Mathlib.Algebra.Order.Field.Basic
import Mathlib.Data.Real.Basic
import Mathlib.Order.Interval.Set.Basic
import Mathlib.Tactic.Linarith
import Mathlib.Tactic.NormNum
import Mathlib.Tactic.Ring
import Mathlib.Topology.Instances.Real.Lemmas
import Mathlib.Topology.Order.IntermediateValue

namespace Lib

noncomputable def middle (b : ℝ × ℝ) : ℝ := 0.5 * (b.1 + b.2)

/-- The part of a bracket cut at `x` that holds the sign change. -/
noncomputable def narrow (g : ℝ → ℝ) (b : ℝ × ℝ) (x : ℝ) : ℝ × ℝ :=
  (if 0 < g x then x else b.1, if 0 < g x then b.2 else x)

/-- One round. -/
noncomputable def halve (g : ℝ → ℝ) (b : ℝ × ℝ) : ℝ × ℝ :=
  (if 0 < g (middle b) then middle b else b.1, if 0 < g (middle b) then b.2 else middle b)

/-- The bracket after `n` rounds. -/
noncomputable def bracket (g : ℝ → ℝ) (b : ℝ × ℝ) (n : Nat) : ℝ × ℝ := (halve g)^[n] b

@[simp] theorem bracket_zero (g : ℝ → ℝ) (b : ℝ × ℝ) : bracket g b 0 = b := rfl

theorem bracket_succ (g : ℝ → ℝ) (b : ℝ × ℝ) (n : Nat) :
    bracket g b (n + 1) = halve g (bracket g b n) :=
  Function.iterate_succ_apply' _ _ _

theorem bracket_halve (g : ℝ → ℝ) (b : ℝ × ℝ) (n : Nat) :
    bracket g (halve g b) n = bracket g b (n + 1) :=
  (Function.iterate_succ_apply _ _ _).symm

theorem halve_of_pos {g : ℝ → ℝ} {b : ℝ × ℝ} (h : 0 < g (middle b)) :
    halve g b = (middle b, b.2) := by
  simp [halve, h]

theorem halve_of_nonpos {g : ℝ → ℝ} {b : ℝ × ℝ} (h : g (middle b) ≤ 0) :
    halve g b = (b.1, middle b) := by
  simp [halve, h.not_gt]

/-- `g` is positive at the lower end and not at the upper one. -/
structure Brackets (g : ℝ → ℝ) (b : ℝ × ℝ) : Prop where
  lt : b.1 < b.2
  pos : 0 < g b.1
  nonpos : g b.2 ≤ 0

section Rounds

variable {g : ℝ → ℝ} {b : ℝ × ℝ}

theorem Brackets.lt_middle (h : Brackets g b) : b.1 < middle b := by
  unfold middle
  linarith [h.lt]

theorem Brackets.middle_lt (h : Brackets g b) : middle b < b.2 := by
  unfold middle
  linarith [h.lt]

/-- **Cut anywhere, a bracket keeps the sign change.** -/
theorem Brackets.narrow (h : Brackets g b) {x : ℝ} (hlo : b.1 < x) (hhi : x < b.2) :
    Brackets g (narrow g b x) := by
  unfold Lib.narrow
  by_cases hg : 0 < g x
  · rw [if_pos hg, if_pos hg]
    exact ⟨hhi, hg, h.nonpos⟩
  · rw [if_neg hg, if_neg hg]
    exact ⟨hlo, h.pos, not_lt.mp hg⟩

/-- **A round keeps the sign change.** -/
theorem Brackets.halve (h : Brackets g b) : Brackets g (halve g b) :=
  h.narrow h.lt_middle h.middle_lt

/-- A root of a decreasing function is in the bracket. -/
theorem Brackets.root_mem (h : Brackets g b) (hg : StrictAnti g) {x : ℝ} (hx : g x = 0) :
    b.1 < x ∧ x ≤ b.2 := by
  constructor
  · exact hg.lt_iff_gt.mp (by rw [hx]; exact h.pos)
  · exact hg.le_iff_ge.mp (by rw [hx]; exact h.nonpos)

/-- Where it is continuous too, there is one and no other. -/
theorem Brackets.exists_root (h : Brackets g b) (hg : StrictAnti g) (hc : Continuous g) :
    ∃ root, ∀ x, g x = 0 ↔ x = root := by
  obtain ⟨root, -, hroot⟩ := intermediate_value_Icc' h.lt.le hc.continuousOn ⟨h.nonpos, h.pos.le⟩
  refine ⟨root, fun x => ⟨fun hx => hg.injective (hx.trans hroot.symm), ?_⟩⟩
  rintro rfl
  exact hroot

theorem width_halve (g : ℝ → ℝ) (b : ℝ × ℝ) :
    (Lib.halve g b).2 - (Lib.halve g b).1 = (b.2 - b.1) / 2 := by
  by_cases hg : 0 < g (middle b)
  · rw [halve_of_pos hg, middle]
    ring
  · rw [halve_of_nonpos (not_lt.mp hg), middle]
    ring

/-- **So do all of them.** -/
theorem Brackets.bracket (h : Brackets g b) (n : Nat) : Brackets g (bracket g b n) := by
  induction n with
  | zero => exact h
  | succ n ih =>
    rw [bracket_succ]
    exact ih.halve

theorem width_bracket (g : ℝ → ℝ) (b : ℝ × ℝ) (n : Nat) :
    (Lib.bracket g b n).2 - (Lib.bracket g b n).1 = (b.2 - b.1) / 2 ^ n := by
  induction n with
  | zero => simp
  | succ n ih => rw [bracket_succ, width_halve, ih, pow_succ, div_div]

/-- The brackets lie within each other. -/
theorem Brackets.within (h : Brackets g b) (n : Nat) :
    b.1 ≤ (Lib.bracket g b n).1 ∧ (Lib.bracket g b n).2 ≤ b.2 := by
  induction n with
  | zero => simp
  | succ n ih =>
    have hn := h.bracket n
    rw [bracket_succ]
    by_cases hg : 0 < g (middle (Lib.bracket g b n))
    · rw [halve_of_pos hg]
      exact ⟨ih.1.trans hn.lt_middle.le, ih.2⟩
    · rw [halve_of_nonpos (not_lt.mp hg)]
      exact ⟨ih.1, hn.middle_lt.le.trans ih.2⟩

/-- As long as no middle meets the tolerance, the values at the two ends stay that far apart. -/
theorem Brackets.gap (h : Brackets g b) {tolerance : ℝ} (n : Nat)
    (hmiss : ∀ j ≤ n, tolerance ≤ |g (middle (Lib.bracket g b j))|) :
    tolerance ≤ g (Lib.bracket g b (n + 1)).1 - g (Lib.bracket g b (n + 1)).2 := by
  have hn := h.bracket n
  have hlast := hmiss n le_rfl
  rw [bracket_succ]
  by_cases hg : 0 < g (middle (Lib.bracket g b n))
  · rw [halve_of_pos hg]
    rw [abs_of_pos hg] at hlast
    have hhi := hn.nonpos
    dsimp only
    linarith
  · rw [halve_of_nonpos (not_lt.mp hg)]
    rw [abs_of_nonpos (not_lt.mp hg)] at hlast
    have hlo := hn.pos
    dsimp only
    linarith

/-- **Enough rounds meet the tolerance**, where `g` is Lipschitz. -/
theorem Brackets.exists_abs_lt (h : Brackets g b) {lipschitz tolerance : ℝ}
    (hlip : ∀ x ∈ Set.Icc b.1 b.2, ∀ y ∈ Set.Icc b.1 b.2, g x - g y ≤ lipschitz * |x - y|) {n : Nat}
    (hn : lipschitz * (b.2 - b.1) < tolerance * 2 ^ (n + 1)) :
    ∃ j ≤ n, |g (middle (Lib.bracket g b j))| < tolerance := by
  by_contra hmiss
  have hmiss' : ∀ j ≤ n, tolerance ≤ |g (middle (Lib.bracket g b j))| := by
    intro j hj
    by_contra hlt
    exact hmiss ⟨j, hj, not_le.mp hlt⟩
  have hgap := h.gap n hmiss'
  have hend := h.bracket (n + 1)
  obtain ⟨hlo, hhi⟩ := h.within (n + 1)
  have hwidth := width_bracket g b (n + 1)
  have hclose := hlip _ ⟨hlo, hend.lt.le.trans hhi⟩ _ ⟨hlo.trans hend.lt.le, hhi⟩
  rw [abs_sub_comm, abs_of_pos (sub_pos.mpr hend.lt), hwidth, mul_div_assoc', le_div_iff₀
    (by positivity)] at hclose
  have hpow : (0 : ℝ) < 2 ^ (n + 1) := by positivity
  have hmul := mul_le_mul_of_nonneg_right hgap hpow.le
  linarith

end Rounds

end Lib
