/-
  File:      OddsEngine/Lib/Checked.lean
  Subject:   Arrays of a fixed length, with subscripts that can miss.

  An array of length `n` is a function on `Fin n`. A program subscripts it with a plain number;
  a subscript that is not below `n` is a FAULT, and nothing after it is defined. `rd` and `wr`
  are the two accesses, `forRange` the counting loop around them. A loop that touches one entry
  each time, at its own index, either runs to its end and has worked entry by entry, or faults at
  the first index past the array (`forRange_pointwise`).
-/
import Mathlib.Data.Fintype.Basic
import Mathlib.Logic.Function.Basic

namespace Lib

/-- A subscript outside an array: the index and the array's length. -/
structure OutOfBounds where
  index : Nat
  length : Nat
  deriving DecidableEq, Repr

variable {α β σ : Type} {n : Nat}

/-- Read `a[i]`. -/
def rd (a : Fin n → α) (i : Nat) : Except OutOfBounds α :=
  if h : i < n then .ok (a ⟨i, h⟩) else .error ⟨i, n⟩

/-- Write `a[i] = x`. -/
def wr (a : Fin n → α) (i : Nat) (x : α) : Except OutOfBounds (Fin n → α) :=
  if h : i < n then .ok (Function.update a ⟨i, h⟩ x) else .error ⟨i, n⟩

theorem rd_of_lt (a : Fin n → α) {i : Nat} (h : i < n) : rd a i = .ok (a ⟨i, h⟩) := dif_pos h

theorem rd_of_not_lt (a : Fin n → α) {i : Nat} (h : ¬ i < n) : rd a i = .error ⟨i, n⟩ := dif_neg h

theorem wr_of_lt (a : Fin n → α) {i : Nat} (h : i < n) (x : α) :
    wr a i x = .ok (Function.update a ⟨i, h⟩ x) := dif_pos h

/-- A computation that touches no array outside its bounds. -/
def Safe (x : Except OutOfBounds α) : Prop := ∃ a, x = .ok a

@[simp] theorem safe_ok (a : α) : Safe (.ok a : Except OutOfBounds α) := ⟨a, rfl⟩

@[simp] theorem not_safe_error (e : OutOfBounds) : ¬ Safe (.error e : Except OutOfBounds α) :=
  fun ⟨_, h⟩ => nomatch h

/-- The loop `for (i = 0; i < k; ++i)`. -/
def forRange (k : Nat) (body : σ → Nat → Except OutOfBounds σ) (s : σ) : Except OutOfBounds σ :=
  (List.range k).foldlM body s

@[simp] theorem forRange_zero (body : σ → Nat → Except OutOfBounds σ) (s : σ) :
    forRange 0 body s = .ok s := rfl

theorem forRange_succ (k : Nat) (body : σ → Nat → Except OutOfBounds σ) (s : σ) :
    forRange (k + 1) body s = forRange k body s >>= fun s' => body s' k := by
  simp [forRange, List.range_succ, List.foldlM_append]

/-- The array after the first `k` rounds of a loop that turns each entry it meets into
    `f i (a i)`. -/
def upTo (k : Nat) (f : Fin n → α → α) (a : Fin n → α) : Fin n → α :=
  fun i => if i.val < k then f i (a i) else a i

/-- **A loop over the entries of an array works entry by entry, as far as the array goes.** -/
theorem forRange_pointwise (f : Fin n → α → α)
    (body : (Fin n → α) → Nat → Except OutOfBounds (Fin n → α))
    (hbody : ∀ a i (h : i < n), body a i = .ok (Function.update a ⟨i, h⟩ (f ⟨i, h⟩ (a ⟨i, h⟩))))
    {k : Nat} (hk : k ≤ n) (a : Fin n → α) : forRange k body a = .ok (upTo k f a) := by
  induction k with
  | zero =>
    rw [forRange_zero]
    congr 1
  | succ k ih =>
    have hlt : k < n := hk
    rw [forRange_succ, ih (by omega)]
    show body (upTo k f a) k = _
    rw [hbody _ _ hlt]
    congr 1
    funext i
    by_cases hik : i = ⟨k, hlt⟩
    · subst hik
      simp [upTo]
    · have hne : i.val ≠ k := fun e => hik (Fin.ext e)
      rw [Function.update_of_ne hik]
      simp only [upTo]
      by_cases h : i.val < k
      · rw [if_pos h, if_pos (by omega)]
      · rw [if_neg h, if_neg (by omega)]

/-- A loop that runs past the array faults. -/
theorem forRange_fault (body : (Fin n → α) → Nat → Except OutOfBounds (Fin n → α))
    (f : Fin n → α → α)
    (hbody : ∀ a i (h : i < n), body a i = .ok (Function.update a ⟨i, h⟩ (f ⟨i, h⟩ (a ⟨i, h⟩))))
    (hpast : ∀ a, body a n = .error ⟨n, n⟩) {k : Nat} (hk : n < k) (a : Fin n → α) :
    forRange k body a = .error ⟨n, n⟩ := by
  induction k, hk using Nat.le_induction with
  | base =>
    rw [forRange_succ, forRange_pointwise f body hbody (le_refl n)]
    exact hpast _
  | succ k hk ih =>
    rw [forRange_succ, ih]
    rfl

/-- A loop that appends a list made at each index, as far as the array goes. -/
theorem forRange_appends (g : Fin n → List β) (body : List β → Nat → Except OutOfBounds (List β))
    (hbody : ∀ l i (h : i < n), body l i = .ok (l ++ g ⟨i, h⟩)) {k : Nat} (hk : k ≤ n)
    (l : List β) : forRange k body l = .ok (l ++ ((List.finRange n).take k).flatMap g) := by
  induction k with
  | zero => simp
  | succ k ih =>
    have hlt : k < n := hk
    have hget : (List.finRange n)[k]? = some ⟨k, hlt⟩ := by simp [hlt]
    rw [forRange_succ, ih (by omega)]
    show body _ k = _
    rw [hbody _ k hlt, List.take_add_one, hget, List.flatMap_append, List.append_assoc]
    simp

/-- A fold whose every step succeeds is the fold of the results. -/
theorem foldlM_ok {ε γ : Type} {body : σ → γ → Except ε σ} (g : σ → γ → σ) {xs : List γ}
    (h : ∀ s, ∀ x ∈ xs, body s x = .ok (g s x)) (s : σ) :
    xs.foldlM body s = .ok (xs.foldl g s) := by
  induction xs generalizing s with
  | nil => rfl
  | cons x xs ih =>
    have hx : body s x = .ok (g s x) := h s x List.mem_cons_self
    rw [List.foldlM_cons, hx]
    exact ih (fun s' y hy => h s' y (List.mem_cons_of_mem x hy)) (g s x)

/-- A fold whose steps succeed with `g`, or all fail alike, is the fold of the results or fails so. -/
theorem foldlM_cases {ε γ : Type} {body : σ → γ → Except ε σ} {g : σ → γ → σ} {e : ε} {xs : List γ}
    (h : ∀ s, ∀ x ∈ xs, body s x = .ok (g s x) ∨ body s x = .error e) (s : σ) :
    xs.foldlM body s = .ok (xs.foldl g s) ∨ xs.foldlM body s = .error e := by
  induction xs generalizing s with
  | nil => exact Or.inl rfl
  | cons x xs ih =>
    rw [List.foldlM_cons]
    rcases h s x List.mem_cons_self with hx | hx
    · rw [hx]
      exact ih (fun s' y hy => h s' y (List.mem_cons_of_mem x hy)) (g s x)
    · rw [hx]
      exact Or.inr rfl

/-- A fold that meets a bad element fails, where no step fails in another way. -/
theorem foldlM_error {ε γ : Type} {body : σ → γ → Except ε σ} (e : ε) {xs : List γ}
    (hstep : ∀ s, ∀ x ∈ xs, (∃ s', body s x = .ok s') ∨ body s x = .error e)
    (hbad : ∃ x ∈ xs, ∀ s, body s x = .error e) (s : σ) : xs.foldlM body s = .error e := by
  induction xs generalizing s with
  | nil =>
    obtain ⟨x, hx, _⟩ := hbad
    exact absurd hx List.not_mem_nil
  | cons x xs ih =>
    rw [List.foldlM_cons]
    rcases hstep s x List.mem_cons_self with ⟨s', hs'⟩ | he
    · rw [hs']
      obtain ⟨y, hy, hbody⟩ := hbad
      rcases List.mem_cons.mp hy with rfl | hy
      · rw [hbody s] at hs'
        cases hs'
      · exact ih (fun s'' z hz => hstep s'' z (List.mem_cons_of_mem x hz)) ⟨y, hy, hbody⟩ s'
    · rw [he]
      rfl

/-- A fold under the invariant `P`, which tells good elements from bad ones: where all are good it
    is the fold of the results, and where one is bad it fails. -/
theorem foldlM_guarded {ε γ : Type} {body : σ → γ → Except ε σ} {g : σ → γ → σ} {e : ε}
    {P : σ → Prop} {good : γ → Prop} {xs : List γ}
    (hgood : ∀ s, P s → ∀ x ∈ xs, good x → body s x = .ok (g s x))
    (hbad : ∀ s, P s → ∀ x ∈ xs, ¬ good x → body s x = .error e)
    (hstep : ∀ s, P s → ∀ x, P (g s x)) {s : σ} (hs : P s) :
    ((∀ x ∈ xs, good x) → xs.foldlM body s = .ok (xs.foldl g s)) ∧
      ((∃ x ∈ xs, ¬ good x) → xs.foldlM body s = .error e) := by
  induction xs generalizing s with
  | nil =>
    refine ⟨fun _ => rfl, fun h => ?_⟩
    obtain ⟨x, hx, _⟩ := h
    exact absurd hx List.not_mem_nil
  | cons x xs ih =>
    obtain ⟨ihok, ihbad⟩ := @ih (fun s hs y hy => hgood s hs y (List.mem_cons_of_mem x hy))
      (fun s hs y hy => hbad s hs y (List.mem_cons_of_mem x hy)) (g s x) (hstep s hs x)
    rw [List.foldlM_cons]
    by_cases hx : good x
    · rw [hgood s hs x List.mem_cons_self hx]
      refine ⟨fun h => ihok fun y hy => h y (List.mem_cons_of_mem x hy), fun h => ?_⟩
      obtain ⟨y, hy, hny⟩ := h
      rcases List.mem_cons.mp hy with rfl | hy
      · exact absurd hx hny
      · exact ihbad ⟨y, hy, hny⟩
    · rw [hbad s hs x List.mem_cons_self hx]
      exact ⟨fun h => absurd (h x List.mem_cons_self) hx, fun _ => rfl⟩

/-- Safe steps make a safe fold. -/
theorem safe_foldlM {γ : Type} {body : σ → γ → Except OutOfBounds σ} {xs : List γ}
    (h : ∀ s, ∀ x ∈ xs, Safe (body s x)) (s : σ) : Safe (xs.foldlM body s) := by
  induction xs generalizing s with
  | nil => exact ⟨s, rfl⟩
  | cons x xs ih =>
    obtain ⟨s', hs'⟩ := h s x List.mem_cons_self
    rw [List.foldlM_cons, hs']
    exact ih (fun s'' y hy => h s'' y (List.mem_cons_of_mem x hy)) s'

/-- A loop whose rounds are safe below `n` is safe for up to `n` rounds. -/
theorem safe_forRange {body : σ → Nat → Except OutOfBounds σ} (h : ∀ s i, i < n → Safe (body s i))
    {k : Nat} (hk : k ≤ n) (s : σ) : Safe (forRange k body s) := by
  refine safe_foldlM (fun s i hi => h s i ?_) s
  have hik : i < k := List.mem_range.mp hi
  omega

/-- A loop that appends what it makes of each entry of `a`. -/
def collect (a : Fin n → α) (g : α → β) (k : Nat) : Except OutOfBounds (List β) :=
  forRange k (fun l i => (rd a i).map fun x => l ++ [g x]) []

theorem collect_of_le (a : Fin n → α) (g : α → β) {k : Nat} (hk : k ≤ n) :
    collect a g k = .ok (((List.ofFn a).take k).map g) := by
  have hbody : ∀ (l : List β) i (h : i < n),
      ((rd a i).map fun x => l ++ [g x]) = .ok (l ++ [g (a ⟨i, h⟩)]) := by
    intro l i h
    rw [rd_of_lt a h]
    rfl
  unfold collect
  rw [forRange_appends (fun i => [g (a i)]) _ hbody hk, List.nil_append, List.ofFn_eq_map,
    ← List.map_take, List.map_map, ← List.map_eq_flatMap]
  rfl

theorem collect_of_lt (a : Fin n → α) (g : α → β) {k : Nat} (hk : n < k) :
    collect a g k = .error ⟨n, n⟩ := by
  unfold collect
  induction k, hk using Nat.le_induction with
  | base =>
    have h := collect_of_le a g (le_refl n)
    unfold collect at h
    rw [forRange_succ, h]
    show (rd a n).map _ = _
    rw [rd_of_not_lt a (lt_irrefl n)]
    rfl
  | succ k hk ih =>
    rw [forRange_succ, ih]
    rfl

/-! ## Two computations that go alike -/

section Alike

variable {ε τ γ : Type}

/-- Both succeed, with related results, or both fail in one way. -/
inductive Alike (R : σ → τ → Prop) : Except ε σ → Except ε τ → Prop where
  | ok {s : σ} {t : τ} (h : R s t) : Alike R (.ok s) (.ok t)
  | error (e : ε) : Alike R (.error e) (.error e)

theorem Alike.bind {σ' τ' : Type} {R : σ → τ → Prop} {R' : σ' → τ' → Prop} {x : Except ε σ}
    {y : Except ε τ} {f : σ → Except ε σ'} {g : τ → Except ε τ'} (h : Alike R x y)
    (hfg : ∀ s t, R s t → Alike R' (f s) (g t)) : Alike R' (x >>= f) (y >>= g) := by
  cases h with
  | ok h => exact hfg _ _ h
  | error e => exact .error e

/-- Folds go alike where their steps do. -/
theorem Alike.foldlM {R : σ → τ → Prop} {f : σ → γ → Except ε σ} {g : τ → γ → Except ε τ}
    (xs : List γ) (hfg : ∀ s t, R s t → ∀ x ∈ xs, Alike R (f s x) (g t x)) {s : σ} {t : τ}
    (h : R s t) : Alike R (xs.foldlM f s) (xs.foldlM g t) := by
  induction xs generalizing s t with
  | nil => exact .ok h
  | cons x xs ih =>
    rw [List.foldlM_cons, List.foldlM_cons]
    exact (hfg s t h x List.mem_cons_self).bind fun s' t' h' =>
      ih (fun s t h y hy => hfg s t h y (List.mem_cons_of_mem x hy)) h'

/-- What two such computations have in common is the same of both. -/
theorem Alike.map_eq {R : σ → τ → Prop} {x : Except ε σ} {y : Except ε τ} (h : Alike R x y)
    {a : σ → γ} {b : τ → γ} (hab : ∀ s t, R s t → a s = b t) : x.map a = y.map b := by
  cases h with
  | ok h => exact congrArg Except.ok (hab _ _ h)
  | error e => rfl

end Alike

end Lib
