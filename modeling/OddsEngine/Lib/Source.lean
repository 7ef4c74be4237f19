/-
  File:      OddsEngine/Lib/Source.lean
  Subject:   Sources that are read with `while (next(x))`.

  `next` hands out the next element, or says that there is none, or fails. `Reads` is the loop so
  far: the elements it has seen. `Delivers` is the whole loop, up to the `false` that ends it. A
  loop that never ends, or that ends in a failure (`Fails`), delivers nothing in this sense.
-/

namespace Lib

variable {ε α σ : Type}

/-- From `s` the loop sees exactly `xs`, then no more; the source is then in state `t`. -/
inductive Delivers (next : σ → Except ε (Option α × σ)) : σ → List α → σ → Prop
  | done {s t : σ} : next s = .ok (none, t) → Delivers next s [] t
  | more {s t t' : σ} {x : α} {xs : List α} : next s = .ok (some x, t) → Delivers next t xs t' →
      Delivers next s (x :: xs) t'

/-- A source delivers one sequence and no other. -/
theorem Delivers.unique {next : σ → Except ε (Option α × σ)} {s t t' : σ} {xs ys : List α}
    (h : Delivers next s xs t) (h' : Delivers next s ys t') : xs = ys ∧ t = t' := by
  induction h generalizing ys with
  | done hn =>
    cases h' with
    | done hn' =>
      rw [hn] at hn'
      cases hn'
      exact ⟨rfl, rfl⟩
    | more hn' _ =>
      rw [hn] at hn'
      cases hn'
  | more hn _ ih =>
    cases h' with
    | done hn' =>
      rw [hn] at hn'
      cases hn'
    | more hn' hrest =>
      rw [hn] at hn'
      cases hn'
      obtain ⟨hxs, ht⟩ := ih hrest
      exact ⟨congrArg _ hxs, ht⟩

/-- A source that answers like another from the first call on delivers the same. -/
theorem Delivers.of_next_eq {next : σ → Except ε (Option α × σ)} {s s' t : σ} {xs : List α}
    (h : next s = next s') (h' : Delivers next s' xs t) : Delivers next s xs t := by
  cases h' with
  | done hn => exact .done (h.trans hn)
  | more hn hrest => exact .more (h.trans hn) hrest

/-- From `s` the loop has seen `xs`, and the source is in state `t`. -/
inductive Reads (next : σ → Except ε (Option α × σ)) : σ → List α → σ → Prop
  | refl (s : σ) : Reads next s [] s
  | more {s t t' : σ} {x : α} {xs : List α} : next s = .ok (some x, t) → Reads next t xs t' →
      Reads next s (x :: xs) t'

/-- From `s` the loop sees `xs`, then the failure `e`. -/
def Fails (next : σ → Except ε (Option α × σ)) (s : σ) (xs : List α) (e : ε) : Prop :=
  ∃ t, Reads next s xs t ∧ next t = .error e

variable {next : σ → Except ε (Option α × σ)}

/-- The rest of the loop, behind what it has seen. -/
theorem Reads.delivers {s t t' : σ} {xs ys : List α} (h : Reads next s xs t)
    (h' : Delivers next t ys t') : Delivers next s (xs ++ ys) t' := by
  induction h with
  | refl => exact h'
  | more hn _ ih => exact .more hn (ih h')

theorem Reads.trans {s t t' : σ} {xs ys : List α} (h : Reads next s xs t)
    (h' : Reads next t ys t') : Reads next s (xs ++ ys) t' := by
  induction h with
  | refl => exact h'
  | more hn _ ih => exact .more hn (ih h')

theorem Reads.fails {s t : σ} {xs ys : List α} {e : ε} (h : Reads next s xs t)
    (h' : Fails next t ys e) : Fails next s (xs ++ ys) e := by
  obtain ⟨t', hreads, hn⟩ := h'
  exact ⟨t', h.trans hreads, hn⟩

/-- A loop that fails does not end. -/
theorem Fails.not_delivers {s : σ} {xs : List α} {e : ε} (h : Fails next s xs e) (ys : List α)
    (t : σ) : ¬ Delivers next s ys t := by
  obtain ⟨t', hreads, hfail⟩ := h
  intro hdel
  induction hreads generalizing ys with
  | refl s =>
    cases hdel with
    | done hn =>
      rw [hfail] at hn
      cases hn
    | more hn _ =>
      rw [hfail] at hn
      cases hn
  | more hn _ ih =>
    cases hdel with
    | done hn' =>
      rw [hn] at hn'
      cases hn'
    | more hn' hrest =>
      rw [hn] at hn'
      cases hn'
      exact ih _ hfail hrest

/-- A loop that fails does so in one state. -/
theorem Reads.unique_of_error {s t t' : σ} {xs ys : List α} {e e' : ε} (h : Reads next s xs t)
    (hfail : next t = .error e) (h' : Reads next s ys t') (hfail' : next t' = .error e') :
    t = t' := by
  induction h generalizing ys with
  | refl s =>
    cases h' with
    | refl => rfl
    | more hn _ =>
      rw [hfail] at hn
      cases hn
  | more hn _ ih =>
    cases h' with
    | refl =>
      rw [hfail'] at hn
      cases hn
    | more hn' hrest =>
      rw [hn] at hn'
      cases hn'
      exact ih hfail hrest

/-- A source that answers like another from the first call on fails like it. -/
theorem Fails.of_next_eq {s s' : σ} {xs : List α} {e : ε} (h : next s = next s')
    (h' : Fails next s' xs e) : Fails next s xs e := by
  obtain ⟨t, hreads, hfail⟩ := h'
  cases hreads with
  | refl => exact ⟨s, .refl s, h.trans hfail⟩
  | more hn hrest => exact ⟨t, .more (h.trans hn) hrest, hfail⟩

end Lib
