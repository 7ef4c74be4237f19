/-
  File:      OddsEngine/Lib/Occurrence.lean
  Subject:   Occurrences of a pattern, and separators that are not in it.

  A character that the pattern does not contain ends every occurrence before it, so a search may be
  cut at each such character (`isPrefixOf_append_cons`); and a word with a delimiter behind it stands
  before a delimiter only where that is its own (`isPrefixOf_delimited`). Behind a `dropWhile` the
  same holds of a character that is not dropped (`dropWhile_append_cons`).
-/

namespace Lib

variable {α : Type}

/-- No occurrence reaches over a character that is not in the pattern. -/
theorem isPrefixOf_append_cons [BEq α] [LawfulBEq α] {pat : List α} {c : α} (hc : c ∉ pat)
    (a s : List α) : pat.isPrefixOf (a ++ c :: s) = pat.isPrefixOf a := by
  induction pat generalizing a with
  | nil => simp
  | cons p pat ih =>
    have hp : p ≠ c := fun e => hc (e ▸ List.mem_cons_self)
    have hrest : c ∉ pat := fun h => hc (List.mem_cons_of_mem p h)
    cases a with
    | nil => simp [List.isPrefixOf, hp]
    | cons x a =>
      rw [List.cons_append, List.isPrefixOf, List.isPrefixOf, ih hrest]

/-- A pattern of some length is no prefix of nothing. -/
theorem isPrefixOf_nil [BEq α] {pat : List α} (h : pat ≠ []) : pat.isPrefixOf [] = false := by
  cases pat with
  | nil => exact absurd rfl h
  | cons p pat => rfl

/-- A delimited word stands at the head of a delimited text where it is that text. -/
theorem isPrefixOf_delimited [BEq α] [LawfulBEq α] [DecidableEq α] {q : α} {name body : List α}
    (hname : q ∉ name) (hbody : q ∉ body) (t : List α) :
    (name ++ [q]).isPrefixOf (body ++ q :: t) = decide (body = name) := by
  induction name generalizing body with
  | nil =>
    cases body with
    | nil => simp
    | cons x body =>
      have hx : q ≠ x := fun e => hbody (e ▸ List.mem_cons_self)
      simp [List.isPrefixOf, hx]
  | cons p name ih =>
    have hp : p ≠ q := fun e => hname (e ▸ List.mem_cons_self)
    cases body with
    | nil => simp [List.isPrefixOf, hp]
    | cons x body =>
      have hrest := ih (fun h => hname (List.mem_cons_of_mem _ h))
        (fun h => hbody (List.mem_cons_of_mem _ h))
      rw [List.cons_append, List.cons_append, List.isPrefixOf, hrest]
      by_cases hpx : p = x
      · simp [hpx]
      · have hxp : ¬ x = p := fun e => hpx e.symm
        simp [hpx, hxp]

/-- A text without one of the pattern's characters has no occurrence at its head. -/
theorem not_isPrefixOf_of_mem [BEq α] [LawfulBEq α] {q : α} {pat s : List α} (hpat : q ∈ pat)
    (hs : q ∉ s) : pat.isPrefixOf s = false := by
  cases h : pat.isPrefixOf s with
  | false => rfl
  | true => exact absurd ((List.isPrefixOf_iff_prefix.mp h).subset hpat) hs

/-- What is dropped ends at a character that is not. -/
theorem dropWhile_append_cons {p : α → Bool} {c : α} (hc : p c = false) (a s : List α) :
    (a ++ c :: s).dropWhile p = a.dropWhile p ++ c :: s := by
  induction a with
  | nil => simp [hc]
  | cons x a ih =>
    by_cases hx : p x = true
    · simp [hx, ih]
    · simp [hx]

end Lib
