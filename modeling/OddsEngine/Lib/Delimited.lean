/-
  File:      OddsEngine/Lib/Delimited.lean
  Subject:   Words that can be told apart, one behind the other.

  In a set of words of which none begins another, a string of words is read in one way only: the
  first word is determined, and so is the rest. Words of one length are such a set.
-/
import Mathlib.InformationTheory.Coding.UniquelyDecodable
import Mathlib.Data.List.Basic
import Mathlib.Data.Set.Basic

namespace Lib

open InformationTheory

variable {α β : Type}

/-- No word of the set begins another. -/
def PrefixFree (S : Set (List α)) : Prop :=
  ∀ a ∈ S, ∀ b ∈ S, ∀ x y, a ++ x = b ++ y → a = b

theorem prefixFree_of_length {S : Set (List α)} {n : Nat} (h : ∀ a ∈ S, a.length = n) :
    PrefixFree S :=
  fun a ha b hb _ _ e => (List.append_inj e ((h a ha).trans (h b hb).symm)).1

/-- **Words of which none begins another are read in one way.** -/
theorem PrefixFree.uniquelyDecodable {S : Set (List α)} (h : PrefixFree S) (hne : [] ∉ S) :
    UniquelyDecodable S := by
  intro as
  induction as with
  | nil =>
    intro bs _ hbs e
    cases bs with
    | nil => rfl
    | cons b bs =>
      obtain ⟨hb, -⟩ := List.append_eq_nil_iff.mp e.symm
      exact absurd (hb ▸ hbs b List.mem_cons_self) hne
  | cons a as ih =>
    intro bs has hbs e
    have ha := has a List.mem_cons_self
    cases bs with
    | nil =>
      obtain ⟨hnil, -⟩ := List.append_eq_nil_iff.mp e
      exact absurd (hnil ▸ ha) hne
    | cons b bs =>
      have hab : a = b := h a ha b (hbs b List.mem_cons_self) _ _ e
      subst hab
      have hrest := ih bs (fun w hw => has w (List.mem_cons_of_mem a hw))
        (fun w hw => hbs w (List.mem_cons_of_mem a hw)) (List.append_cancel_left e)
      rw [hrest]

/-- Strings of code words are equal only where the words are. -/
theorem flatMap_eq_iff_of_decodable {code : β → List α}
    (h : UniquelyDecodable (Set.range code)) (xs ys : List β) :
    xs.flatMap code = ys.flatMap code ↔ xs.map code = ys.map code := by
  have hmem : ∀ (zs : List β), ∀ w ∈ zs.map code, w ∈ Set.range code := by
    intro zs w hw
    obtain ⟨z, -, rfl⟩ := List.mem_map.mp hw
    exact ⟨z, rfl⟩
  rw [List.flatMap_def, List.flatMap_def]
  exact ⟨h _ _ (hmem xs) (hmem ys), congrArg List.flatten⟩

end Lib
