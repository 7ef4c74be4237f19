/-
  File:      OddsEngine/Lib/Register.lean
  Subject:   A register that takes only newer values.

  The register holds nothing or one value, and takes an offered value exactly when the value's
  key is above the key of the one it holds. Any number of offers in any order leave it holding
  the offer with the largest key (`newest_foldl`), so what it holds does not depend on the order
  of the offers nor on how often one is repeated, as long as a key names one value
  (`Newest.unique`); and a value it takes is newer than every value it was ever offered
  (`Newest.lt_of_admits`).
-/
import Mathlib.Order.Lattice
import Mathlib.Data.List.Basic

namespace Lib.Register

variable {α κ : Type*} [LinearOrder κ] (key : α → κ)

/-- The register takes `a`: it is empty, or holds a value with a smaller key. -/
def Admits (r : Option α) (a : α) : Prop := ∀ b, r = some b → key b < key a

@[simp] theorem admits_none (a : α) : Admits key none a := fun _ h => nomatch h

@[simp] theorem admits_some (a b : α) : Admits key (some b) a ↔ key b < key a :=
  ⟨fun h => h b rfl, fun h _ e => Option.some.inj e ▸ h⟩

/-- One offer. -/
def offer : Option α → α → Option α
  | none, a => some a
  | some b, a => if key a ≤ key b then some b else some a

theorem offer_of_admits {r : Option α} {a : α} (h : Admits key r a) : offer key r a = some a := by
  cases r with
  | none => rfl
  | some b => exact if_neg (not_le.mpr (h b rfl))

theorem offer_of_not_admits {r : Option α} {a : α} (h : ¬ Admits key r a) :
    offer key r a = r := by
  cases r with
  | none => exact absurd (admits_none key a) h
  | some b => exact if_pos (not_lt.mp fun hlt => h ((admits_some key a b).mpr hlt))

/-! ## What a sequence of offers leaves -/

/-- The register holds the newest of the values `l`: nothing if there are none, else a member of
    `l` whose key no member exceeds. -/
def Newest (r : Option α) (l : List α) : Prop :=
  (r = none → l = []) ∧ ∀ m, r = some m → m ∈ l ∧ ∀ a ∈ l, key a ≤ key m

theorem newest_nil : Newest key (none : Option α) [] :=
  ⟨fun _ => rfl, fun _ h => absurd h (by simp)⟩

/-- One more offer keeps the register at the newest of what it was offered. -/
theorem Newest.offer {r : Option α} {l : List α} (h : Newest key r l) (a : α) :
    Newest key (offer key r a) (l ++ [a]) := by
  by_cases ha : Admits key r a
  · rw [offer_of_admits key ha]
    refine ⟨fun e => absurd e (by simp), fun m hm => ?_⟩
    obtain rfl : a = m := Option.some.inj hm
    refine ⟨List.mem_concat_self, fun x hx => ?_⟩
    rcases List.mem_append.mp hx with hx | hx
    · cases r with
      | none => rw [h.1 rfl] at hx; exact absurd hx List.not_mem_nil
      | some b => exact ((h.2 b rfl).2 x hx).trans ((admits_some key a b).mp ha).le
    · rw [List.mem_singleton.mp hx]
  · rw [offer_of_not_admits key ha]
    cases r with
    | none => exact absurd (admits_none key a) ha
    | some b =>
      obtain ⟨hmem, hmax⟩ := h.2 b rfl
      refine ⟨fun e => absurd e (by simp), fun m hm => ?_⟩
      obtain rfl : b = m := Option.some.inj hm
      refine ⟨List.mem_append_left _ hmem, fun x hx => ?_⟩
      rcases List.mem_append.mp hx with hx | hx
      · exact hmax x hx
      · rw [List.mem_singleton.mp hx]
        exact not_lt.mp fun hlt => ha ((admits_some key a b).mpr hlt)

theorem newest_foldl_from {r : Option α} {l : List α} (h : Newest key r l) (l' : List α) :
    Newest key (l'.foldl (Register.offer key) r) (l ++ l') := by
  induction l' generalizing r l with
  | nil => simpa using h
  | cons a l' ih =>
    rw [List.foldl_cons, List.append_cons]
    exact ih (h.offer key a)

/-- **Any offers in any order leave the newest of them.** -/
theorem newest_foldl (l : List α) : Newest key (l.foldl (offer key) none) l := by
  simpa using newest_foldl_from key (newest_nil key) l

/-- A value the register takes is newer than everything it was ever offered. -/
theorem Newest.lt_of_admits {r : Option α} {l : List α} (h : Newest key r l) {a : α}
    (ha : Admits key r a) {x : α} (hx : x ∈ l) : key x < key a := by
  cases r with
  | none => rw [h.1 rfl] at hx; exact absurd hx List.not_mem_nil
  | some b => exact ((h.2 b rfl).2 x hx).trans_lt ((admits_some key a b).mp ha)

/-- **Order and repetition do not matter**: two registers that hold the newest of the same values
    hold the same value, where a key names one value. -/
theorem Newest.unique {r r' : Option α} {l l' : List α} (h : Newest key r l)
    (h' : Newest key r' l') (hmem : ∀ a, a ∈ l ↔ a ∈ l')
    (hkey : ∀ a ∈ l, ∀ b ∈ l, key a = key b → a = b) : r = r' := by
  cases r with
  | none =>
    have hl : l = [] := h.1 rfl
    cases r' with
    | none => rfl
    | some m => exact absurd ((hmem m).mpr (h'.2 m rfl).1) (by simp [hl])
  | some m =>
    obtain ⟨hm, hmax⟩ := h.2 m rfl
    cases r' with
    | none => exact absurd ((hmem m).mp hm) (by simp [h'.1 rfl])
    | some m' =>
      obtain ⟨hm', hmax'⟩ := h'.2 m' rfl
      have hle : key m ≤ key m' := hmax' m ((hmem m).mp hm)
      have hge : key m' ≤ key m := hmax m' ((hmem m').mpr hm')
      rw [hkey m hm m' ((hmem m').mpr hm') (le_antisymm hle hge)]

end Lib.Register
