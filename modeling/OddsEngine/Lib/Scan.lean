/-
  File:      OddsEngine/Lib/Scan.lean
  Subject:   Items read off the front of a buffer that grows.

  A `Reader` looks at the front of a buffer and finds an item, an error, or too few bytes to say;
  its laws are that neither an item nor an error is taken back when more bytes arrive.
  `Reader.scan` reads items while there are any, as far as an error or a last item.

  * `scan_append` -- scanning `bs ++ cs` is scanning `bs`, and then what is left with `cs` behind it,
    so that a stream may be scanned chunk by chunk;
  * `scan_whole` -- what a scan takes off the buffer is whole items, one behind the other.
-/
import Mathlib.Data.List.Basic
import Mathlib.Tactic.Common

namespace Lib

/-- What stands at the front of a buffer. -/
inductive Scan (α : Type) where
  /-- Not all of an item yet. -/
  | more
  /-- Nothing that further bytes make an item. -/
  | fail
  /-- An item, and how many bytes it takes. -/
  | item (x : α) (size : Nat)
  deriving DecidableEq, Repr

structure Reader (β α : Type) where
  read : List β → Scan α
  item_size : ∀ {bs x n}, read bs = .item x n → 0 < n ∧ n ≤ bs.length
  item_stable : ∀ {bs x n}, read bs = .item x n → ∀ cs, read (bs.take n ++ cs) = .item x n
  fail_stable : ∀ {bs}, read bs = .fail → ∀ cs, read (bs ++ cs) = .fail

/-- What a scan comes to: the items read, what it leaves, and whether it came to an end (an error,
    or a last item) rather than ran out of bytes. -/
structure Scanned (β α : Type) where
  items : List α
  rest : List β
  ended : Bool

variable {β α : Type}

namespace Reader

variable (r : Reader β α)

theorem item_append {bs : List β} {x : α} {n : Nat} (h : r.read bs = .item x n) (cs : List β) :
    r.read (bs ++ cs) = .item x n := by
  have hstable := r.item_stable h (bs.drop n ++ cs)
  rwa [← List.append_assoc, List.take_append_drop] at hstable

theorem item_take {bs : List β} {x : α} {n : Nat} (h : r.read bs = .item x n) :
    r.read (bs.take n) = .item x n := by
  have hstable := r.item_stable h []
  rwa [List.append_nil] at hstable

theorem length_drop_lt {bs : List β} {x : α} {n : Nat} (h : r.read bs = .item x n) :
    (bs.drop n).length < bs.length := by
  have hsize := r.item_size h
  rw [List.length_drop]
  omega

/-- The items at the front of `bs`, as far as an error, an item that is the `last`, or the end of
    what can be read yet. -/
def scan (last : α → Bool) (bs : List β) : Scanned β α :=
  match _h : r.read bs with
  | .more => ⟨[], bs, false⟩
  | .fail => ⟨[], bs, true⟩
  | .item x n =>
    if last x then ⟨[x], bs.drop n, true⟩
    else
      let t := scan last (bs.drop n)
      ⟨x :: t.items, t.rest, t.ended⟩
termination_by bs.length
decreasing_by exact r.length_drop_lt _h

variable {r} {last : α → Bool}

theorem scan_of_more {bs : List β} (h : r.read bs = .more) : r.scan last bs = ⟨[], bs, false⟩ := by
  rw [scan]
  split
  · rfl
  · next e => rw [h] at e; cases e
  · next e => rw [h] at e; cases e

theorem scan_of_fail {bs : List β} (h : r.read bs = .fail) : r.scan last bs = ⟨[], bs, true⟩ := by
  rw [scan]
  split
  · next e => rw [h] at e; cases e
  · rfl
  · next e => rw [h] at e; cases e

theorem scan_of_last {bs : List β} {x : α} {n : Nat} (h : r.read bs = .item x n)
    (hx : last x = true) : r.scan last bs = ⟨[x], bs.drop n, true⟩ := by
  rw [scan]
  split
  · next e => rw [h] at e; cases e
  · next e => rw [h] at e; cases e
  · next e =>
    rw [h] at e
    cases e
    rw [if_pos hx]

theorem scan_of_item {bs : List β} {x : α} {n : Nat} (h : r.read bs = .item x n)
    (hx : last x = false) :
    r.scan last bs = ⟨x :: (r.scan last (bs.drop n)).items, (r.scan last (bs.drop n)).rest,
      (r.scan last (bs.drop n)).ended⟩ := by
  rw [scan]
  split
  · next e => rw [h] at e; cases e
  · next e => rw [h] at e; cases e
  · next e =>
    rw [h] at e
    cases e
    rw [if_neg (by simp [hx])]

variable (r last)

/-- Induction along a scan. -/
theorem scan_induction {motive : List β → Prop}
    (more : ∀ bs, r.read bs = .more → motive bs)
    (fail : ∀ bs, r.read bs = .fail → motive bs)
    (final : ∀ bs x n, r.read bs = .item x n → last x = true → motive bs)
    (item : ∀ bs x n, r.read bs = .item x n → last x = false → motive (bs.drop n) → motive bs)
    (bs : List β) : motive bs := by
  induction h : bs.length using Nat.strongRecOn generalizing bs with
  | _ k ih =>
    cases hr : r.read bs with
    | more => exact more bs hr
    | fail => exact fail bs hr
    | item x n =>
      cases hx : last x with
      | true => exact final bs x n hr hx
      | false => exact item bs x n hr hx (ih _ (h ▸ r.length_drop_lt hr) _ rfl)

/-- What a scan that ran out of bytes leaves is less than an item. -/
theorem read_rest (bs : List β) (h : (r.scan last bs).ended = false) :
    r.read (r.scan last bs).rest = .more := by
  induction bs using r.scan_induction last with
  | more bs hr =>
    rw [scan_of_more hr]
    exact hr
  | fail bs hr =>
    rw [scan_of_fail hr] at h
    cases h
  | final bs x n hr hx =>
    rw [scan_of_last hr hx] at h
    cases h
  | item bs x n hr hx ih =>
    rw [scan_of_item hr hx] at h ⊢
    exact ih h

/-- A scan never leaves more than it was given. -/
theorem length_rest_le (bs : List β) : (r.scan last bs).rest.length ≤ bs.length := by
  induction bs using r.scan_induction last with
  | more bs hr =>
    refine Nat.le_of_eq ?_
    rw [scan_of_more hr]
  | fail bs hr =>
    refine Nat.le_of_eq ?_
    rw [scan_of_fail hr]
  | final bs x n hr hx =>
    rw [scan_of_last hr hx]
    exact Nat.le_of_lt (r.length_drop_lt hr)
  | item bs x n hr hx ih =>
    rw [scan_of_item hr hx]
    exact Nat.le_trans ih (Nat.le_of_lt (r.length_drop_lt hr))

/-- **Scanning does not depend on how much has arrived**: a scan that came to an end stays as it
    is, and one that ran out of bytes goes on with what it left. -/
theorem scan_append (bs cs : List β) :
    ((r.scan last bs).ended = true →
      (r.scan last (bs ++ cs)).items = (r.scan last bs).items ∧
      (r.scan last (bs ++ cs)).ended = true) ∧
    ((r.scan last bs).ended = false →
      r.scan last (bs ++ cs) =
        ⟨(r.scan last bs).items ++ (r.scan last ((r.scan last bs).rest ++ cs)).items,
          (r.scan last ((r.scan last bs).rest ++ cs)).rest,
          (r.scan last ((r.scan last bs).rest ++ cs)).ended⟩) := by
  induction bs using r.scan_induction last with
  | more bs hr =>
    rw [scan_of_more hr]
    exact ⟨fun h => absurd h Bool.false_ne_true, fun _ => rfl⟩
  | fail bs hr =>
    rw [scan_of_fail hr, scan_of_fail (r.fail_stable hr cs)]
    exact ⟨fun _ => ⟨rfl, rfl⟩, fun h => absurd h.symm Bool.false_ne_true⟩
  | final bs x n hr hx =>
    rw [scan_of_last hr hx, scan_of_last (r.item_append hr cs) hx]
    exact ⟨fun _ => ⟨rfl, rfl⟩, fun h => absurd h.symm Bool.false_ne_true⟩
  | item bs x n hr hx ih =>
    have hdrop : (bs ++ cs).drop n = bs.drop n ++ cs :=
      List.drop_append_of_le_length (r.item_size hr).2
    rw [scan_of_item hr hx, scan_of_item (r.item_append hr cs) hx, hdrop]
    refine ⟨fun h => ?_, fun h => ?_⟩
    · obtain ⟨hitems, hended⟩ := ih.1 h
      exact ⟨congrArg (x :: ·) hitems, hended⟩
    · rw [ih.2 h]
      rfl

/-! ## What a scan takes -/

/-- **A scan takes whole items only**: what it took off the buffer is the bytes of its items, one
    behind the other, and each of these is the item on its own. -/
theorem scan_whole (bs : List β) :
    ∃ parts : List (List β × α), (parts.map (·.1)).flatten ++ (r.scan last bs).rest = bs ∧
      parts.map (·.2) = (r.scan last bs).items ∧
      ∀ p ∈ parts, r.read p.1 = .item p.2 p.1.length := by
  induction bs using r.scan_induction last with
  | more bs hr =>
    rw [scan_of_more hr]
    exact ⟨[], rfl, rfl, nofun⟩
  | fail bs hr =>
    rw [scan_of_fail hr]
    exact ⟨[], rfl, rfl, nofun⟩
  | final bs x n hr hx =>
    rw [scan_of_last hr hx]
    have hlen : (bs.take n).length = n := List.length_take_of_le (r.item_size hr).2
    refine ⟨[(bs.take n, x)], ?_, rfl, fun p hp => ?_⟩
    · show (bs.take n ++ []) ++ bs.drop n = bs
      rw [List.append_nil, List.take_append_drop]
    · rw [List.mem_singleton.mp hp]
      show r.read (bs.take n) = .item x (bs.take n).length
      rw [hlen]
      exact r.item_take hr
  | item bs x n hr hx ih =>
    rw [scan_of_item hr hx]
    obtain ⟨parts, hbytes, hitems, hwhole⟩ := ih
    have hlen : (bs.take n).length = n := List.length_take_of_le (r.item_size hr).2
    refine ⟨(bs.take n, x) :: parts, ?_, ?_, ?_⟩
    · show (bs.take n ++ (parts.map (·.1)).flatten) ++ _ = bs
      rw [List.append_assoc, hbytes, List.take_append_drop]
    · exact congrArg (x :: ·) hitems
    · intro p hp
      rcases List.mem_cons.mp hp with rfl | hp
      · show r.read (bs.take n) = .item x (bs.take n).length
        rw [hlen]
        exact r.item_take hr
      · exact hwhole p hp

end Reader

end Lib
