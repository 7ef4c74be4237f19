/-
  File:      OddsEngine/Lib/Frames.lean
  Subject:   Records of a fixed size, one behind the other in a byte string.

  `readFrames size read bs` is the loop `while (fread(&x, size, 1, f) == 1)`: it takes whole records
  off the front as long as there are any, and leaves a shorter rest unread. Written records come
  back in order (`readFrames_flatMap`); how many there are depends on the length alone
  (`length_readFrames`).
-/
import Mathlib.Data.List.Basic

namespace Lib

variable {α : Type}

/-- The whole records of `size` bytes at the front of a byte string. -/
def readFrames (size : Nat) (read : List UInt8 → α) (bs : List UInt8) : List α :=
  if _ : 0 < size ∧ size ≤ bs.length then
    read (bs.take size) :: readFrames size read (bs.drop size)
  else []
  termination_by bs.length
  decreasing_by
    rw [List.length_drop]
    omega

theorem readFrames_of_short {size : Nat} {read : List UInt8 → α} {bs : List UInt8}
    (h : bs.length < size) : readFrames size read bs = [] := by
  rw [readFrames, dif_neg (by omega)]

/-- One record at the front, whatever follows. -/
theorem readFrames_append {size : Nat} {read : List UInt8 → α} {frame bs : List UInt8}
    (hpos : 0 < size) (hlen : frame.length = size) :
    readFrames size read (frame ++ bs) = read frame :: readFrames size read bs := by
  have hfits : 0 < size ∧ size ≤ (frame ++ bs).length := by
    rw [List.length_append]
    omega
  rw [readFrames, dif_pos hfits, ← hlen, List.take_left, List.drop_left]

/-- **What was written record by record is read back**, each as `f` says, and a rest too short for
    one more is passed over. -/
theorem readFrames_flatMap {β : Type} {size : Nat} {read : List UInt8 → β} {write : α → List UInt8}
    {f : α → β} (hpos : 0 < size) (hlen : ∀ a, (write a).length = size)
    (hread : ∀ a, read (write a) = f a) (as : List α) {rest : List UInt8}
    (hrest : rest.length < size) :
    readFrames size read (as.flatMap write ++ rest) = as.map f := by
  induction as with
  | nil => exact readFrames_of_short hrest
  | cons a as ih =>
    rw [List.flatMap_cons, List.append_assoc, readFrames_append hpos (hlen a), hread, ih,
      List.map_cons]

theorem length_flatMap_of_length {β : Type} {size : Nat} {write : α → List β}
    (hlen : ∀ a, (write a).length = size) (as : List α) :
    (as.flatMap write).length = as.length * size := by
  rw [List.length_flatMap]
  simp [hlen]

theorem length_readFrames {size : Nat} (hpos : 0 < size) (read : List UInt8 → α)
    (bs : List UInt8) : (readFrames size read bs).length = bs.length / size := by
  fun_induction readFrames size read bs with
  | case1 bs h ih =>
    rw [List.length_cons, ih, List.length_drop]
    have hsub := Nat.div_eq_sub_div hpos h.2
    omega
  | case2 bs h =>
    have hshort : bs.length < size := by omega
    rw [Nat.div_eq_of_lt hshort]
    rfl

/-- **Of a file cut off anywhere** the records are read that lie before the cut. -/
theorem readFrames_take {β : Type} {size : Nat} {read : List UInt8 → β} {write : α → List UInt8}
    {f : α → β} (hpos : 0 < size) (hlen : ∀ a, (write a).length = size)
    (hread : ∀ a, read (write a) = f a) (as : List α) (cut : Nat) :
    readFrames size read ((as.flatMap write).take cut) = (as.take (cut / size)).map f := by
  induction as generalizing cut with
  | nil =>
    rw [List.flatMap_nil, List.take_nil, List.take_nil]
    exact readFrames_of_short hpos
  | cons a as ih =>
    by_cases hshort : cut < size
    · have hcut : ((List.flatMap write (a :: as)).take cut).length < size := by
        rw [List.length_take]
        omega
      rw [readFrames_of_short hcut, Nat.div_eq_of_lt hshort, List.take_zero, List.map_nil]
    · have hdiv : cut / size = (cut - size) / size + 1 := Nat.div_eq_sub_div hpos (Nat.le_of_not_lt hshort)
      have htake : (List.flatMap write (a :: as)).take cut =
          write a ++ (as.flatMap write).take (cut - size) := by
        rw [List.flatMap_cons, List.take_append, hlen,
          List.take_of_length_le (by rw [hlen]; omega)]
      rw [htake, readFrames_append hpos (hlen a), hread, ih, hdiv, List.take_succ_cons, List.map_cons]

end Lib
