/-
  File:      OddsEngine/Lib/BigEndian.lean
  Subject:   Big-endian numbers in byte strings (network order).

  `beNat` reads a byte string highest byte first, by shifting each byte in; `beBytes w n` writes the
  low `w` bytes of `n` that way, and the one gives back what the other wrote (`beNat_beBytes`).
-/
import OddsEngine.Lib.LittleEndian

namespace Lib

/-- `n = (n << 8) | b`, over the bytes. -/
def beNat (bs : List UInt8) : Nat := bs.foldl (fun n b => n * 256 + b.toNat) 0

/-- The low `w` bytes of `n`, highest first. -/
def beBytes (w n : Nat) : List UInt8 := (leBytes w n).reverse

@[simp] theorem beBytes_length (w n : Nat) : (beBytes w n).length = w := by
  rw [beBytes, List.length_reverse, leBytes_length]

theorem beNat_append_singleton (bs : List UInt8) (b : UInt8) :
    beNat (bs ++ [b]) = beNat bs * 256 + b.toNat := by
  rw [beNat, List.foldl_append]
  rfl

/-- Reading highest byte first is reading the reversed string lowest byte first. -/
theorem beNat_reverse (bs : List UInt8) : beNat bs.reverse = leNat bs := by
  induction bs with
  | nil => rfl
  | cons b bs ih =>
    rw [List.reverse_cons, beNat_append_singleton, ih, leNat]
    omega

theorem beNat_beBytes {w n : Nat} (h : n < 256 ^ w) : beNat (beBytes w n) = n := by
  rw [beBytes, beNat_reverse, leNat_leBytes h]

end Lib
