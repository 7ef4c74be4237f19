/-
  File:      OddsEngine/Lib/LittleEndian.lean
  Subject:   Little-endian words in byte strings.

  `leBytes w n` writes the low `w` bytes of `n`, lowest first; `leNat` reads a byte string back,
  and gives the number where it fits (`leNat_leBytes`). A record of words is written field after
  field and read the same way: `u64`, `u32`, `u16` write a machine word, `getU64`, `getU32`,
  `getU16`, `getU8`, `getRaw` take one off the front of a byte string and hand on the rest.
-/
import Mathlib.Data.List.Basic
import Mathlib.Tactic.Ring
import Mathlib.Tactic.NormNum

namespace Lib

/-- The low `w` bytes of `n`, lowest first. -/
def leBytes : Nat → Nat → List UInt8
  | 0, _ => []
  | w + 1, n => UInt8.ofNat n :: leBytes w (n / 256)

/-- The number a byte string spells, lowest byte first. -/
def leNat : List UInt8 → Nat
  | [] => 0
  | b :: bs => b.toNat + 256 * leNat bs

@[simp] theorem leBytes_length (w n : Nat) : (leBytes w n).length = w := by
  induction w generalizing n with
  | zero => rfl
  | succ w ih => simp [leBytes, ih]

theorem leNat_leBytes {w n : Nat} (h : n < 256 ^ w) : leNat (leBytes w n) = n := by
  induction w generalizing n with
  | zero => simp [leBytes, leNat] at *; omega
  | succ w ih =>
    have hq : n / 256 < 256 ^ w := by
      rw [Nat.div_lt_iff_lt_mul (by norm_num)]
      rwa [pow_succ] at h
    have hb : (UInt8.ofNat n).toNat = n % 256 := by simp
    rw [leBytes, leNat, ih hq, hb]
    omega

/-! ## Machine words, written and read in sequence -/

def u64 (x : UInt64) : List UInt8 := leBytes 8 x.toNat

def u32 (x : UInt32) : List UInt8 := leBytes 4 x.toNat

def u16 (x : UInt16) : List UInt8 := leBytes 2 x.toNat

def getU64 (bs : List UInt8) : UInt64 × List UInt8 := (UInt64.ofNat (leNat (bs.take 8)), bs.drop 8)

def getU32 (bs : List UInt8) : UInt32 × List UInt8 := (UInt32.ofNat (leNat (bs.take 4)), bs.drop 4)

def getU16 (bs : List UInt8) : UInt16 × List UInt8 := (UInt16.ofNat (leNat (bs.take 2)), bs.drop 2)

def getU8 (bs : List UInt8) : UInt8 × List UInt8 := (bs.headD 0, bs.drop 1)

/-- The first `n` bytes as they stand, `0` where the string is too short. -/
def getRaw (n : Nat) (bs : List UInt8) : (Fin n → UInt8) × List UInt8 :=
  (fun i => bs.getD i 0, bs.drop n)

@[simp] theorem u64_length (x : UInt64) : (u64 x).length = 8 := leBytes_length _ _

@[simp] theorem u32_length (x : UInt32) : (u32 x).length = 4 := leBytes_length _ _

@[simp] theorem u16_length (x : UInt16) : (u16 x).length = 2 := leBytes_length _ _

@[simp] theorem getU64_u64 (x : UInt64) (bs : List UInt8) : getU64 (u64 x ++ bs) = (x, bs) := by
  have h : leNat (u64 x) = x.toNat := leNat_leBytes (by simpa using x.toNat_lt)
  simp [getU64, h]

@[simp] theorem getU32_u32 (x : UInt32) (bs : List UInt8) : getU32 (u32 x ++ bs) = (x, bs) := by
  have h : leNat (u32 x) = x.toNat := leNat_leBytes (by simpa using x.toNat_lt)
  simp [getU32, h]

@[simp] theorem getU16_u16 (x : UInt16) (bs : List UInt8) : getU16 (u16 x ++ bs) = (x, bs) := by
  have h : leNat (u16 x) = x.toNat := leNat_leBytes (by simpa using x.toNat_lt)
  simp [getU16, h]

@[simp] theorem getU8_cons (x : UInt8) (bs : List UInt8) : getU8 (x :: bs) = (x, bs) := rfl

@[simp] theorem getRaw_ofFn {n : Nat} (a : Fin n → UInt8) (bs : List UInt8) :
    getRaw n (List.ofFn a ++ bs) = (a, bs) := by
  refine Prod.ext (funext fun i => ?_) (by simp [getRaw])
  have hi : i.val < (List.ofFn a).length := by simp
  simp [getRaw, List.getElem?_append_left hi]

/-! ## A reader takes its own bytes and leaves the rest alone -/

section Append

variable {a : List UInt8} (x : List UInt8)

theorem getU64_append (h : 8 ≤ a.length) :
    getU64 (a ++ x) = ((getU64 a).1, (getU64 a).2 ++ x) := by
  unfold getU64
  rw [List.take_append_of_le_length h, List.drop_append_of_le_length h]

theorem getU32_append (h : 4 ≤ a.length) :
    getU32 (a ++ x) = ((getU32 a).1, (getU32 a).2 ++ x) := by
  unfold getU32
  rw [List.take_append_of_le_length h, List.drop_append_of_le_length h]

theorem getU16_append (h : 2 ≤ a.length) :
    getU16 (a ++ x) = ((getU16 a).1, (getU16 a).2 ++ x) := by
  unfold getU16
  rw [List.take_append_of_le_length h, List.drop_append_of_le_length h]

theorem getU8_append (h : 1 ≤ a.length) : getU8 (a ++ x) = ((getU8 a).1, (getU8 a).2 ++ x) := by
  cases a with
  | nil => cases h
  | cons b a => rfl

theorem getRaw_append {n : Nat} (h : n ≤ a.length) :
    getRaw n (a ++ x) = ((getRaw n a).1, (getRaw n a).2 ++ x) := by
  refine Prod.ext (funext fun i => ?_) (List.drop_append_of_le_length h)
  have hi : i.val < a.length := Nat.lt_of_lt_of_le i.isLt h
  simp [getRaw, List.getElem?_append_left hi]

variable (a)

theorem getRaw_length (n : Nat) : (getRaw n a).2.length = a.length - n := List.length_drop

theorem getU64_length : (getU64 a).2.length = a.length - 8 := List.length_drop

theorem getU32_length : (getU32 a).2.length = a.length - 4 := List.length_drop

theorem getU16_length : (getU16 a).2.length = a.length - 2 := List.length_drop

theorem getU8_length : (getU8 a).2.length = a.length - 1 := List.length_drop

end Append

end Lib
