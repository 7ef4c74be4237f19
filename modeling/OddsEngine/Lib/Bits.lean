/-
  File:      OddsEngine/Lib/Bits.lean
  Subject:   Numbers and byte strings as bit strings, highest bit first.

  `bitsBE w n` writes the low `w` bits of `n`, `bitsNat` reads a bit string, and a byte string is
  the string of its bytes' bits (`byteBits`): writing, cutting and reading bytes is writing, cutting
  and reading bits (`byteBits_beBytes`, `byteBits_drop`, `bitsNat_byteBits`).
-/
import Mathlib.Data.List.Induction
import OddsEngine.Lib.BigEndian

namespace Lib

/-- The low `w` bits of `n`, highest first. -/
def bitsBE : Nat → Nat → List Bool
  | 0, _ => []
  | w + 1, n => bitsBE w (n / 2) ++ [n % 2 == 1]

/-- The number a bit string spells, highest bit first. -/
def bitsNat (bs : List Bool) : Nat := bs.foldl (fun n b => n * 2 + b.toNat) 0

/-- The bits of a byte string. -/
def byteBits (bs : List UInt8) : List Bool := bs.flatMap fun b => bitsBE 8 b.toNat

@[simp] theorem bitsBE_length (w n : Nat) : (bitsBE w n).length = w := by
  induction w generalizing n with
  | zero => rfl
  | succ w ih => simp [bitsBE, ih]

theorem bitsNat_append_singleton (bs : List Bool) (b : Bool) :
    bitsNat (bs ++ [b]) = bitsNat bs * 2 + b.toNat := by
  rw [bitsNat, List.foldl_append]
  rfl

theorem bitsNat_bitsBE (w n : Nat) : bitsNat (bitsBE w n) = n % 2 ^ w := by
  induction w generalizing n with
  | zero => simp [bitsBE, bitsNat, Nat.mod_one]
  | succ w ih =>
    have hbit : (n % 2 == 1).toNat = n % 2 := by
      rcases Nat.mod_two_eq_zero_or_one n with h | h
      · rw [h]
        rfl
      · rw [h]
        rfl
    rw [bitsBE, bitsNat_append_singleton, ih, hbit, pow_succ, Nat.mul_comm (2 ^ w) 2, Nat.mod_mul]
    omega

/-- A number written in two parts. -/
theorem bitsBE_add (a b n : Nat) : bitsBE (a + b) n = bitsBE a (n / 2 ^ b) ++ bitsBE b n := by
  induction b generalizing n with
  | zero => simp [bitsBE]
  | succ b ih =>
    rw [← Nat.add_assoc, bitsBE, bitsBE, ih, Nat.div_div_eq_div_mul, ← pow_succ', List.append_assoc]

/-- Only the low bits are written. -/
theorem bitsBE_mod (w n : Nat) : bitsBE w (n % 2 ^ w) = bitsBE w n := by
  induction w generalizing n with
  | zero => rfl
  | succ w ih =>
    have hhigh : n % 2 ^ (w + 1) / 2 = n / 2 % 2 ^ w := by
      rw [pow_succ, Nat.mul_comm, Nat.mod_mul_right_div_self]
    have hlow : n % 2 ^ (w + 1) % 2 = n % 2 := Nat.mod_mod_of_dvd n (dvd_pow_self 2 (Nat.succ_ne_zero w))
    rw [bitsBE, bitsBE, hhigh, hlow, ih]

theorem bitsBE_zero (w : Nat) : bitsBE w 0 = List.replicate w false := by
  induction w with
  | zero => rfl
  | succ w ih => simp [bitsBE, ih, List.replicate_succ']

/-- A bit string is the number it spells, written. -/
theorem bitsBE_bitsNat (bs : List Bool) : bitsBE bs.length (bitsNat bs) = bs := by
  induction bs using List.reverseRecOn with
  | nil => rfl
  | append_singleton bs b ih =>
    have hbit : b.toNat < 2 := b.toNat_lt
    have hhigh : (bitsNat bs * 2 + b.toNat) / 2 = bitsNat bs := by omega
    have hlow : ((bitsNat bs * 2 + b.toNat) % 2 == 1) = b := by cases b <;> simp
    rw [List.length_append, List.length_singleton, bitsNat_append_singleton, bitsBE, hhigh, hlow, ih]

@[simp] theorem byteBits_nil : byteBits [] = [] := rfl

@[simp] theorem byteBits_cons (b : UInt8) (bs : List UInt8) :
    byteBits (b :: bs) = bitsBE 8 b.toNat ++ byteBits bs := List.flatMap_cons

@[simp] theorem byteBits_append (bs cs : List UInt8) :
    byteBits (bs ++ cs) = byteBits bs ++ byteBits cs := List.flatMap_append

@[simp] theorem byteBits_length (bs : List UInt8) : (byteBits bs).length = 8 * bs.length := by
  induction bs with
  | nil => rfl
  | cons b bs ih =>
    rw [byteBits_cons, List.length_append, bitsBE_length, ih, List.length_cons]
    omega

theorem byteBits_replicate_zero (n : Nat) :
    byteBits (List.replicate n 0) = List.replicate (8 * n) false := by
  induction n with
  | zero => rfl
  | succ n ih =>
    have hzero : bitsBE 8 (0 : UInt8).toNat = List.replicate 8 false := bitsBE_zero 8
    rw [List.replicate_succ, byteBits_cons, ih, hzero, ← List.replicate_add]
    congr 1
    omega

/-- Whole bytes cut off are whole eights of bits. -/
theorem byteBits_drop (bs : List UInt8) (n : Nat) :
    byteBits (bs.drop n) = (byteBits bs).drop (8 * n) := by
  induction n generalizing bs with
  | zero => rfl
  | succ n ih =>
    cases bs with
    | nil => simp
    | cons b bs =>
      have hskip : 8 * (n + 1) = (bitsBE 8 b.toNat).length + 8 * n := by
        rw [bitsBE_length]
        omega
      rw [List.drop_succ_cons, ih, byteBits_cons, hskip, List.drop_length_add_append]

theorem byteBits_take (bs : List UInt8) (n : Nat) :
    byteBits (bs.take n) = (byteBits bs).take (8 * n) := by
  induction n generalizing bs with
  | zero => rfl
  | succ n ih =>
    cases bs with
    | nil => simp
    | cons b bs =>
      have hskip : 8 * (n + 1) = (bitsBE 8 b.toNat).length + 8 * n := by
        rw [bitsBE_length]
        omega
      rw [List.take_succ_cons, byteBits_cons, ih, byteBits_cons, hskip, List.take_length_add_append]

theorem bitsNat_append (as bs : List Bool) :
    bitsNat (as ++ bs) = bitsNat as * 2 ^ bs.length + bitsNat bs := by
  induction bs using List.reverseRecOn with
  | nil => simp [bitsNat]
  | append_singleton bs b ih =>
    rw [← List.append_assoc, bitsNat_append_singleton, ih, bitsNat_append_singleton,
      List.length_append, List.length_singleton, pow_succ]
    ring

/-- Reading bits is reading bytes. -/
theorem bitsNat_byteBits (bs : List UInt8) : bitsNat (byteBits bs) = beNat bs := by
  induction bs using List.reverseRecOn with
  | nil => rfl
  | append_singleton bs b ih =>
    have hlt : b.toNat < 2 ^ 8 := b.toNat_lt
    rw [byteBits_append, byteBits_cons, byteBits_nil, List.append_nil, bitsNat_append,
      bitsNat_bitsBE, bitsBE_length, ih, beNat_append_singleton, Nat.mod_eq_of_lt hlt]
    rfl

theorem beBytes_succ (w n : Nat) : beBytes (w + 1) n = beBytes w (n / 256) ++ [UInt8.ofNat n] := by
  rw [beBytes, leBytes, List.reverse_cons]
  rfl

/-- Writing bytes is writing bits. -/
theorem byteBits_beBytes (w n : Nat) : byteBits (beBytes w n) = bitsBE (8 * w) n := by
  induction w generalizing n with
  | zero => rfl
  | succ w ih =>
    have hbyte : (UInt8.ofNat n).toNat = n % 2 ^ 8 := by simp
    rw [beBytes_succ, byteBits_append, byteBits_cons, byteBits_nil, List.append_nil, ih, hbyte,
      bitsBE_mod, Nat.mul_succ, bitsBE_add]
    rfl

/-! ## Bytes from bits -/

/-- The bytes of a bit string, eight bits each; fewer than eight at its end are dropped. -/
def bitBytes (bs : List Bool) : List UInt8 :=
  (List.range (bs.length / 8)).map fun i => UInt8.ofNat (bitsNat ((bs.drop (8 * i)).take 8))

/-- The bytes of a byte string's bits, and of a few more bits behind them. -/
theorem bitBytes_byteBits_append (bs : List UInt8) {rest : List Bool} (h : rest.length < 8) :
    bitBytes (byteBits bs ++ rest) = bs := by
  have hlen : (byteBits bs ++ rest).length / 8 = bs.length := by
    rw [List.length_append, byteBits_length]
    omega
  unfold bitBytes
  rw [hlen]
  refine List.ext_getElem (by simp) fun i hi hi' => ?_
  have hbyte : ((byteBits bs ++ rest).drop (8 * i)).take 8 = byteBits [bs[i]] := by
    have hone : (bs.drop i).take 1 = [bs[i]] := by
      rw [List.drop_eq_getElem_cons hi', List.take_succ_cons, List.take_zero]
    rw [List.drop_append_of_le_length (by rw [byteBits_length]; omega), ← byteBits_drop,
      List.take_append_of_le_length (by rw [byteBits_length, List.length_drop]; omega),
      ← hone, byteBits_take]
  have hlt : bs[i].toNat < 2 ^ 8 := bs[i].toNat_lt
  rw [List.getElem_map, List.getElem_range, hbyte, byteBits_cons, byteBits_nil, List.append_nil,
    bitsNat_bitsBE, Nat.mod_eq_of_lt hlt, UInt8.ofNat_toNat]

theorem bitBytes_byteBits (bs : List UInt8) : bitBytes (byteBits bs) = bs := by
  have h := @bitBytes_byteBits_append bs [] (by simp)
  rw [List.append_nil] at h
  exact h

end Lib
