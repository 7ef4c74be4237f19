/-
  File:      OddsEngine/Lib/Sha1.lean
  Subject:   The secure hash SHA-1 as FIPS 180-4 defines it, on bit strings.

  Section 4.1.1 has the functions, 4.2.1 the constants, 5.1.1 the padding, 5.2.1 the parsing, 5.3.1
  the initial value and 6.1.2 the computation. The standard asks for fewer than 2^64 bits; `hash` of
  a longer string is what the same steps give.
-/
import Mathlib.Order.Nat
import OddsEngine.Lib.Bits

namespace Lib.Sha1

abbrev Word := BitVec 32

/-- The left rotation by `n`. -/
def rotl (n : Nat) (x : Word) : Word := (x <<< n) ||| (x >>> (32 - n))

def Ch (x y z : Word) : Word := (x &&& y) ^^^ (~~~x &&& z)

def Parity (x y z : Word) : Word := x ^^^ y ^^^ z

def Maj (x y z : Word) : Word := (x &&& y) ^^^ (x &&& z) ^^^ (y &&& z)

/-- The function of round `t`. -/
def f (t : Nat) : Word → Word → Word → Word :=
  if t < 20 then Ch else if t < 40 then Parity else if t < 60 then Maj else Parity

/-- The constant of round `t`. -/
def K (t : Nat) : Word :=
  if t < 20 then 0x5A827999 else if t < 40 then 0x6ED9EBA1 else if t < 60 then 0x8F1BBCDC
  else 0xCA62C1D6

/-! ## 1. Padding -/

theorem exists_zeros (l : Nat) : ∃ k, (l + 1 + k) % 512 = 448 :=
  ⟨448 + 512 * (l + 1) - (l + 1), by omega⟩

/-- The smallest number of zeros that leaves 64 bits of the last block. -/
def zeros (l : Nat) : Nat := Nat.find (exists_zeros l)

theorem zeros_eq {l k : Nat} (hk : (l + 1 + k) % 512 = 448) (hlt : k < 512) : zeros l = k := by
  refine (Nat.find_eq_iff _).mpr ⟨hk, fun m hm hzero => ?_⟩
  omega

/-- The message, a one, zeros, and the length in 64 bits. -/
def pad (M : List Bool) : List Bool :=
  M ++ true :: (List.replicate (zeros M.length) false ++ bitsBE 64 M.length)

/-! ## 2. The computation -/

/-- Word `j` of block `i`. -/
def wordAt (P : List Bool) (i j : Nat) : Word :=
  BitVec.ofNat 32 (bitsNat ((P.drop (512 * i + 32 * j)).take 32))

/-- The message schedule of the block `M`. -/
def W (M : Nat → Word) (t : Nat) : Word :=
  if t < 16 then M t
  else rotl 1 (W M (t - 3) ^^^ W M (t - 8) ^^^ W M (t - 14) ^^^ W M (t - 16))
termination_by t

structure State where
  a : Word
  b : Word
  c : Word
  d : Word
  e : Word

def initial : State :=
  { a := 0x67452301, b := 0xEFCDAB89, c := 0x98BADCFE, d := 0x10325476, e := 0xC3D2E1F0 }

def round (M : Nat → Word) (s : State) (t : Nat) : State :=
  { a := rotl 5 s.a + f t s.b s.c s.d + s.e + K t + W M t, b := s.a, c := rotl 30 s.b, d := s.c,
    e := s.d }

/-- One block. -/
def compress (H : State) (M : Nat → Word) : State :=
  let s := (List.range 80).foldl (round M) H
  { a := s.a + H.a, b := s.b + H.b, c := s.c + H.c, d := s.d + H.d, e := s.e + H.e }

/-- The digest of a bit string: 160 bits. -/
def hash (M : List Bool) : List Bool :=
  let H := (List.range ((pad M).length / 512)).foldl (fun H i => compress H (wordAt (pad M) i)) initial
  [H.a, H.b, H.c, H.d, H.e].flatMap fun x => bitsBE 32 x.toNat

theorem W_of_lt (M : Nat → Word) {t : Nat} (h : t < 16) : W M t = M t := by
  rw [W, if_pos h]

theorem W_of_le (M : Nat → Word) {t : Nat} (h : 16 ≤ t) :
    W M t = rotl 1 (W M (t - 3) ^^^ W M (t - 8) ^^^ W M (t - 14) ^^^ W M (t - 16)) := by
  rw [W, if_neg (Nat.not_lt.mpr h)]

/-- `Ch` chooses, so its two parts may be joined by OR as well. -/
theorem Ch_eq_or (x y z : Word) : (x &&& y) ||| (~~~x &&& z) = Ch x y z := by
  unfold Ch
  ext i hi
  simp only [BitVec.getElem_or, BitVec.getElem_and, BitVec.getElem_not, BitVec.getElem_xor]
  cases x[i] <;> simp

/-- So may the three parts of `Maj`. -/
theorem Maj_eq_or (x y z : Word) : (x &&& y) ||| (x &&& z) ||| (y &&& z) = Maj x y z := by
  unfold Maj
  ext i hi
  simp only [BitVec.getElem_or, BitVec.getElem_and, BitVec.getElem_xor]
  cases x[i] <;> cases y[i] <;> simp

end Lib.Sha1
