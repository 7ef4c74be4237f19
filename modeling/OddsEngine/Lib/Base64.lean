/-
  File:      OddsEngine/Lib/Base64.lean
  Subject:   Base64 as RFC 4648, section 4, defines it.

  The bits of the octets in groups of six, the last one filled with zeros on the right; each group is
  a character, and `=` fills the last four characters. Decoding reads the groups back
  (`decode_encode`).
-/
import OddsEngine.Lib.Bits

namespace Lib.Base64

/-- Table 1 of the standard. -/
def character (v : Nat) : UInt8 :=
  if v < 26 then (0x41 + v).toUInt8
  else if v < 52 then (0x61 + (v - 26)).toUInt8
  else if v < 62 then (0x30 + (v - 52)).toUInt8
  else if v = 62 then 0x2B else 0x2F

/-- The padding character. -/
def pad : UInt8 := 0x3D

/-- Groups of six bits. -/
def sextets : List Bool → List (List Bool)
  | b0 :: b1 :: b2 :: b3 :: b4 :: b5 :: bs => [b0, b1, b2, b3, b4, b5] :: sextets bs
  | [] => []
  | bs => [bs ++ List.replicate (6 - bs.length) false]

/-- The characters of a bit string. -/
def digits (bs : List Bool) : List UInt8 := (sextets bs).map fun g => character (bitsNat g)

def encode (bs : List UInt8) : List UInt8 :=
  digits (byteBits bs) ++
    List.replicate ((4 - (digits (byteBits bs)).length % 4) % 4) pad

/-- The value of a character. -/
def value? (c : UInt8) : Option Nat := (List.range 64).find? fun v => character v == c

/-- The octets of a text, the padding left out; `none` where a character is not of the alphabet. -/
def decode (cs : List UInt8) : Option (List UInt8) :=
  ((cs.takeWhile (· ≠ pad)).mapM value?).map fun vs => bitBytes (vs.flatMap (bitsBE 6))

theorem value?_character {v : Nat} (h : v < 64) : value? (character v) = some v := by
  have hall : ∀ v : Fin 64, value? (character v.val) = some v.val := by decide
  exact hall ⟨v, h⟩

theorem character_ne_pad {v : Nat} (h : v < 64) : character v ≠ pad := by
  have hall : ∀ v : Fin 64, character v.val ≠ pad := by decide
  exact hall ⟨v, h⟩

/-- Every group has six bits, and together they are the bits and fewer than six zeros. -/
theorem sextets_spec (bs : List Bool) :
    (∀ g ∈ sextets bs, g.length = 6) ∧
      ∃ n < 6, (sextets bs).flatten = bs ++ List.replicate n false := by
  fun_induction sextets bs with
  | case1 b0 b1 b2 b3 b4 b5 bs ih =>
    obtain ⟨hlen, n, hn, hflat⟩ := ih
    exact ⟨List.forall_mem_cons.mpr ⟨rfl, hlen⟩, n, hn, by simp [hflat]⟩
  | case2 => exact ⟨by simp, 0, by decide, rfl⟩
  | case3 bs hlong hne =>
    have hshort : bs.length < 6 := by
      by_contra hge
      match bs, hge with
      | [], h => exact h (by decide)
      | [_], h => exact h (by simp)
      | [_, _], h => exact h (by simp)
      | [_, _, _], h => exact h (by simp)
      | [_, _, _, _], h => exact h (by simp)
      | [_, _, _, _, _], h => exact h (by simp)
      | _ :: _ :: _ :: _ :: _ :: _ :: bs, _ => exact hlong _ _ _ _ _ _ bs rfl
    have hpos : 0 < bs.length := List.length_pos_of_ne_nil hne
    exact ⟨by simp; omega, 6 - bs.length, by omega, by simp⟩

/-- **Decoding gives back what was encoded.** -/
theorem decode_encode (bs : List UInt8) : decode (encode bs) = some bs := by
  obtain ⟨hlen, n, hn, hflat⟩ := sextets_spec (byteBits bs)
  have hlt : ∀ g ∈ sextets (byteBits bs), bitsNat g < 64 := by
    intro g hg
    have hbits := bitsNat_bitsBE 6 (bitsNat g)
    rw [← hlen g hg, bitsBE_bitsNat] at hbits
    rw [hbits, hlen g hg]
    exact Nat.mod_lt _ (by decide)
  have htake : (encode bs).takeWhile (· ≠ pad) = digits (byteBits bs) := by
    unfold encode
    rw [List.takeWhile_append_of_pos]
    · cases h : (4 - (digits (byteBits bs)).length % 4) % 4 with
      | zero => simp
      | succ k => simp [List.replicate_succ]
    · intro c hc
      obtain ⟨g, hg, rfl⟩ := List.mem_map.mp hc
      exact decide_eq_true (character_ne_pad (hlt g hg))
  have hvalues : ∀ gs : List (List Bool), (∀ g ∈ gs, bitsNat g < 64) →
      (gs.map fun g => character (bitsNat g)).mapM value? = some (gs.map bitsNat) := by
    intro gs
    induction gs with
    | nil => exact fun _ => rfl
    | cons g gs ih =>
      intro hgs
      obtain ⟨hg, hrest⟩ := List.forall_mem_cons.mp hgs
      rw [List.map_cons, List.mapM_cons, value?_character hg, ih hrest]
      rfl
  have hback : ∀ gs : List (List Bool), (∀ g ∈ gs, g.length = 6) →
      (gs.map bitsNat).flatMap (bitsBE 6) = gs.flatten := by
    intro gs
    induction gs with
    | nil => exact fun _ => rfl
    | cons g gs ih =>
      intro hgs
      obtain ⟨hg, hrest⟩ := List.forall_mem_cons.mp hgs
      rw [List.map_cons, List.flatMap_cons, ih hrest, ← hg, bitsBE_bitsNat, List.flatten_cons]
  unfold decode
  rw [htake, digits, hvalues _ hlt, Option.map_some, hback _ hlen, hflat,
    bitBytes_byteBits_append bs (by rw [List.length_replicate]; omega)]

end Lib.Base64
