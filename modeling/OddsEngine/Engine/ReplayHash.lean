/-
  File:      OddsEngine/Engine/ReplayHash.lean
  Subject:   The replay digest, FNV-1a over raw bytes (engine/ReplayHash.hpp).

  Every mixing call appends bytes to one stream: the digest is a function of their concatenation
  (`mixBytes_append`), however the calls cut it.

  * `digest_ne_of_byte` -- one byte of the stream changed is another digest: the prime is odd, so
    neither the xor nor the product loses anything of the state.
-/
import OddsEngine.Lib.LittleEndian
import OddsEngine.Lib.Mixing

namespace OddsEngine

open Lib

namespace ReplayHash

def kOffsetBasis : UInt64 := 14695981039346656037

def kPrime : UInt64 := 1099511628211

/-- One byte into the state. -/
def mixByte (state : UInt64) (b : UInt8) : UInt64 := (state ^^^ b.toUInt64) * kPrime

def mixBytes (state : UInt64) (data : List UInt8) : UInt64 := data.foldl mixByte state

def mixU16 (state : UInt64) (v : UInt16) : UInt64 := mixBytes state (u16 v)

def mixU64 (state : UInt64) (v : UInt64) : UInt64 := mixBytes state (u64 v)

theorem mixBytes_append (state : UInt64) (a b : List UInt8) :
    mixBytes state (a ++ b) = mixBytes (mixBytes state a) b := List.foldl_append

/-! ## One byte changed -/

/-- `digest()` of a hash that was fed by these calls of `mix_bytes`. -/
def digest (calls : List (List UInt8)) : UInt64 := calls.foldl mixBytes kOffsetBasis

theorem foldl_mixBytes (state : UInt64) (calls : List (List UInt8)) :
    calls.foldl mixBytes state = mixBytes state calls.flatten := by
  induction calls generalizing state with
  | nil => rfl
  | cons data calls ih => rw [List.foldl_cons, ih, List.flatten_cons, mixBytes_append]

/-- The prime is odd, so it has an inverse word. -/
theorem mul_kPrime_injective : Function.Injective fun x : UInt64 => x * kPrime :=
  @mul_const_injective _ 0xCE965057AFF6957B (by decide)

/-- A byte takes distinct states to distinct states. -/
theorem mixByte_state_injective (b : UInt8) : Function.Injective fun state => mixByte state b :=
  mul_kPrime_injective.comp (xor_right_injective b.toUInt64)

/-- And a state takes distinct bytes to distinct states. -/
theorem mixByte_injective (state : UInt64) : Function.Injective (mixByte state) := by
  intro b b' h
  have hxor : state ^^^ b.toUInt64 = state ^^^ b'.toUInt64 := mul_kPrime_injective h
  have hword : b.toUInt64 = b'.toUInt64 := xor_const_injective state hxor
  exact UInt8.toNat_inj.mp (congrArg UInt64.toNat hword)

/-- **One byte changed is another digest**, wherever it stands and however the calls cut the
    bytes. -/
theorem digest_ne_of_byte {calls calls' : List (List UInt8)} {i : Nat} {b : UInt8}
    (hi : i < calls.flatten.length) (hb : b ≠ calls.flatten[i])
    (hcalls : calls'.flatten = calls.flatten.set i b) : digest calls' ≠ digest calls := by
  unfold digest
  rw [foldl_mixBytes, foldl_mixBytes, hcalls]
  generalize calls.flatten = data at hi hb
  have hdata : data = data.take i ++ data[i] :: data.drop (i + 1) := by
    rw [List.getElem_cons_drop, List.take_append_drop]
  rw [List.set_eq_take_append_cons_drop, if_pos hi]
  conv_rhs => rw [hdata]
  exact foldl_ne_of_change mixByte_state_injective mixByte_injective hb _ _ kOffsetBasis

/-- The first of two bytes, mixed one by one and then together. -/
theorem digest_ne_of_byte_first : digest [[3, 2]] ≠ digest [[1], [2]] :=
  @digest_ne_of_byte [[1], [2]] [[3, 2]] 0 3 (by decide) (by decide) (by decide)

end ReplayHash

end OddsEngine
