/-
  File:      OddsEngine/Sim/Seeding.lean
  Subject:   Where the simulator's random streams get their seeds (sim/Seeding.hpp, `main` of
             sim/main.cpp).

  A stream's domain and index are folded into one number, `domain * 0x1000193 + index`; mixing it
  with the master seed loses nothing (`deriveSeed_eq_iff`), so two streams share a seed exactly
  when their folded numbers are one. A bookmaker's index grows by 1000 for each market, and the
  next domain begins 16777619 further on: from market 16778 the bookmakers' numbers run into the
  settlement's.

  * `deriveSeed_tells` -- a seed tells the folded number under one master, and the master of one
    folded number;
  * `streamSeeds_nodup_iff` -- the seeds of a simulation are distinct up to 16778 markets, and at
    no larger number of them.
-/
import Mathlib.Data.List.Nodup
import Mathlib.Data.Nat.ModEq
import OddsEngine.Lib.Mixing
import OddsEngine.Sim.Bookmaker

namespace OddsEngine

open Lib

namespace Seeding

/-! ## 1. The mixer -/

def splitmix64 (x : UInt64) : UInt64 :=
  let x := x + 0x9E3779B97F4A7C15
  let x := (x ^^^ (x >>> 30)) * 0xBF58476D1CE4E5B9
  let x := (x ^^^ (x >>> 27)) * 0x94D049BB133111EB
  x ^^^ (x >>> 31)

/-- Domain and index as one number. -/
def fold (domain index : UInt64) : UInt64 := domain * 0x1000193 + index

def deriveSeed (master domain index : UInt64) : UInt64 :=
  splitmix64 (master ^^^ splitmix64 (fold domain index))

/-- **The mixer maps distinct words to distinct words**: it is a chain of six permutations. -/
theorem splitmix64_injective : Function.Injective splitmix64 := by
  have first : Function.Injective (fun x : UInt64 => x * 0xBF58476D1CE4E5B9) :=
    @mul_const_injective _ 0x96DE1B173F119089 (by decide)
  have second : Function.Injective (fun x : UInt64 => x * 0x94D049BB133111EB) :=
    @mul_const_injective _ 0x319642B2D24D8EC3 (by decide)
  have chain : splitmix64 = xorShift 31 ∘ (fun x : UInt64 => x * 0x94D049BB133111EB) ∘
      xorShift 27 ∘ (fun x : UInt64 => x * 0xBF58476D1CE4E5B9) ∘ xorShift 30 ∘
      (fun x : UInt64 => x + 0x9E3779B97F4A7C15) := rfl
  rw [chain]
  exact (xorShift_injective (by decide)).comp (second.comp ((xorShift_injective (by decide)).comp
    (first.comp ((xorShift_injective (by decide)).comp (add_const_injective _)))))

/-- Under one master seed, a seed tells the folded number it came from. -/
theorem deriveSeed_eq_iff (master d i d' i' : UInt64) :
    deriveSeed master d i = deriveSeed master d' i' ↔ fold d i = fold d' i' := by
  constructor
  · intro h
    exact splitmix64_injective (xor_const_injective master (splitmix64_injective h))
  · intro h
    unfold deriveSeed
    rw [h]

/-- Two folded numbers are one where they are modulo 2^64. -/
theorem fold_eq_iff (d i d' i' : UInt64) : fold d i = fold d' i' ↔
    d.toNat * 0x1000193 + i.toNat ≡ d'.toNat * 0x1000193 + i'.toNat [MOD 2 ^ 64] := by
  have hnat : ∀ d i : UInt64, (fold d i).toNat = (d.toNat * 0x1000193 + i.toNat) % 2 ^ 64 := by
    intro d i
    have hstride : (0x1000193 : UInt64).toNat = 0x1000193 := rfl
    rw [fold, UInt64.toNat_add, UInt64.toNat_mul, hstride, Nat.mod_add_mod]
  rw [← UInt64.toNat_inj, hnat, hnat]
  rfl

/-- For one stream, every master has its seed and every seed its master. -/
theorem deriveSeed_bijective (d i : UInt64) :
    Function.Bijective fun master => deriveSeed master d i :=
  bijective_of_injective (splitmix64_injective.comp (xor_right_injective _))

/-- **What a seed tells**: under one master the domain and index it was derived from, up to their
    folded number; and for one domain and index the master. -/
theorem deriveSeed_tells (d i d' i' : UInt64) :
    (∀ master, deriveSeed master d i = deriveSeed master d' i' ↔
      d.toNat * 0x1000193 + i.toNat ≡ d'.toNat * 0x1000193 + i'.toNat [MOD 2 ^ 64]) ∧
    (Function.Bijective fun master => deriveSeed master d i) ∧
    ∀ master master', deriveSeed master d i = deriveSeed master' d i ↔ master = master' :=
  ⟨fun master => (deriveSeed_eq_iff master d i d' i').trans (fold_eq_iff d i d' i'),
    deriveSeed_bijective d i, fun _ _ => (deriveSeed_bijective d i).1.eq_iff⟩

/-! ## 2. The streams of a simulation -/

/-- `seed_domain::kLatentMarket`. -/
def kLatentMarket : UInt64 := 1

/-- `seed_domain::kBookmaker`. -/
def kBookmaker : UInt64 := 2

/-- `seed_domain::kSettlement`. -/
def kSettlement : UInt64 := 3

/-- What the simulator draws random numbers for. -/
inductive Stream where
  /-- The latent probabilities of market `m`. -/
  | latent (m : Nat)
  /-- The noise of the `b`-th book of the roster on market `m`. -/
  | noise (m b : Nat)
  /-- The winner of market `m`. -/
  | settlement (m : Nat)
  deriving DecidableEq

namespace Stream

def domain : Stream → UInt64
  | latent _ => kLatentMarket
  | noise _ _ => kBookmaker
  | settlement _ => kSettlement

def index : Stream → UInt64
  | latent m => m.toUInt64
  | noise m b => m.toUInt64 * 1000 + b.toUInt64
  | settlement m => m.toUInt64

def seed (master : UInt64) (s : Stream) : UInt64 := deriveSeed master s.domain s.index

end Stream

/-- The streams of a simulation, in the order `main` seeds them: market by market the latent
    stream and those of its books, and after the generation one draw for each market. -/
def streams (markets books : Nat) : List Stream :=
  ((List.range markets).flatMap fun m =>
    Stream.latent m :: (List.range books).map fun b => Stream.noise m b) ++
  (List.range markets).map Stream.settlement

/-- The seeds of a simulation of `markets` markets, with the books of `roster`. -/
def streamSeeds {F : Type} (roster : List (SimBookConfig F)) (master : UInt64) (markets : Nat) :
    List UInt64 :=
  (streams markets roster.length).map (Stream.seed master)

/-- The streams of a simulation, one by one. -/
def Stream.Runs (markets books : Nat) : Stream → Prop
  | latent m => m < markets
  | noise m b => m < markets ∧ b < books
  | settlement m => m < markets

theorem mem_streams {markets books : Nat} (s : Stream) :
    s ∈ streams markets books ↔ s.Runs markets books := by
  cases s with
  | latent m => simp [streams, Stream.Runs]
  | noise m b => simp [streams, Stream.Runs]
  | settlement m => simp [streams, Stream.Runs]

/-- No stream is set up twice. -/
theorem streams_nodup (markets books : Nat) : (streams markets books).Nodup := by
  have books_nodup : ∀ m, ((List.range books).map fun b => Stream.noise m b).Nodup := by
    intro m
    refine List.nodup_range.map fun b b' h => ?_
    injection h
  have settled : ((List.range markets).map Stream.settlement).Nodup := by
    refine List.nodup_range.map fun m m' h => ?_
    injection h
  refine List.Nodup.append (List.nodup_flatMap.mpr ⟨fun m _ => ?_, ?_⟩) settled ?_
  · exact List.nodup_cons.mpr ⟨by simp, books_nodup m⟩
  · refine List.nodup_range.imp fun {m m'} hne s hs hs' => ?_
    simp only [List.mem_cons, List.mem_map, List.mem_range] at hs hs'
    rcases hs with rfl | ⟨b, _, rfl⟩
    · rcases hs' with h | ⟨_, _, h⟩
      · exact hne (by injection h)
      · cases h
    · rcases hs' with h | ⟨_, _, h⟩
      · cases h
      · exact hne (by injection h with h _; exact h.symm)
  · intro s hs hs'
    obtain ⟨m, _, rfl⟩ := List.mem_map.mp hs'
    simp at hs

/-! ## 3. Where two streams meet -/

/-- The folded number of a stream, before it is cut to 64 bits. -/
def Stream.folded : Stream → Nat
  | latent m => 16777619 + m
  | noise m b => 2 * 16777619 + (m * 1000 + b)
  | settlement m => 3 * 16777619 + m

/-- Up to 2^32 markets, and as many books, nothing is cut. -/
theorem toNat_fold {markets books : Nat} {s : Stream} (h : s.Runs markets books)
    (hm : markets ≤ 2 ^ 32) (hb : books ≤ 2 ^ 32) :
    (fold s.domain s.index).toNat = s.folded := by
  have small : ∀ n, n < 2 ^ 32 → n.toUInt64.toNat = n := fun n hn =>
    UInt64.toNat_ofNat_of_lt' (Nat.lt_trans hn (by decide))
  have stride : (0x1000193 : UInt64).toNat = 16777619 := rfl
  have thousand : (1000 : UInt64).toNat = 1000 := rfl
  cases s with
  | latent m =>
    have hm' : m < markets := h
    have hd : kLatentMarket.toNat = 1 := rfl
    simp only [fold, Stream.domain, Stream.index, Stream.folded, UInt64.toNat_add,
      UInt64.toNat_mul, small m (by omega), stride, hd]
    omega
  | noise m b =>
    obtain ⟨hm', hb'⟩ : m < markets ∧ b < books := h
    have hd : kBookmaker.toNat = 2 := rfl
    simp only [fold, Stream.domain, Stream.index, Stream.folded, UInt64.toNat_add,
      UInt64.toNat_mul, small m (by omega), small b (by omega), stride, thousand, hd]
    omega
  | settlement m =>
    have hm' : m < markets := h
    have hd : kSettlement.toNat = 3 := rfl
    simp only [fold, Stream.domain, Stream.index, Stream.folded, UInt64.toNat_add,
      UInt64.toNat_mul, small m (by omega), stride, hd]
    omega

/-- Up to 16778 markets the three domains keep apart, and inside each the index does. -/
theorem folded_injective {markets books : Nat} (hm : markets ≤ 16778) (hb : books ≤ 619)
    {s s' : Stream} (hs : s.Runs markets books) (hs' : s'.Runs markets books)
    (h : s.folded = s'.folded) : s = s' := by
  cases s <;> cases s' <;> simp only [Stream.Runs, Stream.folded] at hs hs' h
  case latent.latent => congr 1; omega
  case noise.noise =>
    congr 1
    · omega
    · omega
  case settlement.settlement => congr 1; omega
  all_goals omega

/-- The first book of market 16778 and the draw of market 381 have one folded number, and so one
    seed under every master. -/
theorem seed_noise_eq_seed_settlement (master : UInt64) :
    (Stream.noise 16778 0).seed master = (Stream.settlement 381).seed master :=
  (deriveSeed_eq_iff master _ _ _ _).mpr (by decide)

/-- From market 16778 on, a simulation has a seed twice. -/
theorem not_nodup_of_lt {F : Type} (roster : List (SimBookConfig F)) (hr : 0 < roster.length)
    (master : UInt64) {markets : Nat} (h : 16778 < markets) :
    ¬ (streamSeeds roster master markets).Nodup := by
  intro hnd
  have inj := (List.nodup_map_iff_inj_on (streams_nodup markets roster.length)).mp hnd
  have same := inj (Stream.noise 16778 0) ((mem_streams _).mpr ⟨h, hr⟩) (Stream.settlement 381)
    ((mem_streams _).mpr (Nat.lt_trans (by decide) h)) (seed_noise_eq_seed_settlement master)
  cases same

/-- **The seeds of a simulation are pairwise distinct exactly up to 16778 markets**, under every
    master seed. -/
theorem streamSeeds_nodup_iff {F : Type} [DoubleArith F] (master : UInt64) (markets : Nat) :
    (streamSeeds (defaultRoster : List (SimBookConfig F)) master markets).Nodup ↔
      markets ≤ 16778 := by
  constructor
  · intro h
    by_contra hlt
    exact not_nodup_of_lt _ (by rw [defaultRoster_length]; decide) master (not_le.mp hlt) h
  · intro hm
    refine (List.nodup_map_iff_inj_on (streams_nodup markets _)).mpr fun s hs s' hs' h => ?_
    have hs := (mem_streams s).mp hs
    have hs' := (mem_streams s').mp hs'
    have hfold := congrArg UInt64.toNat ((deriveSeed_eq_iff master _ _ _ _).mp h)
    rw [toNat_fold hs (by omega) (by simp), toNat_fold hs' (by omega) (by simp)] at hfold
    exact folded_injective hm (by simp) hs hs' hfold

/-- 16779 markets, well inside what the command line admits, under the default master seed. -/
theorem streamSeeds_collide :
    ¬ (streamSeeds (defaultRoster : List (SimBookConfig ℝ)) 42 16779).Nodup :=
  not_nodup_of_lt _ (by rw [defaultRoster_length]; decide) 42 (by decide)

end Seeding

end OddsEngine
