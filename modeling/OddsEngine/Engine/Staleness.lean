/-
  File:      OddsEngine/Engine/Staleness.lean
  Subject:   The staleness setting, from the command line to the books a tick uses.

  The setting is in milliseconds, the table's gate in nanoseconds: `process_tick` multiplies by a
  million in 64 bits. A live command is held to an hour, where nothing is lost; the command line
  takes any number, and from 18446744073710 ms on the product starts again from zero.

  * `freshBooks_mono` -- as long as the product does not fall, no book is lost to a tick;
  * `neverExcludes_iff` -- raising the setting from `s₁` to `s₂` excludes no book, in any run and at
    any tick, exactly if the product of `s₁` is at most that of `s₂`, in 64 bits;
  * `freshBooks_mono_of_inRange` -- which it is for all the settings a live command can make.
-/
import OddsEngine.Engine.CommandLine
import OddsEngine.Engine.RejectedRecords
import OddsEngine.Engine.ReplyJson

namespace OddsEngine

open Lib Lib.Json

/-! ## 1. A number written in decimal is read back -/

theorem exists_of_isDigit {d : UInt8} (h : IsDigit d) : ∃ k < 10, d = (0x30 + k).toUInt8 := by
  have hlo : 0x30 ≤ d.toNat := UInt8.le_iff_toNat_le.mp h.1
  have hhi : d.toNat ≤ 0x39 := UInt8.le_iff_toNat_le.mp h.2
  refine ⟨d.toNat - 0x30, by omega, UInt8.toNat_inj.mp ?_⟩
  rw [Nat.add_sub_cancel' hlo]
  exact (UInt8.toNat_ofNat_of_lt' d.toNat_lt).symm

/-- A digit is neither blank nor sign to `strtoull`. -/
theorem reads_digit {d : UInt8} (h : IsDigit d) :
    Ws.isspace d = false ∧ d ≠ 0x2D ∧ d ≠ 0x2B ∧ isdigit d = true := by
  have hall : ∀ k < 10, Ws.isspace (0x30 + k).toUInt8 = false ∧ (0x30 + k).toUInt8 ≠ 0x2D ∧
      (0x30 + k).toUInt8 ≠ 0x2B ∧ isdigit (0x30 + k).toUInt8 = true := by decide
  obtain ⟨k, hk, rfl⟩ := exists_of_isDigit h
  exact hall k hk

/-- The value of a row of digits. -/
def digitsValue (ds : Bytes) : Nat := ds.foldl (fun n c => 10 * n + (c.toNat - 0x30)) 0

theorem digitsValue_decimal (n : Nat) : digitsValue (decimal n) = n := by
  induction n using Nat.strong_induction_on with
  | _ n ih =>
    have hone : ∀ n < 10, digitsValue (decimal n) = n := by decide
    by_cases hn : n < 10
    · exact hone n hn
    · have hmod : n % 10 < 10 := Nat.mod_lt n (by omega)
      have hdigit : (0x30 + n % 10).toUInt8.toNat = 0x30 + n % 10 := UInt8.toNat_ofNat_of_lt' (by
        show _ < 256
        omega)
      rw [decimal_of_ge (by omega), decimal_of_lt hmod]
      unfold digitsValue
      rw [List.foldl_append]
      show 10 * digitsValue (decimal (n / 10)) + ((0x30 + n % 10).toUInt8.toNat - 0x30) = n
      rw [ih (n / 10) (by omega), hdigit]
      omega

theorem isDigit_of_mem_decimal {n : Nat} {x : UInt8} (h : x ∈ decimal n) : IsDigit x := by
  rcases Nat.eq_zero_or_pos n with rfl | hn
  · rw [decimal_of_lt (by decide), List.mem_singleton] at h
    rw [h]
    exact isDigit_digit (by decide)
  · obtain ⟨d, ds, hdecimal, hd, -, hds⟩ := decimal_of_pos hn
    rw [hdecimal] at h
    rcases List.mem_cons.mp h with rfl | hx
    · exact hd
    · exact hds x hx

theorem readDecimal_decimal (n : Nat) : readDecimal (decimal n) = (false, n) := by
  obtain ⟨d, ds, hdecimal, hd⟩ : ∃ d ds, decimal n = d :: ds ∧ IsDigit d :=
    (isInt_decimal n).head
  obtain ⟨hblank, hminus, hplus, -⟩ := reads_digit hd
  have hspace : (decimal n).dropWhile Ws.isspace = decimal n := by
    rw [hdecimal]
    exact List.dropWhile_cons_of_neg (by rw [hblank]; simp)
  have hsign : ∀ c : UInt8, d ≠ c → ((decimal n).head? == some c) = false := by
    intro c hc
    rw [hdecimal]
    exact beq_eq_false_iff_ne.mpr fun e => hc (Option.some.inj e)
  have hdigits : (decimal n).takeWhile isdigit = decimal n :=
    List.takeWhile_eq_self_iff.mpr fun x hx => (reads_digit (isDigit_of_mem_decimal hx)).2.2.2
  unfold readDecimal
  dsimp only
  rw [hspace, hsign _ hminus, hsign _ hplus]
  simp only [Bool.or_self, Bool.false_eq_true, if_false]
  rw [hdigits]
  exact congrArg (Prod.mk false) (digitsValue_decimal n)

/-- Every number of 64 bits can be given on the command line. -/
theorem strtoull_decimal (x : UInt64) : strtoull (decimal x.toNat) = x := by
  have hx : ¬ 2 ^ 64 ≤ x.toNat := Nat.not_le.mpr x.toNat_lt
  unfold strtoull
  rw [readDecimal_decimal]
  dsimp only
  rw [if_neg hx]
  exact UInt64.ofNat_toNat

/-- `--stale-ms` with the number `s`, and nothing else, on the command line. -/
def staleArgs (s : UInt64) : List Bytes := [ascii "--stale-ms", decimal s.toNat]

/-! ## 2. The books a tick uses -/

variable {F : Type} [DoubleArith F] [Convert F]

/-- The books of market `m` whose quotes the tick `c` uses. -/
def freshBooks (cfg : LiveConfig F) (shape : Shape) (c : UInt64 × Table) (m : Fin shape.markets) :
    Set (Fin shape.books) :=
  {b | Fresh cfg c.2 (shape.slot m b) c.1}

/-- The gate in nanoseconds, the product taken in 64 bits. -/
def staleAfter (s : UInt64) : Nat := s.toNat * 1000000 % 2 ^ 64

theorem toNat_mul_million (s : UInt64) : (s * 1000000).toNat = staleAfter s := UInt64.toNat_mul _ _

/-- Below 2^64 the product is the product. -/
theorem staleAfter_mono {s₁ s₂ : UInt64} (hle : s₁ ≤ s₂) (h : s₂.toNat * 1000000 < 2 ^ 64) :
    staleAfter s₁ ≤ staleAfter s₂ := by
  have hnat : s₁.toNat ≤ s₂.toNat := UInt64.le_iff_toNat_le.mp hle
  have hprod : s₁.toNat * 1000000 ≤ s₂.toNat * 1000000 := Nat.mul_le_mul_right _ hnat
  unfold staleAfter
  rw [Nat.mod_eq_of_lt h, Nat.mod_eq_of_lt (lt_of_le_of_lt hprod h)]
  exact hprod

/-- A live command cannot make a setting whose product is lost. -/
theorem staleAfter_of_inRange {cfg : LiveConfig ℝ} (h : InRange cfg) :
    cfg.staleMs.toNat * 1000000 < 2 ^ 64 := by
  have hmax : (3600000 : UInt64).toNat = 3600000 := by decide
  have hle := UInt64.le_iff_toNat_le.mp h.staleMs.2
  omega

omit [DoubleArith F] [Convert F] in
/-- A quote is used if it is there, and not older than the gate. -/
theorem fresh_iff (cfg : LiveConfig F) (table : Table) (s : Fin 1024 × Fin 16) (ts : UInt64) :
    Fresh cfg table s ts ↔ (table.get s).seqNo ≠ kEmptySeq ∧
      ((table.get s).recvTimestampNs < ts →
        (ts - (table.get s).recvTimestampNs).toNat < staleAfter cfg.staleMs) := by
  unfold Fresh BookTable.isStale
  rw [← toNat_mul_million]
  show (if (table.get s).seqNo = kEmptySeq then true
    else if ts ≤ (table.get s).recvTimestampNs then false
    else decide (ts - (table.get s).recvTimestampNs ≥ cfg.staleMs * 1000000)) = false ↔ _
  by_cases hempty : (table.get s).seqNo = kEmptySeq
  · rw [if_pos hempty]
    exact ⟨fun h => absurd h.symm Bool.false_ne_true, fun h => absurd hempty h.1⟩
  · rw [if_neg hempty]
    by_cases hclock : ts ≤ (table.get s).recvTimestampNs
    · rw [if_pos hclock]
      exact ⟨fun _ => ⟨hempty, fun hlt => absurd hlt (not_lt.mpr hclock)⟩, fun _ => rfl⟩
    · rw [if_neg hclock, decide_eq_false_iff_not, ge_iff_le, not_le, UInt64.lt_iff_toNat_lt]
      exact ⟨fun h => ⟨hempty, fun _ => h⟩, fun h => h.2 (not_le.mp hclock)⟩

omit [DoubleArith F] [Convert F] in
/-- **As long as the product does not fall, no book is lost.** -/
theorem freshBooks_mono {cfg₁ cfg₂ : LiveConfig F}
    (h : staleAfter cfg₁.staleMs ≤ staleAfter cfg₂.staleMs) (shape : Shape) (c : UInt64 × Table)
    (m : Fin shape.markets) : freshBooks cfg₁ shape c m ⊆ freshBooks cfg₂ shape c m := by
  intro b hb
  obtain ⟨hthere, hage⟩ := (fresh_iff cfg₁ c.2 _ c.1).mp hb
  exact (fresh_iff cfg₂ c.2 _ c.1).mpr ⟨hthere, fun hlt => (hage hlt).trans_le h⟩

/-- So among the settings a live command can make, the larger one loses none. -/
theorem freshBooks_mono_of_inRange {cfg₁ cfg₂ : LiveConfig ℝ} (h : InRange cfg₂)
    (hle : cfg₁.staleMs ≤ cfg₂.staleMs) (shape : Shape) (c : UInt64 × Table)
    (m : Fin shape.markets) : freshBooks cfg₁ shape c m ⊆ freshBooks cfg₂ shape c m :=
  freshBooks_mono (staleAfter_mono hle (staleAfter_of_inRange h)) shape c m

/-! ## 3. Raising the setting -/

/-- Whatever two runs of the engine read the same records: at every tick at which the setting `s₁`
    is in force in one and `s₂` in the other (from the command line, or by a live command), every
    market uses in the second all the books it uses in the first. -/
def NeverExcludes (F : Type) [DoubleArith F] [Convert F] (s₁ s₂ : UInt64) : Prop :=
  ∀ (argv₁ argv₂ : List Bytes) (opt₁ opt₂ : CliOptions F), parseArgs argv₁ = .ok opt₁ →
    parseArgs argv₂ = .ok opt₂ → ∀ (service₁ service₂ : Nat → Service) (shape : Shape)
    (rs : List OddsUpdate) (k : Nat) (c : UInt64 × Table), (ticksOf rs)[k]? = some c →
    (configAfter opt₁.toOptions service₁ (k + 1)).staleMs = s₁ →
    (configAfter opt₂.toOptions service₂ (k + 1)).staleMs = s₂ → ∀ m,
      freshBooks (configAfter opt₁.toOptions service₁ (k + 1)) shape c m ⊆
        freshBooks (configAfter opt₂.toOptions service₂ (k + 1)) shape c m

/-- The run that starts with `--stale-ms s`. -/
def staleOptions (F : Type) [DoubleArith F] [Convert F] (s : UInt64) : CliOptions F :=
  { (CliOptions.defaults : CliOptions F) with staleMs := s }

theorem parseArgs_staleArgs (s : UInt64) :
    parseArgs (staleArgs s) = .ok (staleOptions F s) := by
  have hlast : parseArgs (staleArgs s) =
      .ok { (CliOptions.defaults : CliOptions F) with staleMs := strtoull (decimal s.toNat) } := rfl
  rw [hlast, strtoull_decimal]
  rfl

/-- The quote of `evenQuote`, sent again when it is `age` old: the table refuses it, the clock
    moves. -/
def sentAgain (age : UInt64) : List OddsUpdate :=
  [evenQuote, { evenQuote with simTimestampNs := age }]

theorem ticksOf_sentAgain {age : UInt64} (h : age ≠ 0) :
    ∃ table, (ticksOf (sentAgain age))[1]? = some (age, table) ∧
      table.get (0, 0) = Quote.ofUpdate evenQuote 0 := by
  refine ⟨(BookTable.receive ({} : Table) evenQuote).receive
    { evenQuote with simTimestampNs := age }, ?_, rfl⟩
  unfold ticksOf sentAgain
  rw [cuts_cons_cons, seam_of_ne _ (fun e => h e.symm)]
  rfl

/-- Where the product falls, a quote whose age is between the two is lost. -/
theorem not_neverExcludes {s₁ s₂ : UInt64} (h : staleAfter s₂ < staleAfter s₁) :
    ¬ NeverExcludes F s₁ s₂ := by
  intro hnever
  have hmod : staleAfter s₁ < 2 ^ 64 := Nat.mod_lt _ (by decide)
  -- every product is a multiple of 64, so below the larger there is room for an age
  have hroom : 1 < staleAfter s₁ := by
    have hdvd : 64 ∣ staleAfter s₁ := by
      unfold staleAfter
      rw [Nat.dvd_mod_iff (by decide)]
      exact Dvd.dvd.mul_left (by decide) _
    obtain ⟨q, hq⟩ := hdvd
    omega
  obtain ⟨age, hage⟩ : ∃ age : UInt64, age.toNat = max 1 (staleAfter s₂) :=
    ⟨UInt64.ofNat (max 1 (staleAfter s₂)), UInt64.toNat_ofNat_of_lt' (by
      show _ < 2 ^ 64
      omega)⟩
  have hne : age ≠ 0 := by
    rintro rfl
    have hzero : (0 : UInt64).toNat = 0 := rfl
    omega
  have hpos : (0 : UInt64) < age := UInt64.lt_iff_toNat_lt.mpr (by
    show 0 < age.toNat
    omega)
  obtain ⟨table, htick, hquote⟩ := ticksOf_sentAgain hne
  have hfresh : ∀ s, Fresh (configAfter (staleOptions F s).toOptions noService (1 + 1)) table
      (0, 0) age ↔ age.toNat < staleAfter s := by
    intro s
    rw [fresh_iff, hquote]
    have hcfg : (configAfter (staleOptions F s).toOptions noService (1 + 1)).staleMs = s := rfl
    rw [hcfg]
    show (1 : UInt64) ≠ kEmptySeq ∧ (0 < age → (age - 0).toNat < _) ↔ _
    rw [UInt64.sub_zero]
    exact ⟨fun hf => hf.2 hpos, fun hlt => ⟨by decide, fun _ => hlt⟩⟩
  have hsub := hnever (staleArgs s₁) (staleArgs s₂) _ _ (parseArgs_staleArgs s₁)
    (parseArgs_staleArgs s₂) noService noService oneBook (sentAgain age) 1 _ htick rfl rfl
    ⟨0, by decide⟩
  have hin : (⟨0, by decide⟩ : Fin oneBook.books) ∈ freshBooks
      (configAfter (staleOptions F s₁).toOptions noService (1 + 1)) oneBook (age, table)
      ⟨0, by decide⟩ := (hfresh s₁).mpr (by omega)
  have hout := (hfresh s₂).mp (hsub hin)
  omega

/-- **Raising the setting from `s₁` to `s₂` excludes no book**, whatever the records and the run,
    exactly if the product does not fall. -/
theorem neverExcludes_iff (s₁ s₂ : UInt64) :
    NeverExcludes F s₁ s₂ ↔ s₁.toNat * 1000000 % 2 ^ 64 ≤ s₂.toNat * 1000000 % 2 ^ 64 := by
  constructor
  · intro h
    by_contra hfall
    exact not_neverExcludes (not_le.mp hfall) h
  · intro h _ _ _ _ _ _ _ _ shape _ _ c _ hs₁ hs₂ m
    exact freshBooks_mono (by rw [hs₁, hs₂]; exact h) shape c m

/-- A second is 1000 ms; 18446744073710 ms come to less than half a millisecond. -/
theorem raised_excludes :
    (1000 : UInt64) ≤ 18446744073710 ∧ ¬ NeverExcludes ℝ 1000 18446744073710 :=
  ⟨by decide, not_neverExcludes (by decide)⟩

end OddsEngine
