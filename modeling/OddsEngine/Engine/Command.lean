/-
  File:      OddsEngine/Engine/Command.lean
  Subject:   The live configuration and the commands that change it (engine/main.cpp, and the field
             extraction of engine/WsServer.hpp).

  A dashboard message is a byte string; `applyCommand` answers it and hands the configuration back,
  changed in at most one field. `jsonString` and `jsonNumber` do not parse JSON: they look for the
  quoted field name anywhere in the message and read what stands behind the next colon.
-/
import OddsEngine.Engine.Devig

namespace OddsEngine

open Lib

abbrev Bytes := List UInt8

/-- The bytes of an ASCII literal. -/
def ascii (s : String) : Bytes := s.toList.map fun c => c.toNat.toUInt8

/-- The conversions between doubles, integers and text the engine uses. -/
class Convert (F : Type) where
  /-- `strtod`: the value, and how many bytes it was read from (0: none). -/
  strtod : Bytes → F × Nat
  /-- `static_cast<uint64_t>`. -/
  toUInt64 : F → UInt64
  /-- `printf("%.nf")`. -/
  fixed : Nat → F → Bytes
  /-- The object representation, as `memcpy` sees it. -/
  bits : F → UInt64

/-- `printf("%u")`, `printf("%llu")`, `std::to_string`. -/
def decimal (n : Nat) : Bytes := ascii (toString n)

attribute [local instance] two_atLeastTwo in
/-- The nearest integer, the even one of two that are equally near. -/
noncomputable def roundEven (x : ℝ) : ℕ :=
  if x - ⌊x⌋₊ < 1 / 2 ∨ (x - ⌊x⌋₊ = 1 / 2 ∧ Even ⌊x⌋₊) then ⌊x⌋₊ else ⌊x⌋₊ + 1

/-- The last `n` digits of `k`. -/
def lowDigits : Nat → Nat → Bytes
  | 0, _ => []
  | n + 1, k => lowDigits n (k / 10) ++ [(0x30 + k % 10).toUInt8]

/-- `printf("%.nf")` of a real. -/
noncomputable def fixedText (n : ℕ) (x : ℝ) : Bytes :=
  let q := roundEven (|x| * 10 ^ n)
  (if x < 0 then ascii "-" else []) ++ decimal (q / 10 ^ n) ++
    (if n = 0 then [] else ascii "." ++ lowDigits n (q % 10 ^ n))

/-- Truncation and printing are exact. Of `strtod` nothing is assumed but that it is a function of the
    text (to a real and the number of characters read), of `bits` that it is one of the real: not that
    a text is read as the number it spells, nor that `bits` keeps two reals apart. What needs more of
    them says so (`ReadsNumbers`); nothing else over the reals depends on the choice. -/
noncomputable instance instConvertReal : Convert ℝ where
  strtod := Classical.choice ⟨fun _ => (0, 0)⟩
  toUInt64 v := ⌊v⌋₊.toUInt64
  fixed := fixedText
  bits := Classical.choice ⟨fun _ => 0⟩

/-- `snprintf` into a buffer of `size` bytes. -/
def snprintf (size : Nat) (text : Bytes) : Bytes := text.take (size - 1)

/-! ## 1. The fields of a message -/

namespace Ws

/-- What follows the first occurrence of `pat`. -/
def afterFirst (pat : Bytes) : Bytes → Option Bytes
  | [] => if pat.isEmpty then some [] else none
  | c :: s => if pat.isPrefixOf (c :: s) then some ((c :: s).drop pat.length) else afterFirst pat s

/-- Nothing is found in what lacks the pattern's first character. -/
theorem afterFirst_append {p : UInt8} {a : Bytes} (h : p ∉ a) (pat s : Bytes) :
    afterFirst (p :: pat) (a ++ s) = afterFirst (p :: pat) s := by
  induction a with
  | nil => rfl
  | cons x a ih =>
    have hx : ¬ (p :: pat).isPrefixOf (x :: (a ++ s)) = true := by
      have hne : p ≠ x := fun e => h (e ▸ List.mem_cons_self)
      simp [List.isPrefixOf, hne]
    rw [List.cons_append, afterFirst, if_neg hx]
    exact ih fun hmem => h (List.mem_cons_of_mem x hmem)

theorem afterFirst_head (p : UInt8) (s : Bytes) : afterFirst [p] (p :: s) = some s := by
  simp [afterFirst, List.isPrefixOf]

/-- `std::isspace` in the C locale. -/
def isspace (c : UInt8) : Bool := c == 0x20 || (0x09 ≤ c && c ≤ 0x0D)

def quote : UInt8 := 0x22

def colon : UInt8 := 0x3A

/-- Where the value of field `name` starts: behind the first colon behind the first `"name"`. -/
def fieldStart (s name : Bytes) : Option Bytes := do
  let s ← afterFirst ([quote] ++ name ++ [quote]) s
  let s ← afterFirst [colon] s
  return s.dropWhile isspace

def jsonString (s name : Bytes) : Option Bytes := do
  match ← fieldStart s name with
  | [] => none
  | c :: rest =>
    if c ≠ quote then none
    else if quote ∈ rest then some (rest.takeWhile (· ≠ quote))
    else none

def jsonNumber {F : Type} [Convert F] (s name : Bytes) : Option F := do
  let start ← fieldStart s name
  -- `c_str()`: `strtod` reads as far as the first NUL
  let (v, read) := Convert.strtod (start.takeWhile (· ≠ 0))
  if read = 0 then none else some v

end Ws

/-! ## 2. The configuration -/

inductive DevigMethod where
  | multiplicative
  | power
  | shin
  deriving DecidableEq, Repr

def devigName : DevigMethod → Bytes
  | .multiplicative => ascii "multiplicative"
  | .power => ascii "power"
  | .shin => ascii "shin"

def parseDevig (s : Bytes) : Option DevigMethod :=
  if s = ascii "multiplicative" then some .multiplicative
  else if s = ascii "power" then some .power
  else if s = ascii "shin" then some .shin
  else none

/-- What a running engine accepts changes to. -/
structure LiveConfig (F : Type) where
  staleMs : UInt64
  kellyFraction : F
  maxExposure : F
  devigMethod : DevigMethod
  changes : UInt64

variable {F : Type} [DoubleArith F] [Convert F]

/-- The method, with the tolerance and the round limit it has by default. -/
def runDevig : DevigMethod → List F → DevigResult F
  | .multiplicative, odds => Devig.multiplicative odds
  | .power, odds => Devig.power odds 1e-13 100
  | .shin, odds => Devig.shin odds 1e-15 200

omit [Convert F] in
theorem countOk_runDevig (method : DevigMethod) (odds : List F) :
    Devig.CountOk odds (runDevig method odds) := by
  cases method with
  | multiplicative => exact Devig.countOk_multiplicative odds
  | power => exact Devig.countOk_power odds _ _
  | shin => exact Devig.countOk_shin odds _ _

omit [Convert F] in
theorem usable_runDevig_iff (method : DevigMethod) (odds : List F) :
    (runDevig method odds).usableAsDistribution = true ↔ (runDevig method odds).status = .ok := by
  cases method with
  | multiplicative => exact (Devig.flagsAgree_multiplicative odds).usable_iff
  | power => exact (Devig.flagsAgree_power odds _ _).usable_iff
  | shin => exact (Devig.flagsAgree_shin odds _ _).usable_iff

/-! ## 3. One command -/

def nack (key why : Bytes) : Bytes :=
  ascii "\x7b\"ok\":false,\"key\":\"" ++ key ++ ascii "\",\"error\":\"" ++ why ++ ascii "\"\x7d"

/-- The reply to an accepted change: `value` is the text of the new value. -/
def ack (key value : Bytes) : Bytes :=
  ascii "\x7b\"ok\":true,\"key\":\"" ++ key ++ ascii "\",\"value\":" ++ value ++ ascii "\x7d"

/-- The reply and the configuration after it. -/
def applyCommand (msg : Bytes) (cfg : LiveConfig F) (hashMode : Bool) : Bytes × LiveConfig F :=
  match Ws.jsonString msg (ascii "cmd") with
  | none => (nack [] (ascii "malformed command"), cfg)
  | some cmd =>
  if cmd ≠ ascii "set" then (nack cmd (ascii "unknown command"), cfg) else
  match Ws.jsonString msg (ascii "key") with
  | none => (nack [] (ascii "missing key"), cfg)
  | some key =>
  if hashMode then (nack key (ascii "configuration is locked in --hash mode"), cfg)
  else if key = ascii "devig" then
    match Ws.jsonString msg (ascii "value") with
    | none => (nack key (ascii "value must be a string"), cfg)
    | some v =>
      match parseDevig v with
      | none => (nack key (ascii "expected multiplicative, power, or shin"), cfg)
      | some m => (ack (ascii "devig") ([Ws.quote] ++ v ++ [Ws.quote]),
          { cfg with devigMethod := m, changes := cfg.changes + 1 })
  else
    match (Ws.jsonNumber msg (ascii "value") : Option F) with
    | none => (nack key (ascii "value must be a number"), cfg)
    | some v =>
      if !Libm.isfinite v then (nack key (ascii "value must be finite"), cfg)
      else if key = ascii "stale-ms" then
        if v < 1 ∨ 3600000 < v then (nack key (ascii "expected 1 to 3600000"), cfg)
        else
          let staleMs := Convert.toUInt64 v
          (snprintf 128 (ack (ascii "stale-ms") (decimal staleMs.toNat)),
            { cfg with staleMs := staleMs, changes := cfg.changes + 1 })
      else if key = ascii "kelly-fraction" then
        if ¬ 0 < v ∨ 1 < v then (nack key (ascii "expected 0 < value <= 1"), cfg)
        else (snprintf 128 (ack (ascii "kelly-fraction") (Convert.fixed 4 v)),
          { cfg with kellyFraction := v, changes := cfg.changes + 1 })
      else if key = ascii "max-exposure" then
        if ¬ 0 < v ∨ 1 < v then (nack key (ascii "expected 0 < value <= 1"), cfg)
        else (snprintf 128 (ack (ascii "max-exposure") (Convert.fixed 4 v)),
          { cfg with maxExposure := v, changes := cfg.changes + 1 })
      else if key = ascii "seed" ∨ key = ascii "markets" ∨ key = ascii "books" ∨
          key = ascii "ticks" then
        (nack key (ascii "immutable mid-run: belongs to the feed, not the engine"), cfg)
      else (nack key (ascii "unknown key"), cfg)

/-- `dispatch_pending`: the queued texts, in order, each answered. -/
def dispatchPending (texts : List Bytes) (cfg : LiveConfig F) (hashMode : Bool) : LiveConfig F :=
  texts.foldl (fun cfg msg => (applyCommand msg cfg hashMode).2) cfg

end OddsEngine
