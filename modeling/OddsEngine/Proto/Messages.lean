/-
  File:      OddsEngine/Proto/Messages.lean
  Subject:   The wire record of one quote, the session file header, and the tick interval
             (proto/messages.hpp, proto/timing.hpp, SessionHeader of sim/OutputSink.hpp).

  Both records are plain structs copied to and from bytes on a little-endian host. The padding
  arrays are fields of the struct in the source and are kept, so a record is its 64 bytes:
  `OddsUpdate.ofBytes_toBytes`, `SessionHeader.ofBytes_toBytes`.
-/
import Mathlib.Data.Fintype.Pi
import Mathlib.Data.Fin.VecNotation
import Mathlib.Tactic.FinCases
import OddsEngine.Lib.LittleEndian

namespace OddsEngine

open Lib

/-- Simulated tick interval: 100 ms. -/
def kTickIntervalNs : UInt64 := 100000000

/-- A market's number has 16 bits on the wire. -/
def kMaxMarketsSupported : UInt32 := 65535

/-! ## 1. One book's quote on one market -/

/-- One quote on the wire. Slots of `oddsMilli` (decimal odds times 1000) from `outcomeCount` on
    are zero where the sender keeps to the format; nothing here enforces it. -/
structure OddsUpdate where
  seqNo : UInt64 := 0
  simTimestampNs : UInt64 := 0
  bookId : UInt16 := 0
  marketId : UInt16 := 0
  outcomeCount : UInt8 := 0
  pad0 : Fin 3 → UInt8 := fun _ => 0
  oddsMilli : Fin 4 → UInt32 := fun _ => 0
  pad1 : Fin 24 → UInt8 := fun _ => 0
  deriving DecidableEq

namespace OddsUpdate

/-- `sizeof(OddsUpdate)`. -/
def size : Nat := 64

/-- The struct as it lies in memory. -/
def toBytes (u : OddsUpdate) : List UInt8 :=
  u64 u.seqNo ++ (u64 u.simTimestampNs ++ (u16 u.bookId ++ (u16 u.marketId ++
    (u.outcomeCount :: (List.ofFn u.pad0 ++ (u32 (u.oddsMilli 0) ++ (u32 (u.oddsMilli 1) ++
      (u32 (u.oddsMilli 2) ++ (u32 (u.oddsMilli 3) ++ (List.ofFn u.pad1 ++ []))))))))))

/-- `memcpy(&u, p, sizeof(u))`. -/
def ofBytes (bs : List UInt8) : OddsUpdate :=
  let (seqNo, bs) := getU64 bs
  let (simTimestampNs, bs) := getU64 bs
  let (bookId, bs) := getU16 bs
  let (marketId, bs) := getU16 bs
  let (outcomeCount, bs) := getU8 bs
  let (pad0, bs) := getRaw 3 bs
  let (o0, bs) := getU32 bs
  let (o1, bs) := getU32 bs
  let (o2, bs) := getU32 bs
  let (o3, bs) := getU32 bs
  let (pad1, _) := getRaw 24 bs
  { seqNo, simTimestampNs, bookId, marketId, outcomeCount, pad0,
    oddsMilli := ![o0, o1, o2, o3], pad1 }

@[simp] theorem toBytes_length (u : OddsUpdate) : u.toBytes.length = size := by
  simp [toBytes, size]

/-- A record survives the copy into a packet and out of it, whatever follows it there. -/
@[simp] theorem ofBytes_toBytes (u : OddsUpdate) (bs : List UInt8) :
    ofBytes (u.toBytes ++ bs) = u := by
  have hodds : ![u.oddsMilli 0, u.oddsMilli 1, u.oddsMilli 2, u.oddsMilli 3] = u.oddsMilli := by
    funext i
    fin_cases i <;> rfl
  simp only [toBytes, ofBytes, List.append_assoc, List.cons_append, List.nil_append, getU64_u64,
    getU16_u16, getU32_u32, getU8_cons, getRaw_ofFn, hodds]

/-- A record is read from its own 64 bytes. -/
theorem ofBytes_append {bs : List UInt8} (h : size ≤ bs.length) (rest : List UInt8) :
    ofBytes (bs ++ rest) = ofBytes bs := by
  have hlen : 64 ≤ bs.length := h
  simp (disch := (try simp only [getU64_length, getU32_length, getU16_length, getU8_length,
      getRaw_length]) <;> omega) only
    [ofBytes, getU64_append, getU32_append, getU16_append, getU8_append, getRaw_append]

end OddsUpdate

/-! ## 2. The header of a session file -/

structure SessionHeader where
  magic : UInt32 := 0
  version : UInt16 := 0
  recordSize : UInt16 := 0
  seed : UInt64 := 0
  markets : UInt32 := 0
  books : UInt32 := 0
  ticks : UInt64 := 0
  recordCount : UInt64 := 0
  pad : Fin 24 → UInt8 := fun _ => 0
  deriving DecidableEq

/-- 'ODDS' little-endian. -/
def kSessionMagic : UInt32 := 0x5344444F

def kSessionVersion : UInt16 := 1

namespace SessionHeader

/-- `sizeof(SessionHeader)`. -/
def size : Nat := 64

/-- `offsetof(SessionHeader, record_count)`. -/
def recordCountOffset : Nat := 32

def toBytes (h : SessionHeader) : List UInt8 :=
  u32 h.magic ++ (u16 h.version ++ (u16 h.recordSize ++ (u64 h.seed ++ (u32 h.markets ++
    (u32 h.books ++ (u64 h.ticks ++ (u64 h.recordCount ++ (List.ofFn h.pad ++ []))))))))

def ofBytes (bs : List UInt8) : SessionHeader :=
  let (magic, bs) := getU32 bs
  let (version, bs) := getU16 bs
  let (recordSize, bs) := getU16 bs
  let (seed, bs) := getU64 bs
  let (markets, bs) := getU32 bs
  let (books, bs) := getU32 bs
  let (ticks, bs) := getU64 bs
  let (recordCount, bs) := getU64 bs
  let (pad, _) := getRaw 24 bs
  { magic, version, recordSize, seed, markets, books, ticks, recordCount, pad }

@[simp] theorem toBytes_length (h : SessionHeader) : h.toBytes.length = size := by
  simp [toBytes, size]

@[simp] theorem ofBytes_toBytes (h : SessionHeader) (bs : List UInt8) :
    ofBytes (h.toBytes ++ bs) = h := by
  simp only [toBytes, ofBytes, List.append_assoc, List.nil_append, getU64_u64, getU16_u16,
    getU32_u32, getRaw_ofFn]

end SessionHeader

end OddsEngine
