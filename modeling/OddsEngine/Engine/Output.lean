/-
  File:      OddsEngine/Engine/Output.lean
  Subject:   What a run of the engine leaves, from the header of its source on (`run` of
             engine/main.cpp, over either source).

  The source is a template parameter: of `SessionReader` and `UdpSource` the run knows the header and
  the records. Of the header it takes the shape, and the seed for the bet log.
-/
import OddsEngine.Engine.BetLog
import OddsEngine.Engine.Run

namespace OddsEngine

open Lib

variable {F : Type} [DoubleArith F] [Convert F]

/-- How a run can end without results. -/
inductive Stop where
  | refused (what : Bytes)
  | outOfBounds (e : OutOfBounds)
  deriving DecidableEq

/-- What a run leaves: the engine's state, and the bet log where one was asked for. -/
structure Output (F : Type) where
  state : EngineState F
  betLog : Option (List UInt8)

/-- `run`, over a source with this header that hands out these records. -/
def runOver (opt : Options F) (service : Nat → Service) (h : SessionHeader) (rs : List OddsUpdate) :
    Except Stop (Output F) := do
  let shape ← (admitShape h).mapError .refused
  let st ← (run opt service shape rs).mapError .outOfBounds
  return { state := st
           betLog := if opt.betsOut.isEmpty then none
             else some (BetLogSink.fileOf h.seed st.bets) }

/-- Of the header a run takes the seed and the shape. -/
theorem runOver_congr (opt : Options F) (service : Nat → Service) {h h' : SessionHeader}
    (hseed : h.seed = h'.seed) (hmarkets : h.markets = h'.markets) (hbooks : h.books = h'.books)
    (rs : List OddsUpdate) : runOver opt service h rs = runOver opt service h' rs := by
  have hshape : admitShape h = admitShape h' := by
    unfold admitShape
    simp only [hmarkets, hbooks]
  unfold runOver
  rw [hshape, hseed]

/-- A header within the table's bounds is let in. -/
theorem admitShape_ok {h : SessionHeader} (hm : h.markets.toNat ≤ 1024) (hb : h.books.toNat ≤ 16) :
    ∃ shape : Shape, admitShape h = .ok shape ∧ shape.markets = h.markets.toNat := by
  unfold admitShape
  rw [dif_neg (Nat.not_lt.mpr hm), dif_neg (Nat.not_lt.mpr hb)]
  exact ⟨_, rfl, rfl⟩

/-- A run over a shape the table holds, of records with four outcomes at most, comes to its end. -/
theorem runOver_ok (opt : Options F) (service : Nat → Service) {h : SessionHeader} {shape : Shape}
    (hshape : admitShape h = .ok shape) {rs : List OddsUpdate}
    (hcounts : ∀ u ∈ rs, u.outcomeCount.toNat ≤ kMaxOutcomes) :
    ∃ st, run opt service shape rs = .ok st ∧ runOver opt service h rs = .ok
      { state := st
        betLog := if opt.betsOut.isEmpty then none
          else some (BetLogSink.fileOf h.seed st.bets) } := by
  have hrun := run_eq opt service shape (countsOk_ticksOf hcounts)
  refine ⟨_, hrun, ?_⟩
  unfold runOver
  rw [hshape]
  simp only [Except.mapError, bind, Except.bind, hrun]
  rfl

end OddsEngine
