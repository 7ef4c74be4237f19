/-
  File:      OddsEngine/Tools/OutcomeCount.lean
  Subject:   The `outcome_count` byte of a record, in the engine and in validate_devig.

  Nothing on the way from the wire to the arrays of four looks at the byte. `recordSafe_iff`: a
  record is stored, priced and scored within the arrays exactly if it states at most four outcomes.
  The best-odds loop of `process_tick` checks the bound, the loop beside it that copies the odds
  does not, and neither does the copy in validate_devig; the check of `valid_odds` comes after both.
-/
import OddsEngine.Tools.ValidateDevig
import OddsEngine.Engine.Run

namespace OddsEngine

open Lib

/-! ## 1. The engine -/

section Engine

variable {F : Type} [DoubleArith F] [Convert F]

/-- A market that is out of bounds under every configuration stops the tick. -/
theorem processTick_fault (opt : Options F) (service : Nat → Service) (shape : Shape) (ts : UInt64)
    (table : Table) (st : EngineState F) {m : Fin shape.markets}
    (h : ∀ cfg : LiveConfig F, ¬ MarketInBounds cfg table shape m ts) :
    processTick opt service shape ts table st = .error ⟨kMaxOutcomes, kMaxOutcomes⟩ :=
  processTick_of_outOfBounds fun hin => h _ (hin m)

/-- The shape of a session that has the slot. -/
def shapeOf (s : Fin 1024 × Fin 16) : Shape :=
  { markets := s.1.val + 1, books := s.2.val + 1, markets_le := s.1.isLt, books_le := s.2.isLt }

omit [DoubleArith F] [Convert F] in
/-- A quote is fresh on the tick it came in. -/
theorem fresh_receive {u : OddsUpdate} {s : Fin 1024 × Fin 16} (hs : BookTable.slot? u = some s)
    (hseq : u.seqNo ≠ kEmptySeq) (cfg : LiveConfig F) :
    Fresh cfg (BookTable.receive {} u) s u.simTimestampNs ∧
      ((BookTable.receive {} u : Table).get s).outcomeCount = u.outcomeCount := by
  have happly : (BookTable.receive {} u : Table).get s = Quote.ofUpdate u u.simTimestampNs := by
    unfold BookTable.receive BookTable.apply
    rw [hs]
    exact Function.update_self s _ _
  have htable : (BookTable.receive {} u : Table).table s = Quote.ofUpdate u u.simTimestampNs :=
    happly
  refine ⟨?_, by rw [happly]; rfl⟩
  unfold Fresh BookTable.isStale
  rw [htable]
  have hwritten : (Quote.ofUpdate u u.simTimestampNs).seqNo ≠ kEmptySeq := hseq
  have hnow : u.simTimestampNs ≤ (Quote.ofUpdate u u.simTimestampNs).recvTimestampNs :=
    UInt64.le_refl _
  dsimp only
  rw [if_neg hwritten, if_pos hnow]

/-- **A run over one record of more than four outcomes**, in a session that has its market and its
    book, subscripts past the end of `odds`. -/
theorem run_fault (opt : Options F) (service : Nat → Service) {u : OddsUpdate}
    {s : Fin 1024 × Fin 16} (hs : BookTable.slot? u = some s) (hseq : u.seqNo ≠ kEmptySeq)
    (hu : kMaxOutcomes < u.outcomeCount.toNat) :
    run opt service (shapeOf s) [u] = .error ⟨kMaxOutcomes, kMaxOutcomes⟩ := by
  unfold run
  rw [recordLoop_eq_cuts]
  show (processTick opt service (shapeOf s) u.simTimestampNs (BookTable.receive {} u) opt.initial >>=
    fun st => pure st) = _
  have hout : ∀ cfg : LiveConfig F, ¬ MarketInBounds cfg (BookTable.receive {} u) (shapeOf s)
      ⟨s.1.val, Nat.lt_succ_self _⟩ u.simTimestampNs := by
    intro cfg h
    obtain ⟨hfresh, hcount⟩ := fresh_receive hs hseq cfg
    have hle : ((BookTable.receive {} u : Table).get s).outcomeCount.toNat ≤ kMaxOutcomes :=
      h ⟨s.2.val, Nat.lt_succ_self _⟩ hfresh
    rw [hcount] at hle
    omega
  rw [processTick_fault opt service (shapeOf s) u.simTimestampNs (BookTable.receive {} u)
    opt.initial hout]
  rfl

end Engine

/-! ## 2. Both programs -/

section Both

variable (F : Type) [DoubleArith F] [Convert F]

/-- Whatever the engine's options, clients and session, and wherever the record comes in among
    records of at most four outcomes, storing and pricing it touches no array outside its bounds. -/
def EngineSafe (u : OddsUpdate) : Prop :=
  ∀ (opt : Options F) (service : Nat → Service) (shape : Shape) (pre post : List OddsUpdate),
    (∀ v ∈ pre ++ post, v.outcomeCount.toNat ≤ kMaxOutcomes) →
      Safe (run opt service shape (pre ++ u :: post))

/-- ... and so with scoring it. -/
def ValidateSafe (u : OddsUpdate) : Prop :=
  ∀ (truth : List (TruthRecord F)) (lagTicks : UInt64) (pre post : List OddsUpdate),
    (∀ v ∈ pre ++ post, v.outcomeCount.toNat ≤ kMaxOutcomes) →
      Safe (ValidateDevig.scoreSession truth lagTicks (pre ++ u :: post))

/-- Every array access made for the record has an index below the array's length. -/
def RecordSafe (u : OddsUpdate) : Prop := EngineSafe F u ∧ ValidateSafe F u

theorem counts_of_insert {u : OddsUpdate} (hu : u.outcomeCount.toNat ≤ kMaxOutcomes)
    {pre post : List OddsUpdate} (h : ∀ v ∈ pre ++ post, v.outcomeCount.toNat ≤ kMaxOutcomes) :
    ∀ v ∈ pre ++ u :: post, v.outcomeCount.toNat ≤ kMaxOutcomes := by
  intro v hv
  rcases List.mem_append.mp hv with hv | hv
  · exact h v (List.mem_append_left _ hv)
  · rcases List.mem_cons.mp hv with rfl | hv
    · exact hu
    · exact h v (List.mem_append_right _ hv)

theorem engineSafe_of_le {u : OddsUpdate} (hu : u.outcomeCount.toNat ≤ kMaxOutcomes) :
    EngineSafe F u := by
  intro opt service shape pre post h
  rw [run_eq opt service shape (countsOk_ticksOf (counts_of_insert hu h))]
  exact safe_ok _

omit [Convert F] in
theorem validateSafe_iff (u : OddsUpdate) :
    ValidateSafe F u ↔ u.outcomeCount.toNat ≤ kMaxOutcomes := by
  constructor
  · intro h
    by_contra hu
    have hlt : kMaxOutcomes < u.outcomeCount.toNat := by omega
    -- a truth file that knows the record's tick and market
    let t : TruthRecord F :=
      { tick := u.simTimestampNs / kTickIntervalNs, marketId := u.marketId, outcomeCount := 0,
        prob := fun _ => 0 }
    have hsub : u.simTimestampNs / kTickIntervalNs - 0 = u.simTimestampNs / kTickIntervalNs := by
      simp
    have hm : ValidateDevig.Matched [t] 0 u := by
      refine ⟨not_lt.mpr UInt64.zero_le, ?_⟩
      rw [hsub, show TruthReader.find [t] (u.simTimestampNs / kTickIntervalNs) u.marketId = some t
        from TruthReader.find_singleton t]
      exact Option.some_ne_none t
    have hsafe := h [t] 0 [] [] (fun v hv => absurd hv List.not_mem_nil)
    unfold ValidateDevig.scoreSession at hsafe
    rw [List.nil_append, List.foldlM_cons, ValidateDevig.scoreRecord_fault _ hm hlt] at hsafe
    exact not_safe_error _ hsafe
  · intro hu truth lagTicks pre post h
    exact safe_foldlM (fun s v hv =>
      ValidateDevig.safe_scoreRecord truth lagTicks s (counts_of_insert hu h v hv)) _

/-- Some options; the stake figures do not matter here. -/
def zeroOptions : Options F :=
  { wsPort := 0, wsMarkets := 20, betsOut := [], hash := false, staleMs := 3000, kellyFraction := 0,
    maxExposure := 0, devigMethod := .shin }

theorem engineSafe_iff {u : OddsUpdate} (s : Fin 1024 × Fin 16) (hs : BookTable.slot? u = some s)
    (hseq : u.seqNo ≠ kEmptySeq) : EngineSafe F u ↔ u.outcomeCount.toNat ≤ kMaxOutcomes := by
  constructor
  · intro h
    by_contra hu
    have hsafe := h (zeroOptions F) (fun _ => { texts := [], pushDue := false }) (shapeOf s) [] []
      (fun v hv => absurd hv List.not_mem_nil)
    rw [List.nil_append, run_fault _ _ hs hseq (by omega)] at hsafe
    exact not_safe_error _ hsafe
  · exact engineSafe_of_le F

/-- **A record is handled within the arrays exactly if it states at most four outcomes.** Of the
    two programs, validate_devig alone already needs it of every record, and the engine of every
    record with a slot in the table (and a number other than the mark for an empty slot, which
    hides the quote). -/
theorem recordSafe_iff (u : OddsUpdate) :
    (RecordSafe F u ↔ u.outcomeCount.toNat ≤ kMaxOutcomes) ∧
      (ValidateSafe F u ↔ u.outcomeCount.toNat ≤ kMaxOutcomes) ∧
      (∀ s : Fin 1024 × Fin 16, BookTable.slot? u = some s → u.seqNo ≠ kEmptySeq →
        (EngineSafe F u ↔ u.outcomeCount.toNat ≤ kMaxOutcomes)) := by
  refine ⟨⟨fun h => (validateSafe_iff F u).mp h.2, fun hu => ?_⟩, validateSafe_iff F u,
    fun s hs hseq => engineSafe_iff F s hs hseq⟩
  exact ⟨engineSafe_of_le F hu, (validateSafe_iff F u).mpr hu⟩

end Both

/-- A record of three outcomes is safe in both programs. -/
theorem recordSafe_iff_three_outcomes :
    RecordSafe ℝ { seqNo := 1, outcomeCount := 3 } ∧ EngineSafe ℝ { seqNo := 1, outcomeCount := 3 } :=
  have h := recordSafe_iff ℝ { seqNo := 1, outcomeCount := 3 }
  ⟨h.1.mpr (by decide), (h.2.2 (0, 0) (by decide) (by decide)).mpr (by decide)⟩

/-- One of five outcomes is safe in neither. -/
theorem not_recordSafe_five :
    ¬ RecordSafe ℝ { seqNo := 1, outcomeCount := 5 } ∧
      ¬ EngineSafe ℝ { seqNo := 1, outcomeCount := 5 } ∧
      ¬ ValidateSafe ℝ { seqNo := 1, outcomeCount := 5 } := by
  have hengine : ¬ EngineSafe ℝ { seqNo := 1, outcomeCount := 5 } := fun h =>
    absurd ((engineSafe_iff ℝ (0, 0) (by decide) (by decide)).mp h) (by decide)
  have hvalidate : ¬ ValidateSafe ℝ { seqNo := 1, outcomeCount := 5 } := fun h =>
    absurd ((validateSafe_iff ℝ _).mp h) (by decide)
  exact ⟨fun h => hengine h.1, hengine, hvalidate⟩

end OddsEngine
