/-
  File:      OddsEngine/Tools/DevigScores.lean
  Subject:   The tables of the devig validation (`main` of tools/validate_devig.cpp, from the files to
             what it prints).

  Every error is booked twice: in its method's row of the overall table and, by the probability it is
  an error of, in one of the three tables behind it. The tool keeps sums, squares, the largest and a
  count, and prints the quotients.

  * `foldlM_scoreRecord` -- the sums are those of the errors of all records, in their order;
  * `tables_of_run` -- so on any two files the three tables make up the overall one, and in every row
    the mean error is at most the root of the mean square, and this at most the worst.
-/
import Mathlib.Algebra.BigOperators.Group.Finset.Piecewise
import Mathlib.Analysis.SpecialFunctions.Sqrt
import OddsEngine.Lib.ErrorSummary
import OddsEngine.Sim.SideFiles
import OddsEngine.Tools.TruthLookup
import OddsEngine.Tools.VerifiedReplay

namespace OddsEngine

open Lib

namespace ValidateDevig

section Program

variable {F : Type} [DoubleArith F]

def MethodStats.mae (s : MethodStats F) : F :=
  if s.n ≠ 0 then s.absSum / ((s.n.toNat : ℕ) : F) else 0

def MethodStats.rmse (s : MethodStats F) : F :=
  if s.n ≠ 0 then Libm.sqrt (s.sqSum / ((s.n.toNat : ℕ) : F)) else 0

theorem methods_pos : 0 < 3 := by decide

/-- The method the last line names: the first with the lowest mean error. -/
def Scores.best (s : Scores F) : Fin 3 :=
  ((List.finRange 3).drop 1).foldl
    (fun best i => if (s.overall i).mae < (s.overall best).mae then i else best) ⟨0, methods_pos⟩

/-- The options of a command line that parses. -/
structure Args where
  session : Bytes
  truth : Bytes
  lagTicks : UInt64 := 0

/-- How `main` can leave its `try` block without tables. -/
inductive Failure where
  | exception (what : Bytes)
  | outOfBounds (e : OutOfBounds)
  /-- No session record matched any truth record. -/
  | unmatched
  deriving DecidableEq

/-- `while (session.next(u))`. -/
def scoreAll (truth : List (TruthRecord F)) (lagTicks : UInt64) (reader : SessionReader)
    (s : Scores F) : Except Failure (Scores F) :=
  match _ : reader.next with
  | .error e => .error (.exception e)
  | .ok (none, _) => .ok s
  | .ok (some u, reader') =>
    match scoreRecord truth lagTicks s u with
    | .error e => .error (.outOfBounds e)
    | .ok s => scoreAll truth lagTicks reader' s
  termination_by reader.file.length
  decreasing_by exact SessionReader.next_shrinks ‹_›

variable [FromBits F]

/-- `main`, on the files of a file system. -/
def run (args : Args) (files : Bytes → Option (List UInt8)) : Except Failure (Scores F) := do
  let session ← (SessionReader.start args.session (files args.session)).mapError .exception
  let truth ← (TruthReader.load args.truth (files args.truth)).mapError .exception
  let scores ← scoreAll truth args.lagTicks session Scores.init
  if scores.matched = 0 then .error .unmatched else return scores

end Program

/-! ## 1. What is booked -/

section Booked

variable {F : Type} [DoubleArith F]

/-- What the constructor and the calls of `add` make of these errors. -/
def statsOf (es : List F) : MethodStats F := es.foldl MethodStats.add MethodStats.init

theorem statsOf_concat (es : List F) (e : F) : statsOf (es ++ [e]) = (statsOf es).add e := by
  unfold statsOf
  rw [List.foldl_append]
  rfl

/-- The error of one outcome, with the bucket of the probability it is an error of. -/
def errorAt (t : TruthRecord F) (r : DevigResult F) (i : Fin kMaxOutcomes) : Bucket × F :=
  (classify (t.prob i), r.prob i - t.prob i)

/-- The errors of one method's answer. -/
def errorsIn (u : OddsUpdate) (t : TruthRecord F) (r : DevigResult F) : List (Bucket × F) :=
  if r.usableAsDistribution then
    ((List.finRange kMaxOutcomes).take (min u.outcomeCount.toNat t.outcomeCount.toNat)).map
      (errorAt t r)
  else []

/-- The decimal odds of a record. -/
def recordOdds (u : OddsUpdate) : List F :=
  ((List.ofFn u.oddsMilli).take u.outcomeCount.toNat).map decimalOdds

def answers (u : OddsUpdate) : Fin 3 → DevigResult F :=
  ![Devig.multiplicative (recordOdds u), Devig.power (recordOdds u) 1e-13 100,
    Devig.shin (recordOdds u) 1e-15 200]

/-- The errors one record adds to a method's rows. -/
def recordErrors (truth : List (TruthRecord F)) (lagTicks : UInt64) (method : Fin 3)
    (u : OddsUpdate) : List (Bucket × F) :=
  match comparedWith truth lagTicks u with
  | none => []
  | some t => errorsIn u t (answers u method)

/-- The errors of one bucket. -/
def inBucket (b : Bucket) (errs : List (Bucket × F)) : List F :=
  (errs.filter fun e => e.1 = b).map Prod.snd

omit [DoubleArith F] in
theorem inBucket_append (b : Bucket) (errs errs' : List (Bucket × F)) :
    inBucket b (errs ++ errs') = inBucket b errs ++ inBucket b errs' := by
  unfold inBucket
  rw [List.filter_append, List.map_append]

/-- The tables that hold these errors of the three methods, and these counts. -/
def tables (errs : Fin 3 → List (Bucket × F)) (matched unmatched : Nat) : Scores F :=
  { overall := fun method => statsOf ((errs method).map Prod.snd)
    bucketed := fun b method => statsOf (inBucket b (errs method))
    matched := matched.toUInt64
    unmatched := unmatched.toUInt64 }

theorem tables_init : (Scores.init : Scores F) = tables (fun _ => []) 0 0 := rfl

variable {errs : Fin 3 → List (Bucket × F)} {matched unmatched : Nat}

/-- One outcome is one more error, in two rows. -/
theorem scoreOutcome_tables (method : Fin 3) (r : DevigResult F) (t : TruthRecord F)
    (i : Fin kMaxOutcomes) :
    scoreOutcome method r t (tables errs matched unmatched) i.val =
      .ok (tables (Function.update errs method (errs method ++ [errorAt t r i])) matched
        unmatched) := by
  let e := errorAt t r i
  have hoverall : Function.update (fun method => statsOf ((errs method).map Prod.snd)) method
      ((statsOf ((errs method).map Prod.snd)).add e.2) =
      fun m => statsOf ((Function.update errs method (errs method ++ [e]) m).map Prod.snd) := by
    funext m
    by_cases hm : m = method
    · rw [hm, Function.update_self, Function.update_self, List.map_append, List.map_singleton,
        statsOf_concat]
    · rw [Function.update_of_ne hm, Function.update_of_ne hm]
  have hbucketed : Function.update (fun b method => statsOf (inBucket b (errs method))) e.1
      (Function.update (fun method => statsOf (inBucket e.1 (errs method))) method
        ((statsOf (inBucket e.1 (errs method))).add e.2)) =
      fun b m => statsOf (inBucket b (Function.update errs method (errs method ++ [e]) m)) := by
    funext b m
    by_cases hb : b = e.1
    · subst hb
      rw [Function.update_self]
      by_cases hm : m = method
      · have hown : inBucket e.1 [e] = [e.2] := by
          unfold inBucket
          rw [List.filter_cons_of_pos (by exact decide_eq_true rfl)]
          rfl
        rw [hm, Function.update_self, Function.update_self, inBucket_append, hown, statsOf_concat]
      · rw [Function.update_of_ne hm, Function.update_of_ne hm]
    · rw [Function.update_of_ne hb]
      by_cases hm : m = method
      · have hother : inBucket b [e] = [] := by
          unfold inBucket
          rw [List.filter_cons_of_neg (by simpa using Ne.symm hb)]
          rfl
        rw [hm, Function.update_self, inBucket_append, hother, List.append_nil]
      · rw [Function.update_of_ne hm]
  unfold scoreOutcome
  rw [rd_of_lt _ i.isLt]
  show (rd t.prob i.val >>= fun truth => _) = _
  rw [rd_of_lt _ i.isLt]
  show Except.ok ({ tables errs matched unmatched with
    overall := Function.update _ method _, bucketed := Function.update _ _ _ } : Scores F) = _
  refine congrArg Except.ok ?_
  unfold tables
  rw [← hoverall, ← hbucketed]
  rfl

/-- One method's answer adds its errors to the method's rows. -/
theorem scoreMethod_tables {u : OddsUpdate} (hu : u.outcomeCount.toNat ≤ kMaxOutcomes)
    (t : TruthRecord F) (results : Fin 3 → DevigResult F) (method : Fin 3) :
    scoreMethod u t results (tables errs matched unmatched) method =
      .ok (tables (Function.update errs method (errs method ++ errorsIn u t (results method)))
        matched unmatched) := by
  have hloop : ∀ k ≤ kMaxOutcomes, forRange k (scoreOutcome method (results method) t)
      (tables errs matched unmatched) = .ok (tables (Function.update errs method (errs method ++
        ((List.finRange kMaxOutcomes).take k).map (errorAt t (results method)))) matched
        unmatched) := by
    intro k hk
    induction k with
    | zero => rw [forRange_zero, List.take_zero, List.map_nil, List.append_nil,
        Function.update_eq_self]
    | succ k ih =>
      have hlt : k < (List.finRange kMaxOutcomes).length := by
        rw [List.length_finRange]
        exact hk
      rw [forRange_succ, ih (Nat.le_of_succ_le hk), List.take_succ_eq_append_getElem hlt,
        List.map_append, ← List.append_assoc, List.getElem_finRange]
      refine (scoreOutcome_tables method (results method) t ⟨k, hk⟩).trans ?_
      rw [Function.update_idem, Function.update_self]
      rfl
  unfold scoreMethod errorsIn
  cases (results method).usableAsDistribution with
  | false =>
    show Except.ok _ = _
    rw [if_neg Bool.false_ne_true, List.append_nil, Function.update_eq_self]
  | true =>
    show forRange _ _ _ = _
    rw [if_pos rfl]
    exact hloop _ ((min_le_left _ _).trans hu)

/-- The three methods, one after the other. -/
theorem foldlM_scoreMethod {u : OddsUpdate} (hu : u.outcomeCount.toNat ≤ kMaxOutcomes)
    (t : TruthRecord F) (results : Fin 3 → DevigResult F) :
    (List.finRange 3).foldlM (scoreMethod u t results) (tables errs matched unmatched) =
      .ok (tables (fun m => errs m ++ errorsIn u t (results m)) matched unmatched) := by
  have hall : ∀ (ms : List (Fin 3)), ms.Nodup → ∀ errs : Fin 3 → List (Bucket × F),
      ms.foldlM (scoreMethod u t results) (tables errs matched unmatched) =
        .ok (tables (fun m => if m ∈ ms then errs m ++ errorsIn u t (results m) else errs m)
          matched unmatched) := by
    intro ms hms
    induction ms with
    | nil => exact fun errs => rfl
    | cons m ms ih =>
      intro errs
      obtain ⟨hm, hms⟩ := List.nodup_cons.mp hms
      rw [List.foldlM_cons, scoreMethod_tables hu]
      refine (ih hms _).trans ?_
      refine congrArg (fun e => Except.ok (tables e matched unmatched)) ?_
      funext m'
      by_cases hm' : m' = m
      · rw [hm', if_neg hm, if_pos List.mem_cons_self, Function.update_self]
      · rw [Function.update_of_ne hm']
        simp only [List.mem_cons, hm', false_or]
  refine (hall _ (List.nodup_finRange 3) errs).trans ?_
  refine congrArg (fun e => Except.ok (tables e matched unmatched)) ?_
  funext m
  exact if_pos (List.mem_finRange m)

/-- **What one record adds**: it is counted once, and where it is matched its errors are booked. -/
theorem scoreRecord_tables {truth : List (TruthRecord F)} {lagTicks : UInt64} {u : OddsUpdate}
    (hu : (comparedWith truth lagTicks u).isSome → u.outcomeCount.toNat ≤ kMaxOutcomes) :
    scoreRecord truth lagTicks (tables errs matched unmatched) u =
      .ok (tables (fun m => errs m ++ recordErrors truth lagTicks m u)
        (matched + if (comparedWith truth lagTicks u).isSome then 1 else 0)
        (unmatched + if (comparedWith truth lagTicks u).isSome then 0 else 1)) := by
  unfold recordErrors
  cases hcompared : comparedWith truth lagTicks u with
  | none =>
    have hnext : unmatched.toUInt64 + 1 = (unmatched + 1).toUInt64 := (UInt64.ofNat_add _ _).symm
    rw [scoreRecord_of_none hcompared]
    show Except.ok { tables errs matched unmatched with unmatched := unmatched.toUInt64 + 1 } =
      Except.ok (tables (fun m => errs m ++ []) matched (unmatched + 1))
    simp only [List.append_nil]
    rw [hnext]
    rfl
  | some t =>
    have hcount := hu (Option.isSome_iff_exists.mpr ⟨t, hcompared⟩)
    have hnext : matched.toUInt64 + 1 = (matched + 1).toUInt64 := (UInt64.ofNat_add _ _).symm
    rw [scoreRecord_of_some hcompared, collect_of_le _ _ hcount]
    show (List.finRange 3).foldlM (scoreMethod u t (answers u))
      { tables errs matched unmatched with matched := matched.toUInt64 + 1 } = _
    rw [hnext]
    exact foldlM_scoreMethod hcount t (answers u)

/-- A matched record, with a vector to compare it with. -/
def isMatched (truth : List (TruthRecord F)) (lagTicks : UInt64) (u : OddsUpdate) : Bool :=
  (comparedWith truth lagTicks u).isSome

/-- **The errors of all records**, in their order, and how many records there were of either kind. -/
theorem foldlM_scoreRecord {truth : List (TruthRecord F)} {lagTicks : UInt64}
    (rs : List OddsUpdate)
    (hrs : ∀ u ∈ rs, isMatched truth lagTicks u → u.outcomeCount.toNat ≤ kMaxOutcomes)
    (errs : Fin 3 → List (Bucket × F)) (matched unmatched : Nat) :
    rs.foldlM (scoreRecord truth lagTicks) (tables errs matched unmatched) =
      .ok (tables (fun m => errs m ++ rs.flatMap (recordErrors truth lagTicks m))
        (matched + rs.countP (isMatched truth lagTicks))
        (unmatched + rs.countP fun u => !isMatched truth lagTicks u)) := by
  induction rs generalizing errs matched unmatched with
  | nil =>
    show Except.ok _ = _
    simp only [List.flatMap_nil, List.append_nil, List.countP_nil, Nat.add_zero]
  | cons u rs ih =>
    have hmatched : matched + (if (comparedWith truth lagTicks u).isSome then 1 else 0) +
        rs.countP (isMatched truth lagTicks) =
          matched + (u :: rs).countP (isMatched truth lagTicks) := by
      rw [List.countP_cons, Nat.add_assoc, Nat.add_comm (ite _ _ _)]
      rfl
    have hunmatched : unmatched + (if (comparedWith truth lagTicks u).isSome then 0 else 1) +
        (rs.countP fun u => !isMatched truth lagTicks u) =
          unmatched + (u :: rs).countP fun u => !isMatched truth lagTicks u := by
      have hone : (if (comparedWith truth lagTicks u).isSome then 0 else 1) =
          if !isMatched truth lagTicks u then 1 else 0 := by
        unfold isMatched
        cases (comparedWith truth lagTicks u).isSome with
        | false => rfl
        | true => rfl
      rw [List.countP_cons, Nat.add_assoc, Nat.add_comm (ite _ _ _), hone]
    rw [List.foldlM_cons, scoreRecord_tables (hrs u List.mem_cons_self)]
    refine (ih (fun v hv => hrs v (List.mem_cons_of_mem _ hv)) _ _ _).trans ?_
    rw [hmatched, hunmatched]
    simp only [List.flatMap_cons, List.append_assoc]

/-- Records that were scored without an access outside had at most four outcomes, where matched. -/
theorem counts_of_scored {truth : List (TruthRecord F)} {lagTicks : UInt64} {rs : List OddsUpdate}
    {s s' : Scores F} (h : rs.foldlM (scoreRecord truth lagTicks) s = .ok s') :
    ∀ u ∈ rs, isMatched truth lagTicks u → u.outcomeCount.toNat ≤ kMaxOutcomes := by
  induction rs generalizing s with
  | nil => exact fun u hu => absurd hu List.not_mem_nil
  | cons v rs ih =>
    rw [List.foldlM_cons] at h
    intro u hu hmatched
    rcases List.mem_cons.mp hu with rfl | hu
    · by_contra hmany
      have hm : Matched truth lagTicks u := by
        unfold isMatched comparedWith at hmatched
        dsimp only at hmatched
        split at hmatched
        · exact absurd hmatched Bool.false_ne_true
        · next hlate => exact ⟨hlate, Option.isSome_iff_ne_none.mp hmatched⟩
      rw [scoreRecord_fault s hm (Nat.not_le.mp hmany)] at h
      cases h
    · cases hone : scoreRecord truth lagTicks s v with
      | error e =>
        rw [hone] at h
        cases h
      | ok s₁ =>
        rw [hone] at h
        exact ih h u hu hmatched

end Booked

/-! ## 2. From the files -/

section Files

variable {F : Type} [DoubleArith F]

/-- The loop over a session ends without an exception on what it delivers. -/
theorem scoreAll_eq_ok_iff {truth : List (TruthRecord F)} {lagTicks : UInt64}
    {reader : SessionReader} {s s' : Scores F} :
    scoreAll truth lagTicks reader s = .ok s' ↔ ∃ rs reader',
      Delivers SessionReader.next reader rs reader' ∧
        rs.foldlM (scoreRecord truth lagTicks) s = .ok s' := by
  fun_induction scoreAll truth lagTicks reader s with
  | case1 reader s e h =>
    constructor
    · intro he
      cases he
    · rintro ⟨rs, reader', hdel, -⟩
      cases hdel with
      | done hn => rw [h] at hn; cases hn
      | more hn _ => rw [h] at hn; cases hn
  | case2 reader s reader₁ h =>
    constructor
    · intro he
      exact ⟨[], reader₁, .done h, congrArg Except.ok (Except.ok.inj he)⟩
    · rintro ⟨rs, reader', hdel, hscored⟩
      cases hdel with
      | done hn => exact congrArg Except.ok (Except.ok.inj hscored)
      | more hn _ => rw [h] at hn; cases hn
  | case3 reader s u reader₁ h e herr =>
    constructor
    · intro he
      cases he
    · rintro ⟨rs, reader', hdel, hscored⟩
      cases hdel with
      | done hn => rw [h] at hn; cases hn
      | more hn _ =>
        rw [h] at hn
        cases hn
        rw [List.foldlM_cons, herr] at hscored
        cases hscored
  | case4 reader s u reader₁ h s₁ hok ih =>
    rw [ih]
    constructor
    · rintro ⟨rs, reader', hdel, hscored⟩
      refine ⟨u :: rs, reader', .more h hdel, ?_⟩
      rw [List.foldlM_cons, hok]
      exact hscored
    · rintro ⟨rs, reader', hdel, hscored⟩
      cases hdel with
      | done hn => rw [h] at hn; cases hn
      | more hn hrest =>
        rw [h] at hn
        cases hn
        rw [List.foldlM_cons, hok] at hscored
        exact ⟨_, reader', hrest, hscored⟩

/-- What the tool has at the end of its loop. -/
def tablesOf (truth : List (TruthRecord F)) (lagTicks : UInt64) (rs : List OddsUpdate) : Scores F :=
  tables (fun m => rs.flatMap (recordErrors truth lagTicks m))
    (rs.countP (isMatched truth lagTicks)) (rs.countP fun u => !isMatched truth lagTicks u)

theorem foldlM_eq_tablesOf {truth : List (TruthRecord F)} {lagTicks : UInt64} {rs : List OddsUpdate}
    (hrs : ∀ u ∈ rs, isMatched truth lagTicks u → u.outcomeCount.toNat ≤ kMaxOutcomes) :
    rs.foldlM (scoreRecord truth lagTicks) Scores.init = .ok (tablesOf truth lagTicks rs) := by
  rw [tables_init, foldlM_scoreRecord rs hrs, Nat.zero_add, Nat.zero_add]
  rfl

variable [FromBits F]

/-- **The tool prints tables** exactly of a session and a truth file that are read to their ends, of
    records within bounds, of which one at least is matched. -/
theorem run_eq_ok_iff {args : Args} {files : Bytes → Option (List UInt8)} {s : Scores F} :
    run args files = .ok s ↔ ∃ reader truth rs reader',
      SessionReader.start args.session (files args.session) = .ok reader ∧
      TruthReader.load args.truth (files args.truth) = .ok truth ∧
      Delivers SessionReader.next reader rs reader' ∧
      (∀ u ∈ rs, isMatched truth args.lagTicks u → u.outcomeCount.toNat ≤ kMaxOutcomes) ∧
      tablesOf truth args.lagTicks rs = s ∧ s.matched ≠ 0 := by
  unfold run
  cases hstart : SessionReader.start args.session (files args.session) with
  | error e =>
    simp only [Except.mapError, bind, Except.bind]
    constructor
    · intro h
      cases h
    · rintro ⟨_, _, _, _, h, -⟩
      cases h
  | ok reader =>
    cases hload : TruthReader.load (F := F) args.truth (files args.truth) with
    | error e =>
      simp only [Except.mapError, bind, Except.bind]
      constructor
      · intro h
        cases h
      · rintro ⟨_, _, _, _, -, h, -⟩
        cases h
    | ok truth =>
      simp only [Except.mapError, bind, Except.bind]
      constructor
      · intro h
        cases hscored : scoreAll truth args.lagTicks reader Scores.init with
        | error e =>
          rw [hscored] at h
          cases h
        | ok scores =>
          obtain ⟨rs, reader', hdel, hfold⟩ := scoreAll_eq_ok_iff.mp hscored
          have hcounts := counts_of_scored hfold
          rw [foldlM_eq_tablesOf hcounts] at hfold
          rw [hscored] at h
          dsimp only at h
          split at h
          · cases h
          · next hsome =>
            cases h
            exact ⟨reader, truth, rs, reader', rfl, rfl, hdel, hcounts, Except.ok.inj hfold, hsome⟩
      · rintro ⟨_, _, rs, reader', hreader, htruth, hdel, hcounts, rfl, hsome⟩
        cases hreader
        cases htruth
        rw [scoreAll_eq_ok_iff.mpr ⟨rs, reader', hdel, foldlM_eq_tablesOf hcounts⟩]
        exact if_neg hsome

end Files

theorem delivers_length {reader reader' : SessionReader} {rs : List OddsUpdate}
    (h : Delivers SessionReader.next reader rs reader') : 64 * rs.length ≤ reader.file.length := by
  induction h with
  | done _ => exact Nat.zero_le _
  | more hn _ ih =>
    unfold SessionReader.next at hn
    split at hn
    · cases hn
    · split at hn
      · cases hn
      · next hlong =>
        cases hn
        have hsize : OddsUpdate.size = 64 := rfl
        rw [List.length_drop] at ih
        rw [List.length_cons]
        omega

/-- A session of so many bytes has no more records than fit. -/
theorem length_session {path : Bytes} {file : Option (List UInt8)} {reader reader' : SessionReader}
    {rs : List OddsUpdate} (hstart : SessionReader.start path file = .ok reader)
    (hdel : Delivers SessionReader.next reader rs reader') :
    ∃ bytes, file = some bytes ∧ 64 * rs.length ≤ bytes.length := by
  cases file with
  | none => cases hstart
  | some bytes =>
    refine ⟨bytes, rfl, (delivers_length hdel).trans ?_⟩
    unfold SessionReader.start at hstart
    dsimp only at hstart
    repeat' split at hstart
    all_goals cases hstart
    rw [List.length_drop]
    exact Nat.sub_le _ _

/-! ## 3. The rows -/

/-- In a row the mean error is at most the root of the mean square, and this at most the worst. -/
def MethodStats.Ordered (s : MethodStats ℝ) : Prop :=
  0 ≤ s.mae ∧ s.mae ≤ s.rmse ∧ s.rmse ≤ s.worst

theorem statsOf_eq (es : List ℝ) : statsOf es =
    { absSum := absTotal es, sqSum := sqTotal es, worst := largest es,
      n := es.length.toUInt64 } := by
  induction es using List.reverseRecOn with
  | nil => rfl
  | append_singleton es e ih =>
    rw [statsOf_concat, ih, absTotal_concat, sqTotal_concat, largest_concat, List.length_append,
      List.length_singleton]
    unfold MethodStats.add
    exact congrArg (MethodStats.mk _ _ _) (UInt64.ofNat_add _ _).symm

theorem worst_statsOf (es : List ℝ) : (statsOf es).worst = largest es := by
  rw [statsOf_eq]

section Row

variable {es : List ℝ} (hes : es.length < 2 ^ 64)

include hes

theorem toNat_n : (statsOf es).n.toNat = es.length := by
  rw [statsOf_eq]
  exact UInt64.toNat_ofNat_of_lt' hes

theorem n_eq_zero_iff : (statsOf es).n = 0 ↔ es = [] := by
  rw [← UInt64.toNat_inj, toNat_n hes]
  exact List.length_eq_zero_iff

theorem mul_mae : ((statsOf es).n.toNat : ℝ) * (statsOf es).mae = absTotal es := by
  unfold MethodStats.mae
  by_cases hn : (statsOf es).n = 0
  · rw [if_neg (not_not.mpr hn), (n_eq_zero_iff hes).mp hn, mul_zero]
    rfl
  · have hpos : ((statsOf es).n.toNat : ℝ) ≠ 0 := by
      rw [toNat_n hes]
      exact Nat.cast_ne_zero.mpr fun h => hn ((n_eq_zero_iff hes).mpr (List.length_eq_zero_iff.mp h))
    rw [if_pos hn, mul_div_cancel₀ _ hpos, statsOf_eq]

theorem mul_sq_rmse : ((statsOf es).n.toNat : ℝ) * (statsOf es).rmse ^ 2 = sqTotal es := by
  unfold MethodStats.rmse
  by_cases hn : (statsOf es).n = 0
  · rw [if_neg (not_not.mpr hn), (n_eq_zero_iff hes).mp hn]
    exact (mul_eq_zero_of_right _ (by norm_num)).trans rfl
  · have hpos : ((statsOf es).n.toNat : ℝ) ≠ 0 := by
      rw [toNat_n hes]
      exact Nat.cast_ne_zero.mpr fun h => hn ((n_eq_zero_iff hes).mpr (List.length_eq_zero_iff.mp h))
    have hsum : (statsOf es).sqSum = sqTotal es := by rw [statsOf_eq]
    have hsquare : Libm.sqrt ((statsOf es).sqSum / ((statsOf es).n.toNat : ℝ)) ^ 2 =
        (statsOf es).sqSum / ((statsOf es).n.toNat : ℝ) :=
      Real.sq_sqrt (div_nonneg (hsum ▸ sqTotal_nonneg es) (Nat.cast_nonneg _))
    rw [if_pos hn, hsquare, mul_div_cancel₀ _ hpos, hsum]

/-- **Every row is in order.** -/
theorem ordered_statsOf : (statsOf es).Ordered := by
  have hworst := worst_statsOf es
  have hmae := mul_mae hes
  have hrmse := mul_sq_rmse hes
  have hlen := toNat_n hes
  by_cases hn : (statsOf es).n = 0
  · have hmae0 : (statsOf es).mae = 0 := if_neg (not_not.mpr hn)
    have hrmse0 : (statsOf es).rmse = 0 := if_neg (not_not.mpr hn)
    unfold MethodStats.Ordered
    rw [hmae0, hrmse0, hworst]
    exact ⟨le_refl _, le_refl _, largest_nonneg es⟩
  · have hpos : (0 : ℝ) < (statsOf es).n.toNat := by
      refine Nat.cast_pos.mpr (Nat.pos_of_ne_zero fun h => hn ?_)
      exact UInt64.toNat_inj.mp h
    have hroot : 0 ≤ (statsOf es).rmse := by
      unfold MethodStats.rmse
      rw [if_pos hn]
      exact Real.sqrt_nonneg _
    have hmean : 0 ≤ (statsOf es).mae := by
      refine nonneg_of_mul_nonneg_right ?_ hpos
      rw [hmae]
      exact absTotal_nonneg es
    refine ⟨hmean, ?_, ?_⟩
    · refine le_of_sq_le_sq (le_of_mul_le_mul_left ?_ (mul_pos hpos hpos)) hroot
      have hsq := sq_absTotal_le es
      rw [← hlen, ← hmae, ← hrmse] at hsq
      linarith
    · rw [hworst]
      refine le_of_sq_le_sq (le_of_mul_le_mul_left ?_ hpos) (largest_nonneg es)
      rw [hrmse, hlen]
      exact sqTotal_le es

end Row

/-! ## 4. The tables -/

theorem mem_buckets (b : Bucket) : b ∈ ({.longshot, .mid, .favourite} : Finset Bucket) := by
  cases b with
  | longshot => decide
  | mid => decide
  | favourite => decide

instance instFintypeBucket : Fintype Bucket := ⟨{.longshot, .mid, .favourite}, mem_buckets⟩

/-- Every error is in one bucket. -/
theorem sum_inBucket {M : Type} [AddCommMonoid M] (g : ℝ → M) (errs : List (Bucket × ℝ)) :
    ∑ b, ((inBucket b errs).map g).sum = ((errs.map Prod.snd).map g).sum := by
  induction errs with
  | nil => exact Finset.sum_const_zero
  | cons e errs ih =>
    have hcons : ∀ b, ((inBucket b (e :: errs)).map g).sum =
        (if e.1 = b then g e.2 else 0) + ((inBucket b errs).map g).sum := by
      intro b
      unfold inBucket
      by_cases hb : e.1 = b
      · rw [List.filter_cons_of_pos (by simpa using hb), if_pos hb]
        rfl
      · rw [List.filter_cons_of_neg (by simpa using hb), if_neg hb, zero_add]
    rw [Finset.sum_congr rfl fun b _ => hcons b, Finset.sum_add_distrib, ih, Finset.sum_ite_eq,
      if_pos (Finset.mem_univ _)]
    rfl

theorem mem_inBucket {errs : List (Bucket × ℝ)} {b : Bucket} {e : ℝ} :
    e ∈ inBucket b errs ↔ (b, e) ∈ errs := by
  unfold inBucket
  constructor
  · intro h
    obtain ⟨x, hx, rfl⟩ := List.mem_map.mp h
    obtain ⟨hmem, hb⟩ := List.mem_filter.mp hx
    rwa [← of_decide_eq_true hb]
  · intro h
    exact List.mem_map.mpr ⟨(b, e), List.mem_filter.mpr ⟨h, decide_eq_true rfl⟩, rfl⟩

/-- The worst error is the worst of its bucket. -/
theorem isGreatest_largest (errs : List (Bucket × ℝ)) :
    IsGreatest (Set.range fun b => largest (inBucket b errs)) (largest (errs.map Prod.snd)) := by
  have hle : ∀ b, largest (inBucket b errs) ≤ largest (errs.map Prod.snd) := fun b =>
    largest_le_iff.mpr ⟨largest_nonneg _, fun e he =>
      le_largest (List.mem_map.mpr ⟨(b, e), mem_inBucket.mp he, rfl⟩)⟩
  obtain ⟨top, -, htop⟩ := Finset.exists_max_image Finset.univ
    (fun b => largest (inBucket b errs)) ⟨.mid, Finset.mem_univ _⟩
  constructor
  · refine ⟨top, le_antisymm (hle top) (largest_le_iff.mpr ⟨largest_nonneg _, fun e he => ?_⟩)⟩
    obtain ⟨x, hx, rfl⟩ := List.mem_map.mp he
    exact (le_largest (mem_inBucket.mpr hx)).trans (htop x.1 (Finset.mem_univ _))
  · rintro _ ⟨b, rfl⟩
    exact hle b

/-- A matched record has at most four errors, another one none. -/
theorem length_errors (truth : List (TruthRecord ℝ)) (lagTicks : UInt64) (method : Fin 3)
    (rs : List OddsUpdate) : (rs.flatMap (recordErrors truth lagTicks method)).length ≤
      4 * rs.countP (isMatched truth lagTicks) := by
  induction rs with
  | nil => exact Nat.le_refl _
  | cons u rs ih =>
    have hone : (recordErrors truth lagTicks method u).length ≤
        4 * if isMatched truth lagTicks u then 1 else 0 := by
      unfold recordErrors isMatched
      cases comparedWith truth lagTicks u with
      | none => exact Nat.le_refl _
      | some t =>
        show (errorsIn u t (answers u method)).length ≤ 4
        unfold errorsIn
        split
        · rw [List.length_map, List.length_take, List.length_finRange]
          exact min_le_right _ _
        · exact Nat.zero_le _
    rw [List.flatMap_cons, List.length_append, List.countP_cons]
    omega

theorem length_inBucket_le (b : Bucket) (errs : List (Bucket × ℝ)) :
    (inBucket b errs).length ≤ (errs.map Prod.snd).length := by
  unfold inBucket
  rw [List.length_map, List.length_map]
  exact List.length_filter_le _ _

/-! None of the counts is cut off when the session's size is one of 64 bits. -/

section Sizes

variable {truth : List (TruthRecord ℝ)} {lagTicks : UInt64} {rs : List OddsUpdate}
  (hsize : 64 * rs.length < 2 ^ 64)

include hsize

theorem toNat_countP (p : OddsUpdate → Bool) : (rs.countP p).toUInt64.toNat = rs.countP p := by
  have hcount : rs.countP p ≤ rs.length := List.countP_le_length
  refine UInt64.toNat_ofNat_of_lt' ?_
  show _ < 2 ^ 64
  omega

theorem toNat_matched :
    (tablesOf truth lagTicks rs).matched.toNat = rs.countP (isMatched truth lagTicks) :=
  toNat_countP hsize _

theorem toNat_unmatched :
    (tablesOf truth lagTicks rs).unmatched.toNat =
      rs.countP fun u => !isMatched truth lagTicks u :=
  toNat_countP hsize _

theorem length_overall_lt (m : Fin 3) :
    ((rs.flatMap (recordErrors truth lagTicks m)).map Prod.snd).length < 2 ^ 64 := by
  have hfew := length_errors truth lagTicks m rs
  have hcount : rs.countP (isMatched truth lagTicks) ≤ rs.length := List.countP_le_length
  rw [List.length_map]
  omega

theorem length_bucketed_lt (b : Bucket) (m : Fin 3) :
    (inBucket b (rs.flatMap (recordErrors truth lagTicks m))).length < 2 ^ 64 :=
  (length_inBucket_le b _).trans_lt (length_overall_lt hsize m)

end Sizes

/-- No method has a lower mean error than the one named. -/
theorem mae_best_le (s : Scores ℝ) (m : Fin 3) : (s.overall s.best).mae ≤ (s.overall m).mae := by
  have hloop : ∀ (ms : List (Fin 3)) (best : Fin 3), ∀ i ∈ best :: ms,
      (s.overall (ms.foldl (fun best i =>
        if (s.overall i).mae < (s.overall best).mae then i else best) best)).mae ≤
          (s.overall i).mae := by
    intro ms
    induction ms with
    | nil =>
      intro best i hi
      rw [List.mem_singleton.mp hi]
      exact le_refl _
    | cons k ms ih =>
      intro best i hi
      rw [List.foldl_cons]
      have hkeep := ih (if (s.overall k).mae < (s.overall best).mae then k else best)
      have hboth := hkeep _ List.mem_cons_self
      rcases List.mem_cons.mp hi with rfl | hi
      · refine hboth.trans ?_
        split
        · next hlt => exact hlt.le
        · exact le_refl _
      · rcases List.mem_cons.mp hi with rfl | hi
        · refine hboth.trans ?_
          split
          · exact le_refl _
          · next hge => exact not_lt.mp hge
        · exact hkeep i (List.mem_cons_of_mem _ hi)
  refine hloop _ _ m ?_
  match m with
  | 0 => exact List.mem_cons_self
  | 1 => exact List.mem_cons_of_mem _ List.mem_cons_self
  | 2 => exact List.mem_cons_of_mem _ (List.mem_cons_of_mem _ List.mem_cons_self)

/-- **The tables of any two files agree with each other**, over the reals. Every record is counted
    once; of each method the three tables have the errors of the overall row between them, its worst
    is the worst of the three; every row is in order; and no method has a lower mean error than the
    one named. (A session file has a size of 64 bits.) -/
theorem tables_of_run {args : Args} {files : Bytes → Option (List UInt8)} {s : Scores ℝ}
    (hrun : run args files = .ok s)
    (hsize : ∀ bytes, files args.session = some bytes → bytes.length < 2 ^ 64) :
    (∃ reader rs reader', SessionReader.start args.session (files args.session) = .ok reader ∧
      Delivers SessionReader.next reader rs reader' ∧ 0 < s.matched.toNat ∧
      s.matched.toNat + s.unmatched.toNat = rs.length) ∧
    (∀ m, (s.overall m).Ordered ∧ ∀ b, (s.bucketed b m).Ordered) ∧
    (∀ m, (s.overall m).n.toNat ≤ 4 * s.matched.toNat ∧
      ∑ b, (s.bucketed b m).n.toNat = (s.overall m).n.toNat ∧
      ∑ b, ((s.bucketed b m).n.toNat : ℝ) * (s.bucketed b m).mae =
        ((s.overall m).n.toNat : ℝ) * (s.overall m).mae ∧
      ∑ b, ((s.bucketed b m).n.toNat : ℝ) * (s.bucketed b m).rmse ^ 2 =
        ((s.overall m).n.toNat : ℝ) * (s.overall m).rmse ^ 2 ∧
      IsGreatest (Set.range fun b => (s.bucketed b m).worst) (s.overall m).worst) ∧
    ∀ m, (s.overall s.best).mae ≤ (s.overall m).mae := by
  obtain ⟨reader, truth, rs, reader', hstart, -, hdel, -, rfl, hsome⟩ := run_eq_ok_iff.mp hrun
  obtain ⟨bytes, hbytes, hlong⟩ := length_session hstart hdel
  have hfits := hsize bytes hbytes
  have hlength : 64 * rs.length < 2 ^ 64 := hlong.trans_lt (hsize bytes hbytes)
  have hsplit : rs.countP (isMatched truth args.lagTicks) +
      (rs.countP fun u => !isMatched truth args.lagTicks u) = rs.length := by
    rw [List.length_eq_countP_add_countP (isMatched truth args.lagTicks)]
    simp
  -- the errors of one method, and of one of its buckets
  let errs := fun m => rs.flatMap (recordErrors truth args.lagTicks m)
  have hall : ∀ m, ((errs m).map Prod.snd).length < 2 ^ 64 := length_overall_lt hlength
  have hbucket : ∀ b m, (inBucket b (errs m)).length < 2 ^ 64 := length_bucketed_lt hlength
  refine ⟨⟨reader, rs, reader', hstart, hdel, Nat.pos_of_ne_zero fun h => hsome ?_, ?_⟩,
    fun m => ⟨ordered_statsOf (hall m), fun b => ordered_statsOf (hbucket b m)⟩,
    fun m => ⟨?_, ?_, ?_, ?_, ?_⟩, mae_best_le _⟩
  · exact UInt64.toNat_inj.mp h
  · rw [toNat_matched hlength, toNat_unmatched hlength]
    exact hsplit
  · rw [toNat_matched hlength]
    refine le_of_eq_of_le (toNat_n (hall m)) ?_
    rw [List.length_map]
    exact length_errors truth args.lagTicks m rs
  · have hsum := sum_inBucket (fun _ => 1) (errs m)
    simp only [List.map_const', List.sum_replicate, smul_eq_mul, mul_one] at hsum
    refine (Finset.sum_congr rfl fun b _ => toNat_n (hbucket b m)).trans ?_
    exact hsum.trans (toNat_n (hall m)).symm
  · refine (Finset.sum_congr rfl fun b _ => mul_mae (hbucket b m)).trans ?_
    exact (sum_inBucket (fun e => |e|) (errs m)).trans (mul_mae (hall m)).symm
  · refine (Finset.sum_congr rfl fun b _ => mul_sq_rmse (hbucket b m)).trans ?_
    exact (sum_inBucket (fun e => e * e) (errs m)).trans (mul_sq_rmse (hall m)).symm
  · show IsGreatest (Set.range fun b => (statsOf (inBucket b (errs m))).worst)
      (statsOf ((errs m).map Prod.snd)).worst
    simp only [worst_statsOf]
    exact isGreatest_largest (errs m)

/-- A second quote of the first tick, at 1.5 against 2.6. -/
def unevenRecord : OddsUpdate :=
  { VerifySession.evenRecord with
    seqNo := 2
    oddsMilli := fun i => if i.val = 0 then 1500 else if i.val = 1 then 2600 else 0 }

/-- And one of the tick behind it. -/
def lateRecord : OddsUpdate := { unevenRecord with seqNo := 3, simTimestampNs := kTickIntervalNs }

def threeRecords : List OddsUpdate := [VerifySession.evenRecord, unevenRecord, lateRecord]

/-- A session of these, and the vector of the first tick. -/
noncomputable def threeRecordFiles : Bytes → Option (List UInt8)
  | [115] => some (FileSink.fileOf VerifySession.smallHeader threeRecords)
  | [116] => some ([Simulation.truthOf 0 0 fun _ => (0.3 : ℝ)].flatMap TruthRecord.toBytes)
  | _ => none

/-- Two records are matched; the third has no vector. -/
theorem tables_of_run_three_records :
    ∃ s : Scores ℝ, run { session := [115], truth := [116] } threeRecordFiles = .ok s ∧
      s.matched.toNat = 2 ∧ s.unmatched.toNat = 1 ∧ ∀ m, (s.overall m).Ordered := by
  obtain ⟨reader, reader', hstart, hdel, -⟩ := @SessionReader.delivers_fileOf [115]
    VerifySession.smallHeader ⟨rfl, rfl, rfl⟩ threeRecords (List.cons_ne_nil _ _) (by decide)
  let t : TruthRecord ℝ := (Simulation.truthOf 0 0 fun _ => (0.3 : ℝ)).throughBits
  have hload : TruthReader.load [116] (threeRecordFiles [116]) = .ok [t] := by
    have htake := TruthReader.load_take [116] [Simulation.truthOf 0 0 fun _ => (0.3 : ℝ)] 64
    rw [List.take_of_length_le (by
      rw [length_flatMap_of_length TruthRecord.toBytes_length]
      exact Nat.le_refl _)] at htake
    exact htake
  have hfirst : ∀ u : OddsUpdate, u.simTimestampNs = 0 → u.marketId = 0 →
      isMatched [t] 0 u = true := by
    intro u hstamp hmarket
    have hcompared : comparedWith [t] 0 u = some t := by
      unfold comparedWith
      rw [hstamp, hmarket]
      exact TruthReader.find_singleton t
    unfold isMatched
    rw [hcompared]
    rfl
  have hlate : isMatched [t] 0 lateRecord = false := by
    have hcompared : comparedWith [t] 0 lateRecord = none := by
      unfold comparedWith
      rw [if_neg (by decide)]
      refine List.find?_eq_none.mpr fun r hr => ?_
      rw [List.mem_singleton.mp hr]
      show ¬ (TruthReader.makeKey 0 0 == TruthReader.makeKey _ _) = true
      decide
    unfold isMatched
    rw [hcompared]
    rfl
  have hcount : threeRecords.countP (isMatched [t] 0) = 2 := by
    unfold threeRecords
    rw [List.countP_cons, List.countP_cons, List.countP_cons,
      hfirst VerifySession.evenRecord rfl rfl, hfirst unevenRecord rfl rfl, hlate]
    rfl
  have hrun : run { session := [115], truth := [116] } threeRecordFiles =
      .ok (tablesOf [t] 0 threeRecords) := by
    refine run_eq_ok_iff.mpr ⟨reader, [t], threeRecords, reader', hstart, hload, hdel,
      fun u hu _ => ?_, rfl, ?_⟩
    · have hall : ∀ v ∈ threeRecords, v.outcomeCount.toNat ≤ kMaxOutcomes := by decide
      exact hall u hu
    · show (threeRecords.countP (isMatched [t] 0)).toUInt64 ≠ 0
      rw [hcount]
      decide
  obtain ⟨⟨reader₁, rs, reader₁', hstart₁, hdel₁, -, hsplit⟩, hordered, -⟩ :=
    tables_of_run hrun fun bytes hbytes => by
      rw [← Option.some.inj hbytes, FileSink.fileOf_eq, List.length_append,
        SessionHeader.toBytes_length, length_flatMap_of_length OddsUpdate.toBytes_length]
      decide
  obtain rfl : reader = reader₁ := Except.ok.inj (hstart.symm.trans hstart₁)
  have hrs : rs = threeRecords := (hdel₁.unique hdel).1
  have hmatched : (tablesOf [t] 0 threeRecords).matched.toNat = 2 := by
    show (threeRecords.countP (isMatched [t] 0)).toUInt64.toNat = 2
    rw [hcount]
    rfl
  rw [hrs, hmatched] at hsplit
  have hlen : threeRecords.length = 3 := rfl
  exact ⟨_, hrun, hmatched, by omega, fun m => (hordered m).1⟩

end ValidateDevig

end OddsEngine
