/-
  File:      OddsEngine/Analytics/ClosingOdds.lean
  Subject:   The closing odds of the analysis against the quotes the engine ends with.

  Both read the same records and keep one quote for each market and book. The analysis keeps the
  last in the file, the engine's table the newest by number. In a file the simulator wrote the two
  are one; a capture of the broadcast is in arrival order, and there a datagram that came late
  makes the analysis close on a quote the engine had refused.

  * `closesWithEngine_iff` -- the two agree on every market and book of the shape exactly if, of
    every one, the newest record carries the odds and the count of the last.
-/
import OddsEngine.Analytics.AnalyzeBets
import OddsEngine.Tools.VerifiedReplay

namespace OddsEngine.AnalyzeBets

open Lib BookTable

/-- For every market and book of the shape, the odds and the count the analysis keeps are those of
    the engine's slot when the records have been replayed. -/
def ClosesWithEngine (shape : Shape) (rs : List OddsUpdate) : Prop :=
  ∀ (m : Fin shape.markets) (b : Fin shape.books),
    let kept := closingQuotes shape.markets shape.books rs
    let slot := (rs.foldl receive ({} : Table)).get (shape.slot m b)
    kept.lastOdds (m.val * shape.books + b.val) = slot.oddsMilli ∧
      kept.lastCount (m.val * shape.books + b.val) = slot.outcomeCount

/-! ## 1. What each of the two keeps -/

theorem slot?_eq_slot_iff {shape : Shape} (u : OddsUpdate) (m : Fin shape.markets)
    (b : Fin shape.books) :
    slot? u = some (shape.slot m b) ↔ u.marketId.toNat = m.val ∧ u.bookId.toNat = b.val := by
  have hm := Nat.lt_of_lt_of_le m.isLt shape.markets_le
  have hb := Nat.lt_of_lt_of_le b.isLt shape.books_le
  unfold slot?
  constructor
  · intro h
    split at h
    · have hslot := Option.some.inj h
      exact ⟨congrArg (fun s => s.1.val) hslot, congrArg (fun s => s.2.val) hslot⟩
    · cases h
  · rintro ⟨hum, hub⟩
    rw [dif_pos ⟨by omega, by omega⟩]
    exact congrArg some (Prod.ext (Fin.ext hum) (Fin.ext hub))

/-- Two places of the flat array are one only for one market and one book. -/
theorem index_inj {books m b m' b' : Nat} (hb : b < books) (hb' : b' < books) :
    m * books + b = m' * books + b' ↔ m = m' ∧ b = b' := by
  constructor
  · intro h
    have hpos : 0 < books := Nat.lt_of_le_of_lt (Nat.zero_le b) hb
    have hdiv := congrArg (· / books) h
    have hmod := congrArg (· % books) h
    simp only [Nat.mul_comm _ books, Nat.mul_add_div hpos, Nat.div_eq_of_lt hb,
      Nat.div_eq_of_lt hb', Nat.add_zero, Nat.mul_add_mod, Nat.mod_eq_of_lt hb,
      Nat.mod_eq_of_lt hb'] at hdiv hmod
    exact ⟨hdiv, hmod⟩
  · rintro ⟨rfl, rfl⟩
    rfl

/-- **The analysis keeps the last record in the file** of each market and book. -/
theorem closingQuotes_eq {shape : Shape} (m : Fin shape.markets) (b : Fin shape.books)
    (rs : List OddsUpdate) :
    let last := content (recordsAt (shape.slot m b) rs).getLast?
    (closingQuotes shape.markets shape.books rs).lastOdds (m.val * shape.books + b.val) =
        last.oddsMilli ∧
      (closingQuotes shape.markets shape.books rs).lastCount (m.val * shape.books + b.val) =
        last.outcomeCount := by
  induction rs using List.reverseRecOn with
  | nil => exact ⟨rfl, rfl⟩
  | append_singleton rs u ih =>
    have hstep : closingQuotes shape.markets shape.books (rs ++ [u]) =
        readQuote shape.markets shape.books (closingQuotes shape.markets shape.books rs) u :=
      List.foldl_append
    have hrecords : recordsAt (shape.slot m b) (rs ++ [u]) =
        recordsAt (shape.slot m b) rs ++ recordsAt (shape.slot m b) [u] := List.filter_append _ _
    rw [hstep, hrecords]
    unfold readQuote
    by_cases hslot : slot? u = some (shape.slot m b)
    · obtain ⟨hum, hub⟩ := (slot?_eq_slot_iff u m b).mp hslot
      have hin : ¬ (shape.markets ≤ u.marketId.toNat ∨ shape.books ≤ u.bookId.toNat) := by
        have hm := m.isLt
        have hb := b.isLt
        omega
      rw [if_neg hin, hum, hub]
      simp [recordsAt, hslot, content, Quote.ofUpdate]
    · have hnone : recordsAt (shape.slot m b) [u] = [] := by simp [recordsAt, hslot]
      rw [hnone, List.append_nil]
      split
      · exact ih
      · next hin =>
        have hub : u.bookId.toNat < shape.books := by omega
        have hne : m.val * shape.books + b.val ≠
            u.marketId.toNat * shape.books + u.bookId.toNat := by
          intro he
          obtain ⟨hm, hb⟩ := (index_inj b.isLt hub).mp he
          exact hslot ((slot?_eq_slot_iff u m b).mpr ⟨hm.symm, hb.symm⟩)
        dsimp only
        rw [Function.update_of_ne hne, Function.update_of_ne hne]
        exact ih

/-! ## 2. When they keep the same -/

/-- The two records carry the same odds and the same count. -/
def SameQuote (u v : OddsUpdate) : Prop :=
  u.oddsMilli = v.oddsMilli ∧ u.outcomeCount = v.outcomeCount

/-- The newest of the records (behind the last that carries the mark of an unwritten slot) says
    what the last one says. -/
def ClosesOnNewest (us : List OddsUpdate) : Prop :=
  ∀ newest last, FirstNewest (behindMark us) newest → us.getLast? = some last →
    SameQuote newest last

theorem content_eq_iff (us : List OddsUpdate) :
    ((content us.getLast?).oddsMilli = (content (kept us)).oddsMilli ∧
      (content us.getLast?).outcomeCount = (content (kept us)).outcomeCount) ↔
      ClosesOnNewest us := by
  rcases kept_cases us with ⟨hnil, hkept, _⟩ | ⟨q, hkept, hnewest⟩
  · rw [hkept]
    refine ⟨fun _ newest last hnew _ => ?_, fun _ => ⟨rfl, rfl⟩⟩
    obtain ⟨before, after, hsplit, _⟩ := hnew
    rw [hnil] at hsplit
    exact absurd hsplit (by simp)
  · have hne : us ≠ [] := by
      rintro rfl
      cases hkept
    obtain ⟨w, hw⟩ : ∃ w, us.getLast? = some w := ⟨_, List.getLast?_eq_some_getLast hne⟩
    rw [hkept, hw]
    constructor
    · rintro ⟨hodds, hcount⟩ newest last hnew hlast
      rw [hnew.unique hnewest]
      cases hw.symm.trans hlast
      exact ⟨hodds.symm, hcount.symm⟩
    · intro hcloses
      obtain ⟨hodds, hcount⟩ := hcloses q w hnewest hw
      exact ⟨hodds.symm, hcount.symm⟩

/-- **The analysis closes on the quotes the engine ended with exactly if**, for every market and
    book of the shape, the newest record says what the last one in the file says. -/
theorem closesWithEngine_iff (shape : Shape) (rs : List OddsUpdate) :
    ClosesWithEngine shape rs ↔
      ∀ (m : Fin shape.markets) (b : Fin shape.books),
        ClosesOnNewest (rs.filter fun u =>
          decide (u.marketId.toNat = m.val ∧ u.bookId.toNat = b.val)) := by
  refine forall_congr' fun m => forall_congr' fun b => ?_
  have hrecords : (rs.filter fun u =>
      decide (u.marketId.toNat = m.val ∧ u.bookId.toNat = b.val)) =
      recordsAt (shape.slot m b) rs := by
    refine List.filter_congr fun u _ => ?_
    rw [decide_eq_decide]
    exact (slot?_eq_slot_iff u m b).symm
  obtain ⟨hodds, hcount⟩ := closingQuotes_eq m b rs
  dsimp only
  rw [hrecords, hodds, hcount, get_foldl_receive]
  exact content_eq_iff _

/-- Two quotes of one book, the newer first: the order a late datagram leaves them in. -/
def lateCapture : List OddsUpdate :=
  [{ seqNo := 2, outcomeCount := 2, oddsMilli := fun i => if i.val < 2 then 1900 else 0 },
   { seqNo := 1, outcomeCount := 2, oddsMilli := fun i => if i.val < 2 then 2100 else 0 }]

/-- The capture is a session the reader takes; the engine ends with odds of 1.9 in the slot, the
    analysis closes at 2.1. -/
theorem lateCapture_disagrees :
    (∃ s, SessionReader.start [] (some (FileSink.fileOf VerifySession.smallHeader lateCapture)) =
        .ok s ∧ s.readAll = .ok lateCapture ∧ admitShape s.header = .ok oneBook) ∧
      ¬ ClosesWithEngine oneBook lateCapture := by
  constructor
  · obtain ⟨s, t, hstart, hdel, hheader, _⟩ := @SessionReader.delivers_fileOf []
      VerifySession.smallHeader ⟨rfl, rfl, rfl⟩ lateCapture (List.cons_ne_nil _ _) (by decide)
    refine ⟨s, hstart, SessionReader.readAll_eq_ok_iff.mpr ⟨t, hdel⟩, ?_⟩
    rw [hheader]
    rfl
  · intro h
    have hslot := (h ⟨0, by decide⟩ ⟨0, by decide⟩).1
    exact absurd (congrFun hslot 0) (by decide)

end OddsEngine.AnalyzeBets
