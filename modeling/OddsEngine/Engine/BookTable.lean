/-
  File:      OddsEngine/Engine/BookTable.lean
  Subject:   The per-(market, book) quote table (engine/BookTable.hpp).

  `apply` runs once per incoming record and rejects a record out of range or whose sequence number
  does not advance; `isStale` decides whether a slot's quote may still be used. The lemmas:

  * `apply_cases` -- everything one call can do, guards included;
  * `SlotHolds`, `slotHolds_apply` -- a slot REFINES a newest-wins register of quotes: what the
    code keeps in one struct, with an in-band mark for "never written", is the register's option,
    as long as no record carries the mark (`kEmptySeq`) as its own sequence number;
  * `slotHolds_applyAll` -- the same over any sequence of calls.
-/
import OddsEngine.Lib.Register
import OddsEngine.Lib.Words
import OddsEngine.Proto.Messages

namespace OddsEngine

open Lib

/-- The sequence number that marks a slot never written. -/
def kEmptySeq : UInt64 := 0xFFFFFFFFFFFFFFFF

structure Quote where
  oddsMilli : Fin 4 → UInt32 := fun _ => 0
  recvTimestampNs : UInt64 := 0
  seqNo : UInt64 := kEmptySeq
  outcomeCount : UInt8 := 0
  deriving DecidableEq

inductive ApplyResult where
  | applied
  | rejectedOutOfRange
  | rejectedStaleSeq
  deriving DecidableEq, Repr

structure BookTable (maxMarkets maxBooks : Nat) where
  table : Fin maxMarkets × Fin maxBooks → Quote := fun _ => {}
  rejectedOutOfRange : UInt64 := 0
  rejectedStaleSeq : UInt64 := 0

/-- What a slot stores of a record received at `recvNs` (the loop over the four odds runs over
    the index type of the array). -/
def Quote.ofUpdate (u : OddsUpdate) (recvNs : UInt64) : Quote :=
  { oddsMilli := fun i => u.oddsMilli i
    recvTimestampNs := recvNs
    seqNo := u.seqNo
    outcomeCount := u.outcomeCount }

namespace BookTable

variable {maxMarkets maxBooks : Nat}

/-- The slot a record names; `none` where `market_id` or `book_id` reaches the table's bound. -/
def slot? (u : OddsUpdate) : Option (Fin maxMarkets × Fin maxBooks) :=
  if h : u.marketId.toNat < maxMarkets ∧ u.bookId.toNat < maxBooks then
    some (⟨u.marketId.toNat, h.1⟩, ⟨u.bookId.toNat, h.2⟩)
  else none

def get (t : BookTable maxMarkets maxBooks) (s : Fin maxMarkets × Fin maxBooks) : Quote :=
  t.table s

def apply (t : BookTable maxMarkets maxBooks) (u : OddsUpdate) (recvNs : UInt64) :
    BookTable maxMarkets maxBooks × ApplyResult :=
  match slot? u with
  | none => ({ t with rejectedOutOfRange := t.rejectedOutOfRange + 1 }, .rejectedOutOfRange)
  | some s =>
    let slot := t.table s
    -- an unwritten slot takes its first record whatever its number
    if slot.seqNo ≠ kEmptySeq ∧ u.seqNo ≤ slot.seqNo then
      ({ t with rejectedStaleSeq := t.rejectedStaleSeq + 1 }, .rejectedStaleSeq)
    else
      ({ t with table := Function.update t.table s (Quote.ofUpdate u recvNs) }, .applied)

/-- The quote of slot `s` is too old to use at `nowNs`. A clock that ran backwards does not make
    a quote stale. -/
def isStale (t : BookTable maxMarkets maxBooks) (s : Fin maxMarkets × Fin maxBooks)
    (nowNs staleAfterNs : UInt64) : Bool :=
  let q := t.table s
  if q.seqNo = kEmptySeq then true
  else if nowNs ≤ q.recvTimestampNs then false
  else decide (nowNs - q.recvTimestampNs ≥ staleAfterNs)

/-- A sequence of calls, each with its own receive time. -/
def applyAll (t : BookTable maxMarkets maxBooks) (calls : List (OddsUpdate × UInt64)) :
    BookTable maxMarkets maxBooks :=
  calls.foldl (fun t c => (t.apply c.1 c.2).1) t

@[simp] theorem applyAll_cons (t : BookTable maxMarkets maxBooks) (c : OddsUpdate × UInt64)
    (calls : List (OddsUpdate × UInt64)) :
    t.applyAll (c :: calls) = (t.apply c.1 c.2).1.applyAll calls := rfl

theorem applyAll_append (t : BookTable maxMarkets maxBooks) (l l' : List (OddsUpdate × UInt64)) :
    t.applyAll (l ++ l') = (t.applyAll l).applyAll l' := List.foldl_append

/-! ## 1. What one call can do -/

/-- **Every call, with its guards**: out of range, not newer than a written slot, or stored. -/
theorem apply_cases (t : BookTable maxMarkets maxBooks) (u : OddsUpdate) (recvNs : UInt64) :
    ((slot? u : Option (Fin maxMarkets × Fin maxBooks)) = none ∧
      t.apply u recvNs =
        ({ t with rejectedOutOfRange := t.rejectedOutOfRange + 1 }, .rejectedOutOfRange)) ∨
    (∃ s, slot? u = some s ∧ (t.get s).seqNo ≠ kEmptySeq ∧ u.seqNo ≤ (t.get s).seqNo ∧
      t.apply u recvNs =
        ({ t with rejectedStaleSeq := t.rejectedStaleSeq + 1 }, .rejectedStaleSeq)) ∨
    (∃ s, slot? u = some s ∧ ((t.get s).seqNo = kEmptySeq ∨ (t.get s).seqNo < u.seqNo) ∧
      t.apply u recvNs =
        ({ t with table := Function.update t.table s (Quote.ofUpdate u recvNs) }, .applied)) := by
  unfold apply
  cases hs : (slot? u : Option (Fin maxMarkets × Fin maxBooks)) with
  | none => exact Or.inl ⟨rfl, rfl⟩
  | some s =>
    by_cases h : (t.table s).seqNo ≠ kEmptySeq ∧ u.seqNo ≤ (t.table s).seqNo
    · exact Or.inr (Or.inl ⟨s, rfl, h.1, h.2, if_pos h⟩)
    · refine Or.inr (Or.inr ⟨s, rfl, ?_, if_neg h⟩)
      by_cases he : (t.table s).seqNo = kEmptySeq
      · exact Or.inl he
      · exact Or.inr (not_le.mp fun hle => h ⟨he, hle⟩)

/-- A record that is not stored leaves every slot as it was, and one of the counters goes up. -/
theorem apply_of_rejected (t : BookTable maxMarkets maxBooks) (u : OddsUpdate) (recvNs : UInt64)
    (h : (t.apply u recvNs).2 ≠ .applied) :
    (t.apply u recvNs).1.table = t.table ∧
      (((t.apply u recvNs).1.rejectedOutOfRange = t.rejectedOutOfRange + 1 ∧
          (t.apply u recvNs).1.rejectedStaleSeq = t.rejectedStaleSeq) ∨
        ((t.apply u recvNs).1.rejectedOutOfRange = t.rejectedOutOfRange ∧
          (t.apply u recvNs).1.rejectedStaleSeq = t.rejectedStaleSeq + 1)) := by
  rcases apply_cases t u recvNs with ⟨_, e⟩ | ⟨_, _, _, _, e⟩ | ⟨_, _, _, e⟩
  · rw [e]
    exact ⟨rfl, Or.inl ⟨rfl, rfl⟩⟩
  · rw [e]
    exact ⟨rfl, Or.inr ⟨rfl, rfl⟩⟩
  · rw [e] at h
    exact absurd rfl h

/-- A record that is stored touches its own slot, and no counter. -/
theorem apply_of_applied (t : BookTable maxMarkets maxBooks) (u : OddsUpdate) (recvNs : UInt64)
    (h : (t.apply u recvNs).2 = .applied) :
    ∃ s, slot? u = some s ∧ (∀ s', s' ≠ s → (t.apply u recvNs).1.get s' = t.get s') ∧
      (t.apply u recvNs).1.rejectedOutOfRange = t.rejectedOutOfRange ∧
        (t.apply u recvNs).1.rejectedStaleSeq = t.rejectedStaleSeq := by
  rcases apply_cases t u recvNs with ⟨_, e⟩ | ⟨_, _, _, _, e⟩ | ⟨s, hs, _, e⟩
  · rw [e] at h
    cases h
  · rw [e] at h
    cases h
  · rw [e]
    exact ⟨s, hs, fun s' hne => Function.update_of_ne hne _ _, rfl, rfl⟩

/-- The counters have no say in what a call does to the slots. -/
theorem apply_congr {t t' : BookTable maxMarkets maxBooks} (h : t.table = t'.table)
    (u : OddsUpdate) (recvNs : UInt64) :
    (t.apply u recvNs).1.table = (t'.apply u recvNs).1.table ∧
      (t.apply u recvNs).2 = (t'.apply u recvNs).2 := by
  unfold apply
  cases (slot? u : Option (Fin maxMarkets × Fin maxBooks)) with
  | none => exact ⟨h, rfl⟩
  | some s =>
    dsimp only
    rw [h]
    split
    · exact ⟨rfl, rfl⟩
    · exact ⟨rfl, rfl⟩

/-! ## 2. A slot as a newest-wins register -/

/-- The quote in a slot is what a register of quotes holds: a register that holds nothing is the
    slot as the table starts, and a held quote does not carry the mark of an unwritten slot. -/
def SlotHolds (q : Quote) : Option Quote → Prop
  | none => q = {}
  | some p => q = p ∧ p.seqNo ≠ kEmptySeq

theorem SlotHolds.unique {q q' : Quote} {r : Option Quote} (h : SlotHolds q r)
    (h' : SlotHolds q' r) : q = q' := by
  cases r with
  | none => exact Eq.trans h (Eq.symm h')
  | some p => exact h.1.trans h'.1.symm

/-- The gate of `apply` is the register's: an unwritten slot or a smaller number. -/
theorem admits_iff {q : Quote} {r : Option Quote} (h : SlotHolds q r) (p : Quote) :
    Register.Admits Quote.seqNo r p ↔ q.seqNo = kEmptySeq ∨ q.seqNo < p.seqNo := by
  cases r with
  | none =>
    have hq : q = {} := h
    subst hq
    exact ⟨fun _ => Or.inl rfl, fun _ => Register.admits_none _ _⟩
  | some p' =>
    obtain ⟨rfl, hne⟩ := h
    rw [Register.admits_some]
    exact ⟨Or.inr, fun h => h.resolve_left hne⟩

/-- **One call refines one offer**: at the slot the record names the register is offered its
    quote, at every other slot nothing happens. -/
theorem slotHolds_apply {t : BookTable maxMarkets maxBooks} {s : Fin maxMarkets × Fin maxBooks}
    {r : Option Quote} (h : SlotHolds (t.get s) r) (u : OddsUpdate) (recvNs : UInt64)
    (hseq : slot? u = some s → u.seqNo ≠ kEmptySeq) :
    SlotHolds ((t.apply u recvNs).1.get s)
      (if slot? u = some s then Register.offer Quote.seqNo r (Quote.ofUpdate u recvNs) else r) := by
  rcases apply_cases t u recvNs with ⟨hs, e⟩ | ⟨s', hs, hne, hle, e⟩ | ⟨s', hs, hnew, e⟩
  · rw [e, if_neg (by simp [hs])]
    exact h
  · rw [e]
    by_cases hss : s' = s
    · subst hss
      have hna : ¬ Register.Admits Quote.seqNo r (Quote.ofUpdate u recvNs) := by
        rw [admits_iff h]
        rintro (he | hlt)
        · exact hne he
        · exact absurd hlt (not_lt.mpr hle)
      rw [if_pos hs, Register.offer_of_not_admits _ hna]
      exact h
    · rw [if_neg (by rw [hs]; exact fun e => hss (Option.some.inj e))]
      exact h
  · rw [e]
    by_cases hss : s' = s
    · subst hss
      have ha : Register.Admits Quote.seqNo r (Quote.ofUpdate u recvNs) :=
        (admits_iff h _).mpr hnew
      rw [if_pos hs, Register.offer_of_admits _ ha]
      exact ⟨Function.update_self _ _ _, hseq hs⟩
    · rw [if_neg (by rw [hs]; exact fun e => hss (Option.some.inj e))]
      show SlotHolds (Function.update t.table s' _ s) r
      rw [Function.update_of_ne (Ne.symm hss)]
      exact h

/-- The quotes a sequence of calls offers to slot `s`, in order. -/
def offersAt (s : Fin maxMarkets × Fin maxBooks) (calls : List (OddsUpdate × UInt64)) :
    List Quote :=
  (calls.filter (fun c => decide (slot? c.1 = some s))).map fun c => Quote.ofUpdate c.1 c.2

/-- **Any sequence of calls refines the same sequence of offers.** -/
theorem slotHolds_applyAll {t : BookTable maxMarkets maxBooks}
    {s : Fin maxMarkets × Fin maxBooks} {r : Option Quote} (h : SlotHolds (t.get s) r)
    (calls : List (OddsUpdate × UInt64))
    (hseq : ∀ c ∈ calls, slot? c.1 = some s → c.1.seqNo ≠ kEmptySeq) :
    SlotHolds ((t.applyAll calls).get s)
      ((offersAt s calls).foldl (Register.offer Quote.seqNo) r) := by
  induction calls generalizing t r with
  | nil => exact h
  | cons c calls ih =>
    have h1 := slotHolds_apply h c.1 c.2 (hseq c List.mem_cons_self)
    have h2 := ih h1 fun d hd => hseq d (List.mem_cons_of_mem _ hd)
    rw [applyAll_cons]
    by_cases hs : slot? c.1 = some s
    · rw [if_pos hs] at h2
      simpa [offersAt, hs] using h2
    · rw [if_neg hs] at h2
      simpa [offersAt, hs] using h2

/-- From the empty table a slot holds the newest quote offered to it. -/
theorem newest_of_applyAll {s : Fin maxMarkets × Fin maxBooks}
    (calls : List (OddsUpdate × UInt64))
    (hseq : ∀ c ∈ calls, slot? c.1 = some s → c.1.seqNo ≠ kEmptySeq) :
    ∃ r, SlotHolds ((({} : BookTable maxMarkets maxBooks).applyAll calls).get s) r ∧
      Register.Newest Quote.seqNo r (offersAt s calls) := by
  have h0 : SlotHolds (({} : BookTable maxMarkets maxBooks).get s) none := rfl
  exact ⟨_, slotHolds_applyAll h0 calls hseq, Register.newest_foldl _ _⟩

end BookTable

end OddsEngine
