/-
  File:      OddsEngine/Engine/TableHistory.lean
  Subject:   What the quote table guarantees over whole sequences of calls.

  * `gated_iff` -- the sequence gate: what is accepted for a slot has strictly increasing
    numbers, an accepted slot is never again unwritten, nothing at or below an accepted number
    gets in, and every call touches what it should and nothing else. It holds of a sequence of
    calls exactly when no in-range record of it carries `kEmptySeq`: a slot that stores that
    number reads as never written, and takes any number after it (`not_gated_sentinel`).
  * `content_unique` -- the content of the table depends on the SET of records only: any order
    and any repetition of them leaves every slot at its record with the largest number.
-/
import OddsEngine.Engine.BookTable

namespace OddsEngine.BookTable

open Lib

variable {maxMarkets maxBooks : Nat}

/-! ## 1. The sequence gate -/

/-- The slot is treated as one that was never written: stale at every time, under every
    threshold. -/
def NeverWritten (t : BookTable maxMarkets maxBooks) (s : Fin maxMarkets × Fin maxBooks) : Prop :=
  ∀ nowNs staleAfterNs, t.isStale s nowNs staleAfterNs = true

theorem neverWritten_iff (t : BookTable maxMarkets maxBooks) (s : Fin maxMarkets × Fin maxBooks) :
    t.NeverWritten s ↔ (t.get s).seqNo = kEmptySeq := by
  constructor
  · intro h
    by_contra hne
    have h0 := h 0 0
    simp only [isStale, get] at h0 hne
    rw [if_neg hne, if_pos (UInt64.zero_le)] at h0
    exact absurd h0 (by decide)
  · intro h nowNs staleAfterNs
    unfold isStale
    exact if_pos h

/-- The table after the calls `pre`, from empty. -/
def after (maxMarkets maxBooks : Nat) (pre : List (OddsUpdate × UInt64)) :
    BookTable maxMarkets maxBooks := ({} : BookTable maxMarkets maxBooks).applyAll pre

/-- After the calls `pre` the call `c` is accepted, into slot `s`. -/
def Accepts (pre : List (OddsUpdate × UInt64)) (c : OddsUpdate × UInt64)
    (s : Fin maxMarkets × Fin maxBooks) : Prop :=
  slot? c.1 = some s ∧ ((after maxMarkets maxBooks pre).apply c.1 c.2).2 = .applied

/-- **The sequence gate over a sequence of calls** on an empty table. -/
structure Gated (maxMarkets maxBooks : Nat) (calls : List (OddsUpdate × UInt64)) : Prop where
  /-- Accepted numbers of a slot strictly increase. -/
  increasing : ∀ pre c mid d post (s : Fin maxMarkets × Fin maxBooks),
    calls = pre ++ c :: mid ++ d :: post → Accepts pre c s → Accepts (pre ++ c :: mid) d s →
      c.1.seqNo < d.1.seqNo
  /-- A slot that accepted a record is not taken for an unwritten one again. -/
  written : ∀ pre c mid post (s : Fin maxMarkets × Fin maxBooks),
    calls = pre ++ c :: mid ++ post → Accepts pre c s →
      ¬ (after maxMarkets maxBooks (pre ++ c :: mid)).NeverWritten s
  /-- A number at or below an accepted one is refused. -/
  refuses : ∀ pre c mid d post (s : Fin maxMarkets × Fin maxBooks),
    calls = pre ++ c :: mid ++ d :: post → Accepts pre c s → slot? d.1 = some s →
      d.1.seqNo ≤ c.1.seqNo →
        ((after maxMarkets maxBooks (pre ++ c :: mid)).apply d.1 d.2).2 = .rejectedStaleSeq
  /-- A refused record changes no slot and bumps one counter by one. -/
  rejected : ∀ pre c post, calls = pre ++ c :: post →
    let t := after maxMarkets maxBooks pre
    let r := t.apply c.1 c.2
    r.2 ≠ .applied → r.1.table = t.table ∧
      ((r.1.rejectedOutOfRange = t.rejectedOutOfRange + 1 ∧
          r.1.rejectedStaleSeq = t.rejectedStaleSeq) ∨
        (r.1.rejectedOutOfRange = t.rejectedOutOfRange ∧
          r.1.rejectedStaleSeq = t.rejectedStaleSeq + 1))
  /-- An accepted record changes its own slot only, and no counter. -/
  accepted : ∀ pre c post, calls = pre ++ c :: post →
    let t := after maxMarkets maxBooks pre
    let r := t.apply c.1 c.2
    r.2 = .applied → ∃ s, slot? c.1 = some s ∧ (∀ s', s' ≠ s → r.1.get s' = t.get s') ∧
      r.1.rejectedOutOfRange = t.rejectedOutOfRange ∧
        r.1.rejectedStaleSeq = t.rejectedStaleSeq

/-- No in-range record of the sequence carries the mark of an unwritten slot. -/
def NoSentinel (maxMarkets maxBooks : Nat) (calls : List (OddsUpdate × UInt64)) : Prop :=
  ∀ c ∈ calls, (slot? c.1 : Option (Fin maxMarkets × Fin maxBooks)) ≠ none →
    c.1.seqNo ≠ kEmptySeq

theorem NoSentinel.at {calls : List (OddsUpdate × UInt64)}
    (h : NoSentinel maxMarkets maxBooks calls) (s : Fin maxMarkets × Fin maxBooks) :
    ∀ c ∈ calls, slot? c.1 = some s → c.1.seqNo ≠ kEmptySeq :=
  fun c hc hs => h c hc (by rw [hs]; simp)

theorem accepts_iff (pre : List (OddsUpdate × UInt64)) (c : OddsUpdate × UInt64)
    (s : Fin maxMarkets × Fin maxBooks) :
    Accepts pre c s ↔ slot? c.1 = some s ∧
      (((after maxMarkets maxBooks pre).get s).seqNo = kEmptySeq ∨
        ((after maxMarkets maxBooks pre).get s).seqNo < c.1.seqNo) := by
  unfold Accepts
  constructor
  · rintro ⟨hs, ha⟩
    refine ⟨hs, ?_⟩
    rcases apply_cases (after maxMarkets maxBooks pre) c.1 c.2 with
      ⟨hs', _⟩ | ⟨_, _, _, _, e⟩ | ⟨s', hs', hnew, _⟩
    · rw [hs] at hs'; cases hs'
    · rw [e] at ha; cases ha
    · rw [hs] at hs'; cases hs'; exact hnew
  · rintro ⟨hs, hnew⟩
    refine ⟨hs, ?_⟩
    rcases apply_cases (after maxMarkets maxBooks pre) c.1 c.2 with
      ⟨hs', _⟩ | ⟨s', hs', hne, hle, _⟩ | ⟨_, _, _, e⟩
    · rw [hs] at hs'; cases hs'
    · rw [hs] at hs'; cases hs'
      rcases hnew with he | hlt
      · exact absurd he hne
      · exact absurd hlt (not_lt.mpr hle)
    · rw [e]

/-- A record in range that is not accepted is refused for its number. -/
theorem rejectedStaleSeq_of_not_accepts {pre : List (OddsUpdate × UInt64)}
    {c : OddsUpdate × UInt64} {s : Fin maxMarkets × Fin maxBooks} (hs : slot? c.1 = some s)
    (h : ¬ Accepts pre c s) :
    ((after maxMarkets maxBooks pre).apply c.1 c.2).2 = .rejectedStaleSeq := by
  rcases apply_cases (after maxMarkets maxBooks pre) c.1 c.2 with
    ⟨hs', _⟩ | ⟨_, _, _, _, e⟩ | ⟨_, _, _, e⟩
  · rw [hs] at hs'; cases hs'
  · rw [e]
  · exact absurd ⟨hs, by rw [e]⟩ h

/-- Without the mark, what is accepted is newer than everything the slot was offered. -/
theorem lt_of_accepts {pre : List (OddsUpdate × UInt64)} {d : OddsUpdate × UInt64}
    {s : Fin maxMarkets × Fin maxBooks}
    (hseq : ∀ c ∈ pre, slot? c.1 = some s → c.1.seqNo ≠ kEmptySeq)
    (hd : Accepts pre d s) {c : OddsUpdate × UInt64} (hc : c ∈ pre) (hcs : slot? c.1 = some s) :
    c.1.seqNo < d.1.seqNo := by
  obtain ⟨r, hr, hnew⟩ := newest_of_applyAll pre hseq
  have ha : Register.Admits Quote.seqNo r (Quote.ofUpdate d.1 d.2) :=
    (admits_iff hr _).mpr ((accepts_iff pre d s).mp hd).2
  have hm : Quote.ofUpdate c.1 c.2 ∈ offersAt s pre :=
    List.mem_map.mpr ⟨c, List.mem_filter.mpr ⟨hc, by simpa using hcs⟩, rfl⟩
  exact hnew.lt_of_admits _ ha hm

/-- Without the mark, a slot that was offered anything is a written slot. -/
theorem not_neverWritten {pre : List (OddsUpdate × UInt64)} {s : Fin maxMarkets × Fin maxBooks}
    (hseq : ∀ c ∈ pre, slot? c.1 = some s → c.1.seqNo ≠ kEmptySeq)
    {c : OddsUpdate × UInt64} (hc : c ∈ pre) (hcs : slot? c.1 = some s) :
    ¬ (after maxMarkets maxBooks pre).NeverWritten s := by
  obtain ⟨r, hr, hnew⟩ := newest_of_applyAll pre hseq
  have hm : Quote.ofUpdate c.1 c.2 ∈ offersAt s pre :=
    List.mem_map.mpr ⟨c, List.mem_filter.mpr ⟨hc, by simpa using hcs⟩, rfl⟩
  rw [neverWritten_iff]
  cases r with
  | none => rw [hnew.1 rfl] at hm; exact absurd hm List.not_mem_nil
  | some q =>
    obtain ⟨hq, hne⟩ := hr
    intro he
    exact hne (hq ▸ he)

/-- A record that carries the mark is accepted whatever the slot holds. -/
theorem accepts_sentinel (pre : List (OddsUpdate × UInt64)) {c : OddsUpdate × UInt64}
    {s : Fin maxMarkets × Fin maxBooks} (hs : slot? c.1 = some s) (he : c.1.seqNo = kEmptySeq) :
    Accepts pre c s := by
  refine (accepts_iff pre c s).mpr ⟨hs, ?_⟩
  by_cases h : ((after maxMarkets maxBooks pre).get s).seqNo = kEmptySeq
  · exact Or.inl h
  · right
    have hmax : ∀ x : UInt64, x ≠ kEmptySeq → x < kEmptySeq := by
      intro x hx
      have hlt := x.toNat_lt
      have hne : x.toNat ≠ kEmptySeq.toNat := fun e => hx (UInt64.toNat_inj.mp e)
      have hk : kEmptySeq.toNat = 2 ^ 64 - 1 := rfl
      rw [UInt64.lt_iff_toNat_lt]
      omega
    rw [he]
    exact hmax _ h

/-- ... and leaves it at the mark. -/
theorem seqNo_after_accepts {pre : List (OddsUpdate × UInt64)} {c : OddsUpdate × UInt64}
    {s : Fin maxMarkets × Fin maxBooks} (h : Accepts pre c s) :
    ((after maxMarkets maxBooks (pre ++ [c])).get s).seqNo = c.1.seqNo := by
  unfold after
  rw [applyAll_append]
  rcases apply_cases (after maxMarkets maxBooks pre) c.1 c.2 with
    ⟨hs, _⟩ | ⟨_, _, _, _, e⟩ | ⟨s', hs, _, e⟩
  · rw [h.1] at hs; cases hs
  · have h2 := h.2
    rw [e] at h2
    cases h2
  · rw [h.1] at hs
    cases hs
    show (((after maxMarkets maxBooks pre).apply c.1 c.2).1.get s).seqNo = c.1.seqNo
    rw [e]
    simp [get, Quote.ofUpdate]

/-- **The gate holds of a sequence of calls exactly when no in-range record of it carries
    `kEmptySeq` as its number.** -/
theorem gated_iff (maxMarkets maxBooks : Nat) (calls : List (OddsUpdate × UInt64)) :
    Gated maxMarkets maxBooks calls ↔ NoSentinel maxMarkets maxBooks calls := by
  constructor
  · intro h c hc hs he
    obtain ⟨s, hs⟩ := Option.ne_none_iff_exists'.mp hs
    obtain ⟨pre, post, rfl⟩ := List.append_of_mem hc
    have ha : Accepts pre c s := accepts_sentinel pre hs he
    have hw := h.written pre c [] post s (by simp) ha
    rw [neverWritten_iff] at hw
    exact hw ((seqNo_after_accepts ha).trans he)
  · intro h
    have hlt : ∀ pre c mid d post (s : Fin maxMarkets × Fin maxBooks),
        calls = pre ++ c :: mid ++ d :: post → slot? c.1 = some s →
          Accepts (pre ++ c :: mid) d s → c.1.seqNo < d.1.seqNo := by
      intro pre c mid d post s e hc hd
      refine lt_of_accepts (fun x hx => h.at s x ?_) hd (by simp) hc
      rw [e]
      exact List.mem_append_left _ hx
    exact
      { increasing := fun pre c mid d post s e hc hd => hlt pre c mid d post s e hc.1 hd
        written := fun pre c mid post s e hc =>
          not_neverWritten (fun x hx => h.at s x (e ▸ List.mem_append_left _ hx)) (by simp) hc.1
        refuses := fun pre c mid d post s e hc hd hle =>
          rejectedStaleSeq_of_not_accepts hd fun ha =>
            absurd (hlt pre c mid d post s e hc.1 ha) (not_lt.mpr hle)
        rejected := fun pre c _ _ => apply_of_rejected (after maxMarkets maxBooks pre) c.1 c.2
        accepted := fun pre c _ _ => apply_of_applied (after maxMarkets maxBooks pre) c.1 c.2 }

/-- Two records on one slot, the first with number `2^64 - 1`: the slot reads as unwritten
    afterwards and takes number 5. -/
theorem not_gated_sentinel :
    ¬ Gated 1024 16 [({ seqNo := 0xFFFFFFFFFFFFFFFF, outcomeCount := 3 }, 0),
      ({ seqNo := 5, outcomeCount := 3 }, 0)] := by
  intro h
  have h5 := h.refuses [] _ [] _ [] (0, 0) rfl ⟨by decide, by decide⟩ (by decide) (by decide)
  exact absurd h5 (by decide)

/-! ## 2. Order and repetition of the records -/

/-- What the record loop does with the table: a record is received at its own timestamp. -/
def receive (t : BookTable maxMarkets maxBooks) (u : OddsUpdate) : BookTable maxMarkets maxBooks :=
  (t.apply u u.simTimestampNs).1

/-- The records that name slot `s`, as the quotes they store. -/
def quotesAt (s : Fin maxMarkets × Fin maxBooks) (us : List OddsUpdate) : List Quote :=
  offersAt s (us.map fun u => (u, u.simTimestampNs))

theorem mem_quotesAt {s : Fin maxMarkets × Fin maxBooks} {us : List OddsUpdate} {q : Quote} :
    q ∈ quotesAt s us ↔ ∃ u ∈ us, slot? u = some s ∧ q = Quote.ofUpdate u u.simTimestampNs := by
  unfold quotesAt offersAt
  constructor
  · intro h
    obtain ⟨c, hc, rfl⟩ := List.mem_map.mp h
    obtain ⟨hc, hs⟩ := List.mem_filter.mp hc
    obtain ⟨u, hu, rfl⟩ := List.mem_map.mp hc
    exact ⟨u, hu, by simpa using hs, rfl⟩
  · rintro ⟨u, hu, hs, rfl⟩
    exact List.mem_map.mpr ⟨(u, u.simTimestampNs),
      List.mem_filter.mpr ⟨List.mem_map.mpr ⟨u, hu, rfl⟩, by simpa using hs⟩, rfl⟩

theorem foldl_receive_eq (t : BookTable maxMarkets maxBooks) (us : List OddsUpdate) :
    us.foldl receive t = t.applyAll (us.map fun u => (u, u.simTimestampNs)) := by
  unfold applyAll
  rw [List.foldl_map]
  rfl

/-- A slot holds the newest of the records that name it. -/
theorem newest_of_receive (s : Fin maxMarkets × Fin maxBooks) {us : List OddsUpdate}
    (hseq : ∀ u ∈ us, u.seqNo < kEmptySeq) :
    ∃ r, SlotHolds ((us.foldl receive ({} : BookTable maxMarkets maxBooks)).get s) r ∧
      Register.Newest Quote.seqNo r (quotesAt s us) := by
  rw [foldl_receive_eq]
  refine newest_of_applyAll _ fun c hc _ => ?_
  obtain ⟨u, hu, rfl⟩ := List.mem_map.mp hc
  exact (hseq u hu).ne

/-- The content of slot `s` is what the set `us` of records determines: untouched where no record
    names the slot, else the record with the largest number. -/
def SlotContent (us : List OddsUpdate) (s : Fin maxMarkets × Fin maxBooks) (q : Quote) : Prop :=
  ((∀ u ∈ us, slot? u ≠ some s) ∧ q = {}) ∨
    ∃ u ∈ us, slot? u = some s ∧ (∀ v ∈ us, slot? v = some s → v.seqNo ≤ u.seqNo) ∧
      q = Quote.ofUpdate u u.simTimestampNs

theorem slotContent_receive (s : Fin maxMarkets × Fin maxBooks) {us : List OddsUpdate}
    (hseq : ∀ u ∈ us, u.seqNo < kEmptySeq) :
    SlotContent us s ((us.foldl receive ({} : BookTable maxMarkets maxBooks)).get s) := by
  obtain ⟨r, hr, hnew⟩ := newest_of_receive s hseq
  cases r with
  | none =>
    refine Or.inl ⟨fun u hu hs => ?_, hr⟩
    have hm : Quote.ofUpdate u u.simTimestampNs ∈ quotesAt s us := mem_quotesAt.mpr ⟨u, hu, hs, rfl⟩
    rw [hnew.1 rfl] at hm
    exact List.not_mem_nil hm
  | some q =>
    obtain ⟨hmem, hmax⟩ := hnew.2 q rfl
    obtain ⟨u, hu, hs, hq⟩ := mem_quotesAt.mp hmem
    refine Or.inr ⟨u, hu, hs, fun v hv hvs => ?_, hr.1.trans hq⟩
    have h := hmax _ (mem_quotesAt.mpr ⟨v, hv, hvs, rfl⟩)
    rw [hq] at h
    exact h

/-- One slot number names one record. -/
def OneRecordPerSeq (us : List OddsUpdate) : Prop :=
  ∀ u ∈ us, ∀ v ∈ us, u.marketId = v.marketId → u.bookId = v.bookId → u.seqNo = v.seqNo → u = v

theorem slot?_inj {u v : OddsUpdate} {s : Fin maxMarkets × Fin maxBooks} (hu : slot? u = some s)
    (hv : slot? v = some s) : u.marketId = v.marketId ∧ u.bookId = v.bookId := by
  unfold slot? at hu hv
  split at hu
  · split at hv
    · cases hu
      simp only [Option.some.injEq, Prod.mk.injEq, Fin.mk.injEq] at hv
      exact ⟨UInt16.toNat_inj.mp hv.1.symm, UInt16.toNat_inj.mp hv.2.symm⟩
    · cases hv
  · cases hu

/-- **The table's content depends on the set of records only**: two arrival sequences of the same
    records, in any order and with any repetition, leave every slot the same, at the record of
    the slot with the largest number. -/
theorem content_unique (maxMarkets maxBooks : Nat) (us vs : List OddsUpdate)
    (hsame : ∀ u, u ∈ us ↔ u ∈ vs) (hseq : ∀ u ∈ us, u.seqNo < kEmptySeq)
    (hone : OneRecordPerSeq us) (s : Fin maxMarkets × Fin maxBooks) :
    (us.foldl receive ({} : BookTable maxMarkets maxBooks)).get s =
        (vs.foldl receive ({} : BookTable maxMarkets maxBooks)).get s ∧
      SlotContent us s ((us.foldl receive ({} : BookTable maxMarkets maxBooks)).get s) := by
  refine ⟨?_, slotContent_receive s hseq⟩
  obtain ⟨r, hr, hnew⟩ := newest_of_receive s hseq
  obtain ⟨r', hr', hnew'⟩ := newest_of_receive s fun u hu => hseq u ((hsame u).mpr hu)
  have hmem : ∀ q, q ∈ quotesAt s us ↔ q ∈ quotesAt s vs := by
    intro q
    simp only [mem_quotesAt, hsame]
  have hkey : ∀ p ∈ quotesAt s us, ∀ q ∈ quotesAt s us, p.seqNo = q.seqNo → p = q := by
    intro p hp q hq hpq
    obtain ⟨u, hu, hus, rfl⟩ := mem_quotesAt.mp hp
    obtain ⟨v, hv, hvs, rfl⟩ := mem_quotesAt.mp hq
    obtain ⟨hm, hb⟩ := slot?_inj hus hvs
    rw [hone u hu v hv hm hb hpq]
  have hrr : r = r' := hnew.unique _ hnew' hmem hkey
  exact hr.unique (hrr ▸ hr')

/-- Two quotes of one book, in order and once, and late and twice. -/
theorem content_unique_late_and_twice :
    let first : OddsUpdate := { seqNo := 1, outcomeCount := 2, oddsMilli := fun _ => 1900 }
    let second : OddsUpdate := { seqNo := 2, outcomeCount := 2, oddsMilli := fun _ => 2100 }
    ([first, second].foldl receive ({} : BookTable 1024 16)).get (0, 0) =
        ([second, first, second].foldl receive ({} : BookTable 1024 16)).get (0, 0) ∧
      SlotContent [first, second] ((0, 0) : Fin 1024 × Fin 16)
        (([first, second].foldl receive ({} : BookTable 1024 16)).get (0, 0)) := by
  intro first second
  have hsame : ∀ u, u ∈ [first, second] ↔ u ∈ [second, first, second] := by
    intro u
    simp only [List.mem_cons, List.not_mem_nil, or_false]
    exact ⟨fun h => Or.inr h, fun h => h.elim Or.inr id⟩
  have hone : OneRecordPerSeq [first, second] := by
    unfold OneRecordPerSeq
    decide
  exact content_unique 1024 16 [first, second] [second, first, second] hsame (by decide) hone (0, 0)

end OddsEngine.BookTable
