/-
  File:      OddsEngine/Engine/SlotRecords.lean
  Subject:   Which record a slot of the quote table ends with, the mark included.

  `BookTable` is a newest-wins register for records that leave the mark of an unwritten slot alone.
  Here nothing is assumed: `get_foldl_receive` says that a slot is the fold of the records that
  name it under `keep`, and `kept_cases` which record that leaves. The mark, once stored, opens
  the slot to whatever comes next, so only the records behind the last one that carries it
  (`behindMark`) compete: the first of them with the largest number stays.
-/
import Mathlib.Data.List.DropRight
import OddsEngine.Engine.TableHistory

namespace OddsEngine.BookTable

open Lib

variable {maxMarkets maxBooks : Nat}

/-- The gate of `apply`, on the records themselves. -/
def keep (r : Option OddsUpdate) (u : OddsUpdate) : Option OddsUpdate :=
  match r with
  | none => some u
  | some q => if q.seqNo ≠ kEmptySeq ∧ u.seqNo ≤ q.seqNo then some q else some u

/-- What the slot holds of the record kept. -/
def content : Option OddsUpdate → Quote
  | none => {}
  | some u => Quote.ofUpdate u u.simTimestampNs

theorem content_seqNo (r : Option OddsUpdate) :
    (content r).seqNo = r.elim kEmptySeq OddsUpdate.seqNo := by
  cases r <;> rfl

/-- **One record**: the slot it names keeps it or not, every other stays. -/
theorem get_receive {t : BookTable maxMarkets maxBooks} {s : Fin maxMarkets × Fin maxBooks}
    {r : Option OddsUpdate} (h : t.get s = content r) (u : OddsUpdate) :
    (t.receive u).get s = content (if slot? u = some s then keep r u else r) := by
  unfold receive
  rcases apply_cases t u u.simTimestampNs with ⟨hs, e⟩ | ⟨s', hs, hne, hle, e⟩ | ⟨s', hs, hnew, e⟩
  · rw [e, hs, if_neg (by simp)]
    exact h
  · rw [e, hs]
    by_cases hss : s' = s
    · subst hss
      rw [if_pos rfl]
      have hkeep : keep r u = r := by
        rw [h, content_seqNo] at hne hle
        cases r with
        | none => exact absurd rfl hne
        | some q => exact if_pos ⟨hne, hle⟩
      rw [hkeep]
      exact h
    · rw [if_neg (fun e => hss (Option.some.inj e))]
      exact h
  · rw [e, hs]
    by_cases hss : s' = s
    · subst hss
      rw [if_pos rfl]
      have hkeep : keep r u = some u := by
        cases r with
        | none => rfl
        | some q =>
          refine if_neg fun hc => ?_
          rw [h] at hnew
          rcases hnew with hmark | hlt
          · exact hc.1 hmark
          · exact absurd hlt (not_lt.mpr hc.2)
      rw [hkeep]
      exact Function.update_self _ _ _
    · rw [if_neg (fun e => hss (Option.some.inj e))]
      show Function.update t.table s' _ s = content r
      rw [Function.update_of_ne (Ne.symm hss)]
      exact h

/-- The records that name a slot, in order. -/
def recordsAt (s : Fin maxMarkets × Fin maxBooks) (rs : List OddsUpdate) : List OddsUpdate :=
  rs.filter fun u => decide (slot? u = some s)

/-- The record a slot ends with, of those that name it. -/
def kept (us : List OddsUpdate) : Option OddsUpdate := us.foldl keep none

theorem kept_concat (us : List OddsUpdate) (u : OddsUpdate) : kept (us ++ [u]) = keep (kept us) u :=
  List.foldl_append

/-- **A slot is the fold of its records.** -/
theorem get_foldl_receive (s : Fin maxMarkets × Fin maxBooks) (rs : List OddsUpdate) :
    (rs.foldl receive ({} : BookTable maxMarkets maxBooks)).get s =
      content (kept (recordsAt s rs)) := by
  induction rs using List.reverseRecOn with
  | nil => rfl
  | append_singleton rs u ih =>
    rw [List.foldl_append, List.foldl_cons, List.foldl_nil, get_receive ih u]
    by_cases hs : slot? u = some s
    · simp [recordsAt, hs, kept_concat]
    · simp [recordsAt, hs]

theorem mem_of_kept {us : List OddsUpdate} {q : OddsUpdate} (h : kept us = some q) : q ∈ us := by
  induction us using List.reverseRecOn with
  | nil => cases h
  | append_singleton us u ih =>
    rw [kept_concat] at h
    unfold keep at h
    split at h
    · cases h
      exact List.mem_concat_self
    · next q' hq' =>
      split at h
      · cases h
        exact List.mem_append_left _ (ih hq')
      · cases h
        exact List.mem_concat_self

/-! ## Which record stays -/

/-- The records behind the last one that carries the mark. -/
def behindMark (us : List OddsUpdate) : List OddsUpdate :=
  us.rtakeWhile fun u => decide (u.seqNo ≠ kEmptySeq)

/-- The first of the records with the largest number. -/
def FirstNewest (us : List OddsUpdate) (q : OddsUpdate) : Prop :=
  ∃ before after, us = before ++ q :: after ∧ (∀ v ∈ before, v.seqNo < q.seqNo) ∧
    ∀ v ∈ after, v.seqNo ≤ q.seqNo

theorem behindMark_concat_of_mark (us : List OddsUpdate) {u : OddsUpdate}
    (h : u.seqNo = kEmptySeq) : behindMark (us ++ [u]) = [] :=
  List.rtakeWhile_concat_neg _ _ _ (by simp [h])

theorem behindMark_concat (us : List OddsUpdate) {u : OddsUpdate} (h : u.seqNo ≠ kEmptySeq) :
    behindMark (us ++ [u]) = behindMark us ++ [u] :=
  List.rtakeWhile_concat_pos _ _ _ (by simp [h])

theorem ne_mark_of_mem_behindMark {us : List OddsUpdate} {u : OddsUpdate}
    (h : u ∈ behindMark us) : u.seqNo ≠ kEmptySeq := by
  have hp := List.mem_rtakeWhile_imp h
  simpa using hp

/-- **Which record a slot ends with**: with no record behind the mark, the last one, if any; else
    the first of the largest number behind it. -/
theorem kept_cases (us : List OddsUpdate) :
    (behindMark us = [] ∧ kept us = us.getLast? ∧ ∀ q ∈ kept us, q.seqNo = kEmptySeq) ∨
      ∃ q, kept us = some q ∧ FirstNewest (behindMark us) q := by
  induction us using List.reverseRecOn with
  | nil => exact Or.inl ⟨rfl, rfl, by simp [kept]⟩
  | append_singleton us u ih =>
    rw [kept_concat, List.getLast?_concat]
    by_cases hmark : u.seqNo = kEmptySeq
    · left
      have hkeep : keep (kept us) u = some u := by
        cases hk : kept us with
        | none => rfl
        | some q =>
          refine if_neg fun hc => hc.1 ?_
          have hq := q.seqNo.toNat_lt
          have hle : kEmptySeq.toNat ≤ q.seqNo.toNat := by
            rw [← hmark]
            exact UInt64.le_iff_toNat_le.mp hc.2
          have hk : kEmptySeq.toNat = 2 ^ 64 - 1 := rfl
          exact UInt64.toNat_inj.mp (by omega)
      rw [hkeep]
      exact ⟨behindMark_concat_of_mark us hmark, rfl, by simp [hmark]⟩
    · right
      rw [behindMark_concat us hmark]
      rcases ih with ⟨hnil, hk, hq⟩ | ⟨q, hk, before, after, hsplit, hbefore, hafter⟩
      · refine ⟨u, ?_, [], [], by simp [hnil], by simp, by simp⟩
        cases hkept : kept us with
        | none => rfl
        | some q =>
          rw [hkept] at hq
          exact if_neg fun hc => hc.1 (hq q rfl)
      · have hqmark : q.seqNo ≠ kEmptySeq :=
          ne_mark_of_mem_behindMark (by rw [hsplit]; simp)
        rw [hk, hsplit]
        by_cases hle : u.seqNo ≤ q.seqNo
        · refine ⟨q, if_pos ⟨hqmark, hle⟩, before, after ++ [u], by simp, hbefore, ?_⟩
          intro v hv
          rcases List.mem_append.mp hv with hv | hv
          · exact hafter v hv
          · rw [List.mem_singleton.mp hv]
            exact hle
        · have hlt : q.seqNo < u.seqNo := not_le.mp hle
          refine ⟨u, if_neg fun hc => hle hc.2, before ++ q :: after, [], by simp, ?_, by simp⟩
          intro v hv
          rcases List.mem_append.mp hv with hv | hv
          · exact lt_trans (hbefore v hv) hlt
          · rcases List.mem_cons.mp hv with rfl | hv
            · exact hlt
            · exact lt_of_le_of_lt (hafter v hv) hlt

/-- There is one such record at most. -/
theorem FirstNewest.unique {us : List OddsUpdate} {p q : OddsUpdate} (hp : FirstNewest us p)
    (hq : FirstNewest us q) : p = q := by
  obtain ⟨before, after, hsplit, hbefore, hafter⟩ := hp
  obtain ⟨before', after', hsplit', hbefore', hafter'⟩ := hq
  rw [hsplit] at hsplit'
  rcases List.append_eq_append_iff.mp hsplit' with ⟨mid, hmid, hrest⟩ | ⟨mid, hmid, hrest⟩
  · cases mid with
    | nil => exact (List.cons.inj hrest).1
    | cons v mid =>
      obtain ⟨rfl, hmore⟩ := List.cons.inj hrest
      have hlt := hbefore' p (by rw [hmid]; simp)
      have hmem : q ∈ after := by
        rw [hmore]
        exact List.mem_append_right mid List.mem_cons_self
      exact absurd (hafter q hmem) (not_le.mpr hlt)
  · cases mid with
    | nil => exact (List.cons.inj hrest).1.symm
    | cons v mid =>
      obtain ⟨rfl, hmore⟩ := List.cons.inj hrest
      have hlt := hbefore q (by rw [hmid]; simp)
      have hmem : p ∈ after' := by
        rw [hmore]
        exact List.mem_append_right mid List.mem_cons_self
      exact absurd (hafter' p hmem) (not_le.mpr hlt)

end OddsEngine.BookTable
