/-
  File:      OddsEngine/Lib/Missing.lean
  Subject:   What a subsequence leaves out.

  Of a list without repetitions, `missingBetween` counts the elements that a subsequence does not
  have between two of its own. Where both are given by their positions that is a subtraction
  (`missingBetween_add`).
-/
import Mathlib.Data.List.Basic
import Mathlib.Data.List.Nodup
import Mathlib.Data.List.Perm.Subperm

namespace Lib

variable {α : Type*} [BEq α] [LawfulBEq α]

/-- The number of elements of `l` between `a` and `b` that `l'` does not have. -/
def missingBetween (l l' : List α) (a b : α) : Nat :=
  (l.filter fun d => decide (d ∉ l' ∧ l.idxOf a < l.idxOf d ∧ l.idxOf d < l.idxOf b)).length

/-- What a subsequence does not have of a list without repetitions. -/
theorem length_filter_notMem_add {l l' : List α} (h : l'.Sublist l) (hl : l.Nodup) :
    (l.filter fun d => decide (d ∉ l')).length + l'.length = l.length := by
  have hin : (l.filter fun d => decide (d ∈ l')).Perm l' := by
    rw [List.perm_ext_iff_of_nodup (hl.filter _) (hl.sublist h)]
    intro d
    rw [List.mem_filter, decide_eq_true_iff]
    exact ⟨fun hd => hd.2, fun hd => ⟨h.subset hd, hd⟩⟩
  have hsplit := List.length_eq_length_filter_add (l := l) (fun d => decide (d ∈ l'))
  have hnot : (l.filter fun d => !decide (d ∈ l')) = l.filter fun d => decide (d ∉ l') :=
    List.filter_congr fun d _ => by simp
  rw [hin.length_eq, hnot] at hsplit
  omega

omit [BEq α] [LawfulBEq α] in
/-- A subsequence before `a` and one behind it lie on the two sides of an `a`. -/
theorem sublist_split {l pre post : List α} {a : α} (h : (pre ++ a :: post).Sublist l) :
    ∃ p q, l = p ++ a :: q ∧ pre.Sublist p ∧ post.Sublist q := by
  obtain ⟨r, r', rfl, hpre, hr⟩ := List.append_sublist_iff.mp h
  obtain ⟨s, s', rfl, ha, hpost⟩ := List.cons_sublist_iff.mp hr
  obtain ⟨t, t', rfl⟩ := List.append_of_mem ha
  exact ⟨r ++ t, t' ++ s', by simp, hpre.trans (List.sublist_append_left _ _),
    hpost.trans (List.sublist_append_right _ _)⟩

/-- What stands behind `p` has its position from `p`'s end on. -/
theorem idxOf_append_of_nodup {p q : List α} (h : (p ++ q).Nodup) {d : α} (hd : d ∈ q) :
    (p ++ q).idxOf d = p.length + q.idxOf d :=
  List.idxOf_append_of_notMem fun hdp => (List.nodup_append.mp h).2.2 d hdp d hd rfl

theorem idxOf_append_cons {p q : List α} {a : α} (h : (p ++ a :: q).Nodup) :
    (p ++ a :: q).idxOf a = p.length := by
  rw [idxOf_append_of_nodup h List.mem_cons_self, List.idxOf_cons_self, Nat.add_zero]

/-- Nothing lies between an element and itself. -/
theorem missingBetween_self (l l' : List α) (a : α) : missingBetween l l' a a = 0 := by
  unfold missingBetween
  rw [List.length_eq_zero_iff, List.filter_eq_nil_iff]
  intro d _ h
  have hd := of_decide_eq_true h
  omega

/-- The elements left out between `a` and `b` are those left out of the piece `m` between them. -/
theorem missingBetween_eq {l' p m q : List α} {a b : α} (h : (p ++ a :: (m ++ b :: q)).Nodup) :
    missingBetween (p ++ a :: (m ++ b :: q)) l' a b =
      (m.filter fun d => decide (d ∉ l')).length := by
  have hassoc : p ++ a :: (m ++ b :: q) = (p ++ a :: m) ++ b :: q := by simp
  have hfront : (p ++ a :: m).length = p.length + (m.length + 1) := List.length_append
  have ha := idxOf_append_cons h
  have hb := idxOf_append_cons (hassoc ▸ h)
  have hmid : ∀ d ∈ m, (p ++ a :: (m ++ b :: q)).idxOf d = p.length + (m.idxOf d + 1) := by
    intro d hd
    have hne : a ≠ d := by
      rintro rfl
      exact (List.nodup_cons.mp (List.nodup_append.mp h).2.1).1 (List.mem_append_left _ hd)
    rw [idxOf_append_of_nodup h (List.mem_cons_of_mem _ (List.mem_append_left _ hd)),
      List.idxOf_cons_ne _ hne, List.idxOf_append_of_mem hd]
  unfold missingBetween
  rw [ha, hassoc, hb, ← hassoc, List.filter_append, List.filter_cons, List.filter_append]
  have hp : (p.filter fun d => decide (d ∉ l' ∧ p.length < (p ++ a :: (m ++ b :: q)).idxOf d ∧
      (p ++ a :: (m ++ b :: q)).idxOf d < (p ++ a :: m).length)) = [] := by
    refine List.filter_eq_nil_iff.mpr fun d hd hin => ?_
    have hpos := of_decide_eq_true hin
    have hlt : p.idxOf d < p.length := List.idxOf_lt_length_of_mem hd
    rw [List.idxOf_append_of_mem hd] at hpos
    omega
  have hq : ((b :: q).filter fun d => decide (d ∉ l' ∧
      p.length < (p ++ a :: (m ++ b :: q)).idxOf d ∧
      (p ++ a :: (m ++ b :: q)).idxOf d < (p ++ a :: m).length)) = [] := by
    refine List.filter_eq_nil_iff.mpr fun d hd hin => ?_
    have hpos := of_decide_eq_true hin
    rw [hassoc, idxOf_append_of_nodup (hassoc ▸ h) hd] at hpos
    omega
  rw [hp, hq, if_neg (by rw [ha]; simp), List.nil_append, List.append_nil]
  refine congrArg List.length (List.filter_congr fun d hd => ?_)
  have hlt : m.idxOf d < m.length := List.idxOf_lt_length_of_mem hd
  rw [hmid d hd, decide_eq_decide]
  exact ⟨fun hin => hin.1, fun hnot => ⟨hnot, by omega, by omega⟩⟩

/-- **What is missing between two elements of a subsequence**, by their positions: of the elements
    from `a` on the subsequence has `post`. -/
theorem missingBetween_add {l pre post : List α} {a : α} (hl : l.Nodup)
    (h : (pre ++ a :: post).Sublist l) :
    missingBetween l (pre ++ a :: post) a ((a :: post).getLast (List.cons_ne_nil a post)) +
        post.length =
      l.idxOf ((a :: post).getLast (List.cons_ne_nil a post)) - l.idxOf a := by
  rcases List.eq_nil_or_concat' post with rfl | ⟨mid, b, rfl⟩
  · rw [List.getLast_singleton, missingBetween_self, Nat.sub_self, List.length_nil]
  · have hlast : (a :: (mid ++ [b])).getLast (List.cons_ne_nil a _) = b := by simp
    obtain ⟨p, r, rfl, hpre, hpost⟩ := sublist_split h
    obtain ⟨m, q, rfl, hmid, _⟩ := sublist_split hpost
    have hdisj := List.nodup_append.mp hl
    have hrest := List.nodup_cons.mp hdisj.2.1
    have hmq := List.nodup_append.mp hrest.2
    have hmem : ∀ d ∈ m, (d ∉ pre ++ a :: (mid ++ [b]) ↔ d ∉ mid) := by
      intro d hd
      have hdp : d ∉ pre := fun hdp => hdisj.2.2 d (hpre.subset hdp) d
        (List.mem_cons_of_mem _ (List.mem_append_left _ hd)) rfl
      have hda : d ≠ a := fun hda => hrest.1 (hda ▸ List.mem_append_left _ hd)
      have hdb : d ≠ b := fun hdb => hmq.2.2 d hd b List.mem_cons_self hdb
      simp [hdp, hda, hdb]
    have hfilter : (m.filter fun d => decide (d ∉ pre ++ a :: (mid ++ [b]))) =
        m.filter fun d => decide (d ∉ mid) :=
      List.filter_congr fun d hd => decide_eq_decide.mpr (hmem d hd)
    have hcount := length_filter_notMem_add hmid hmq.1
    have hassoc : p ++ a :: (m ++ b :: q) = (p ++ a :: m) ++ b :: q := by simp
    have hfront : (p ++ a :: m).length = p.length + (m.length + 1) := List.length_append
    have ha := idxOf_append_cons hl
    have hb := idxOf_append_cons (hassoc ▸ hl)
    rw [← hassoc] at hb
    rw [hlast, missingBetween_eq hl, hfilter, ha, hb, List.length_append, List.length_singleton]
    omega

/-! ## Subsequences given by their positions -/

omit [BEq α] [LawfulBEq α] in
/-- The elements at the positions that are kept. -/
def kept (keep : Nat → Bool) (l : List α) : List α :=
  (l.zipIdx.filter fun p => keep p.2).map Prod.fst

omit [BEq α] [LawfulBEq α] in
theorem kept_concat (keep : Nat → Bool) (l : List α) (x : α) :
    kept keep (l ++ [x]) = kept keep l ++ if keep l.length then [x] else [] := by
  unfold kept
  rw [List.zipIdx_append, List.filter_append, List.map_append, Nat.zero_add, List.zipIdx_singleton]
  congr 1
  split
  · next h => simp [h]
  · next h => simp [h]

omit [BEq α] [LawfulBEq α] in
theorem kept_sublist (keep : Nat → Bool) (l : List α) : (kept keep l).Sublist l := by
  have h := (List.filter_sublist (l := l.zipIdx) (p := fun p => keep p.2)).map Prod.fst
  rwa [List.zipIdx_map_fst] at h

omit [BEq α] [LawfulBEq α] in
/-- Where no element is there twice, those kept are told by their positions. -/
theorem getElem_mem_kept_iff {l : List α} (hl : l.Nodup) (keep : Nat → Bool) {i : Nat}
    (hi : i < l.length) : l[i] ∈ kept keep l ↔ keep i = true := by
  constructor
  · intro h
    obtain ⟨⟨x, j⟩, hp, hx⟩ := List.mem_map.mp h
    obtain ⟨hmem, hkeep⟩ := List.mem_filter.mp hp
    have hj := List.mk_mem_zipIdx_iff_getElem?.mp hmem
    obtain ⟨hlt, hget⟩ := List.getElem?_eq_some_iff.mp hj
    have hx : x = l[i] := hx
    have hij : j = i := (hl.getElem_inj_iff).mp (hget.trans hx)
    rw [← hij]
    exact hkeep
  · intro h
    refine List.mem_map.mpr ⟨(l[i], i), List.mem_filter.mpr ⟨?_, h⟩, rfl⟩
    exact List.mk_mem_zipIdx_iff_getElem?.mpr (List.getElem?_eq_getElem hi)

/-- What is missing between two elements, by position. -/
theorem missingBetween_kept {l : List α} (hl : l.Nodup) (keep : Nat → Bool) (a b : α) :
    missingBetween l (kept keep l) a b =
      (List.range l.length).countP fun i => !keep i && decide (l.idxOf a < i ∧ i < l.idxOf b) := by
  unfold missingBetween
  rw [← List.countP_eq_length_filter]
  conv_lhs => rw [← List.map_get_finRange l]
  rw [← List.map_coe_finRange_eq_range, List.countP_map, List.countP_map]
  refine List.countP_congr fun i _ => ?_
  have hpos : l.idxOf l[i.val] = i.val := hl.idxOf_getElem i.val i.isLt
  have hkept := getElem_mem_kept_iff hl keep i.isLt
  simp [hpos, hkept]

end Lib
