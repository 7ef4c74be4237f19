/-
  File:      OddsEngine/Engine/UdpGaps.lean
  Subject:   What the loss counters say about a feed that comes in any order
             (engine/UdpSource.hpp).

  The receiver keeps the number it expects next and two counters: a gap is counted as lost when it
  opens, and a datagram that fills one as reordered. Over distinct numbers the difference of the
  counters is what is still missing:

  * `Gaps.step` -- one number, heard for the first time, keeps the account;
  * `gaps_after` -- so does every list of distinct numbers behind the announce;
  * `lost_sub_reordered` -- hence after each datagram, and wherever a run of `next` has got to.
-/
import Mathlib.Data.Finset.Card
import Mathlib.Data.List.Fold
import Mathlib.Order.Interval.Finset.Nat
import OddsEngine.Engine.UdpCounters

namespace OddsEngine.UdpSource

open Lib

/-! ## 1. The account -/

/-- The account of a source that joined at number `a` and has heard `qs` since: `early` of them
    moved the expected number on, the others came late. -/
structure Gaps (a : UInt64) (qs : List UInt64) (t : Tally) (early : Nat) : Prop where
  expected : t.expectedSeq.toNat = (qs.map UInt64.toNat).foldl max a.toNat + 1
  lost : t.lost.toNat + early + a.toNat + 1 = t.expectedSeq.toNat
  reordered : t.reordered.toNat + early = qs.length

/-- The numbers a source that joined at `a` may hear, each once. -/
structure Fresh (a : UInt64) (qs : List UInt64) : Prop where
  nodup : qs.Nodup
  above : ∀ q ∈ qs, a < q
  below : ∀ q ∈ qs, q.toNat < 2 ^ 64 - 1

theorem Fresh.of_append {a : UInt64} {qs qs' : List UInt64} (h : Fresh a (qs ++ qs')) :
    Fresh a qs where
  nodup := (List.nodup_append.mp h.nodup).1
  above q hq := h.above q (List.mem_append_left qs' hq)
  below q hq := h.below q (List.mem_append_left qs' hq)

/-- No number heard is beyond the largest. -/
theorem toNat_le_largest (a : UInt64) {qs : List UInt64} {q : UInt64} (hq : q ∈ qs) :
    q.toNat ≤ (qs.map UInt64.toNat).foldl max a.toNat := by
  rw [List.foldl_eq_foldr]
  exact List.le_max_of_le' _ (List.mem_map_of_mem hq) le_rfl

/-- The numbers heard, as a set: as many as were heard, all above `a`. -/
def heardSet (qs : List UInt64) : Finset Nat := (qs.map UInt64.toNat).toFinset

theorem card_heardSet {qs : List UInt64} (h : qs.Nodup) : (heardSet qs).card = qs.length := by
  unfold heardSet
  rw [List.toFinset_card_of_nodup (h.map fun _ _ => UInt64.toNat_inj.mp), List.length_map]

theorem heardSet_subset {a : UInt64} {qs : List UInt64} (h : Fresh a qs) {e : Nat}
    (he : ∀ q ∈ qs, q.toNat < e) : heardSet qs ⊆ Finset.Ioo a.toNat e := by
  intro n hn
  obtain ⟨q, hq, rfl⟩ := List.mem_map.mp (List.mem_toFinset.mp hn)
  exact Finset.mem_Ioo.mpr ⟨UInt64.lt_iff_toNat_lt.mp (h.above q hq), he q hq⟩

/-- Distinct numbers between `a` and `e` are no more than there are. -/
theorem length_le_of_fresh {a : UInt64} {qs : List UInt64} (h : Fresh a qs) {e : Nat}
    (he : ∀ q ∈ qs, q.toNat < e) : qs.length ≤ e - a.toNat - 1 := by
  have hcard := Finset.card_le_card (heardSet_subset h he)
  rw [card_heardSet h.nodup, Nat.card_Ioo] at hcard
  exact hcard

/-- **One number more** keeps the account: a gap opens, closes by one, or there is none. -/
theorem Gaps.step {a : UInt64} {qs : List UInt64} {q : UInt64} {t : Tally} {early : Nat}
    (h : Gaps a qs t early) (hfresh : Fresh a (qs ++ [q])) :
    ∃ early', Gaps a (qs ++ [q]) (t.count q) early' := by
  have hq : q ∈ qs ++ [q] := by simp
  have hbelow := hfresh.below q hq
  have hsucc := toNat_succ_of_lt hbelow
  have hlargest : ((qs ++ [q]).map UInt64.toNat).foldl max a.toNat =
      max ((qs.map UInt64.toNat).foldl max a.toNat) q.toNat := by simp
  have hlength : (qs ++ [q]).length = qs.length + 1 := by simp
  have hexpected := h.expected
  have hlost := h.lost
  have hreordered := h.reordered
  unfold Tally.count
  split
  · -- a gap opens
    next hgap =>
    have hnat := UInt64.lt_iff_toNat_lt.mp hgap
    have hdiff : (q - t.expectedSeq).toNat = q.toNat - t.expectedSeq.toNat :=
      UInt64.toNat_sub_of_le _ _ (UInt64.le_iff_toNat_le.mpr hnat.le)
    have hsum : (t.lost + (q - t.expectedSeq)).toNat =
        t.lost.toNat + (q.toNat - t.expectedSeq.toNat) := by
      rw [UInt64.toNat_add, hdiff]
      omega
    exact ⟨early + 1, by dsimp only; omega, by dsimp only; omega, by dsimp only; omega⟩
  · next hle =>
    have hnat := UInt64.le_iff_toNat_le.mp (not_lt.mp hle)
    split
    · -- a late one: the gap it was counted in closes by one
      next hlate =>
      have hlt := UInt64.lt_iff_toNat_lt.mp hlate
      have hmany := length_le_of_fresh hfresh (e := 2 ^ 64 - 1) hfresh.below
      have hone : (t.reordered + 1).toNat = t.reordered.toNat + 1 := toNat_succ_of_lt (by omega)
      exact ⟨early, by dsimp only; omega, hlost, by dsimp only; omega⟩
    · -- the one expected
      next hge =>
      have heq : t.expectedSeq = q := le_antisymm
        (UInt64.le_iff_toNat_le.mpr (UInt64.le_iff_toNat_le.mp (not_lt.mp hge))) (not_lt.mp hle)
      rw [heq] at hexpected hlost ⊢
      exact ⟨early + 1, by dsimp only; omega, by dsimp only; omega, by dsimp only; omega⟩

/-- **Every list of fresh numbers** keeps it. -/
theorem gaps_after {a : UInt64} {t : Tally} (hstart : Gaps a [] t 0) (qs : List UInt64)
    (h : Fresh a qs) : ∃ early, Gaps a qs (t.after qs) early := by
  induction qs using List.reverseRecOn with
  | nil => exact ⟨0, hstart⟩
  | append_singleton qs q ih =>
    obtain ⟨early, hgaps⟩ := ih h.of_append
    rw [Tally.after_append]
    exact hgaps.step h

/-- What the account says: the difference of the counters is what is missing. -/
structure Accounted (a : UInt64) (qs : List UInt64) (s : UdpSource) : Prop where
  expected : s.expectedSeq.toNat = (qs.map UInt64.toNat).foldl max a.toNat + 1
  reordered_le : s.reordered ≤ s.lost
  missing : s.lost.toNat - s.reordered.toNat =
    ((Finset.Ioo a.toNat s.expectedSeq.toNat).filter fun n => n ∉ qs.map UInt64.toNat).card

theorem Gaps.accounted {a : UInt64} {qs : List UInt64} {s : UdpSource} {early : Nat}
    (h : Gaps a qs s.tally early) (hfresh : Fresh a qs) : Accounted a qs s := by
  have hexpected : s.expectedSeq.toNat = (qs.map UInt64.toNat).foldl max a.toNat + 1 := h.expected
  have hlost : s.lost.toNat + early + a.toNat + 1 = s.expectedSeq.toNat := h.lost
  have hreordered : s.reordered.toNat + early = qs.length := h.reordered
  have hbelow : ∀ q ∈ qs, q.toNat < s.expectedSeq.toNat := fun q hq => by
    have := toNat_le_largest a hq
    omega
  have hlength := length_le_of_fresh hfresh hbelow
  have hmissing : ((Finset.Ioo a.toNat s.expectedSeq.toNat).filter
      fun n => n ∉ qs.map UInt64.toNat) = Finset.Ioo a.toNat s.expectedSeq.toNat \ heardSet qs := by
    ext n
    simp [heardSet]
  refine ⟨hexpected, UInt64.le_iff_toNat_le.mpr (by omega), ?_⟩
  rw [hmissing, Finset.card_sdiff_of_subset (heardSet_subset hfresh hbelow), Nat.card_Ioo,
    card_heardSet hfresh.nodup]
  omega

/-! ## 2. Joining, and reading on -/

/-- The number expected stays in reach of the numbers heard. -/
theorem expectedSeq_after_le {a : UInt64} (ha : a.toNat < 2 ^ 64 - 1) {qs : List UInt64}
    (h : ∀ q ∈ qs, q ≤ a) {t : Tally} (ht : t.expectedSeq.toNat ≤ a.toNat + 1) :
    (t.after qs).expectedSeq.toNat ≤ a.toNat + 1 := by
  induction qs generalizing t with
  | nil => exact ht
  | cons q qs ih =>
    refine @ih (fun q' hq' => h q' (List.mem_cons_of_mem q hq')) (t.count q) ?_
    have hq := UInt64.le_iff_toNat_le.mp (h q List.mem_cons_self)
    have hsucc : (q + 1).toNat = q.toNat + 1 := toNat_succ_of_lt (by omega)
    rw [expectedSeq_count]
    unfold expect
    split
    · exact ht
    · omega

/-- A source that joins at the largest number heard starts with nothing missing. -/
theorem gaps_joined {a : UInt64} (ha : a.toNat < 2 ^ 64 - 1) {qs : List UInt64}
    (h : ∀ q ∈ qs, q ≤ a) {r : AnnounceRecord} {s : UdpSource}
    (hjoined : JoinedAt r {} (qs ++ [a]) s) : Gaps a [] s.tally 0 := by
  have hle := expectedSeq_after_le ha h (t := ({} : UdpSource).tally) (Nat.zero_le _)
  have hsucc := toNat_succ_of_lt ha
  have hexpected : s.tally.expectedSeq.toNat = a.toNat + 1 := by
    rw [hjoined.tally, Tally.after_append]
    show (Tally.count _ a).expectedSeq.toNat = _
    rw [expectedSeq_count]
    unfold expect
    split
    · next hlt =>
      have hnat := UInt64.lt_iff_toNat_lt.mp hlt
      omega
    · exact hsucc
  have hlost : s.tally.lost.toNat = 0 := by
    rw [hjoined.tally]
    rfl
  have hreordered : s.tally.reordered.toNat = 0 := by
    rw [hjoined.tally]
    rfl
  exact ⟨hexpected, by omega, hreordered⟩

/-- The source after `read_datagram` of one datagram after the other. -/
def readAll (s : UdpSource) (ds : List Datagram) : UdpSource :=
  ds.foldl (fun s d => (s.readDatagram d).1) s

theorem tally_readDatagram (s : UdpSource) (d : Datagram) :
    (s.readDatagram d).1.tally = s.tally.after (seqs [d]) := by
  rw [readDatagram_hear]
  cases hd : hear d with
  | unusable =>
    have hno : seqs [d] = [] := by simp [seqs, hd, Heard.seq?]
    rw [hno]
    rfl
  | data seq =>
    have hseq : (hear d).seq? = some seq := by rw [hd]; rfl
    rw [seqs_singleton hseq]
    exact tally_accepted hseq s
  | announce seq r =>
    have hseq : (hear d).seq? = some seq := by rw [hd]; rfl
    rw [seqs_singleton hseq]
    exact tally_accepted hseq s

theorem tally_readAll (ds : List Datagram) (s : UdpSource) :
    (s.readAll ds).tally = s.tally.after (seqs ds) := by
  induction ds generalizing s with
  | nil => rfl
  | cons d ds ih =>
    have hsplit : seqs (d :: ds) = seqs [d] ++ seqs ds := seqs_append [d] ds
    show ((s.readDatagram d).1.readAll ds).tally = _
    rw [ih, tally_readDatagram, hsplit, Tally.after_append]

/-- What one call has read of the inbox is in its counters. -/
theorem next_tally {s s' : UdpSource} {inbox inbox' : List Datagram} {r : Option OddsUpdate}
    (h : next (s, inbox) = .ok (r, s', inbox')) :
    ∃ consumed, inbox = consumed ++ inbox' ∧ s'.tally = s.tally.after (seqs consumed) := by
  by_cases hmore : s.cursor < s.inBuffer
  · rw [next_eq, if_pos hmore] at h
    cases h
    exact ⟨[], rfl, rfl⟩
  · induction inbox generalizing s with
    | nil =>
      rw [next_eq, if_neg hmore] at h
      cases h
      exact ⟨[], rfl, rfl⟩
    | cons d inbox ih =>
      by_cases hd : Reconfigures s.header d
      · rw [(next_reconfigures hmore hd inbox).1] at h
        cases h
      · obtain ⟨s1, hpasses⟩ := next_datagram hmore hd
        have htally1 := hpasses.tally
        rw [hpasses.next] at h
        by_cases hmore1 : s1.cursor < s1.inBuffer
        · rw [next_eq, if_pos hmore1] at h
          cases h
          exact ⟨[d], rfl, htally1⟩
        · obtain ⟨consumed, hsplit, htally⟩ := ih h hmore1
          refine ⟨d :: consumed, by rw [hsplit, List.cons_append], ?_⟩
          rw [htally, htally1, ← Tally.after_append, ← seqs_append]
          rfl

/-- What a run has read so far is in its counters. -/
theorem reads_tally {st st' : UdpSource × List Datagram} {us : List OddsUpdate}
    (h : Reads next st us st') :
    ∃ consumed, st.2 = consumed ++ st'.2 ∧ st'.1.tally = st.1.tally.after (seqs consumed) := by
  induction h with
  | refl => exact ⟨[], rfl, rfl⟩
  | more hnext _ ih =>
    obtain ⟨first, hfirst, htally⟩ := next_tally hnext
    obtain ⟨rest, hrest, htally'⟩ := ih
    refine ⟨first ++ rest, by rw [hfirst, hrest, List.append_assoc], ?_⟩
    rw [htally', htally, ← Tally.after_append, ← seqs_append]

theorem Accounted.congr {a : UInt64} {qs : List UInt64} {s s' : UdpSource}
    (h : Accounted a qs s) (htally : s'.tally = s.tally) : Accounted a qs s' := by
  obtain ⟨hexpected, hlost, hreordered⟩ := Tally.mk.inj htally
  exact ⟨hexpected ▸ h.expected, by rw [hlost, hreordered]; exact h.reordered_le,
    by rw [hlost, hreordered, hexpected]; exact h.missing⟩

/-- **Lost less reordered is what is missing**: behind an announce of number `a`, no larger one
    heard before it, and as long as the numbers that come in are distinct and between `a` and the
    largest there is, the account holds after each datagram, and wherever a run of `next` has got
    to. Datagrams that cannot be used have no number. -/
theorem lost_sub_reordered {pre rest : List Datagram} {d : Datagram} {a : UInt64}
    {r : AnnounceRecord} {s : UdpSource} (hstart : start (pre ++ d :: rest) = .ok (s, rest))
    (hd : hear d = .announce a r) (hlargest : ∀ q ∈ seqs pre, q ≤ a)
    (hnodup : (seqs rest).Nodup) (hrange : ∀ q ∈ seqs rest, a < q ∧ q.toNat < 2 ^ 64 - 1) :
    (∀ before after, rest = before ++ after → seqs before ≠ [] →
      Accounted a (seqs before) (s.readAll before)) ∧
    ∀ us t after, Reads next (s, rest) us (t, after) → ∃ before, rest = before ++ after ∧
      (seqs before ≠ [] → Accounted a (seqs before) t) := by
  have haccounted : ∀ before after, rest = before ++ after → seqs before ≠ [] →
      Accounted a (seqs before) (s.readAll before) := by
    intro before after hsplit hne
    rw [hsplit, seqs_append] at hnodup hrange
    have hfresh : Fresh a (seqs before) := @Fresh.of_append a (seqs before) (seqs after)
      ⟨hnodup, fun q hq => (hrange q hq).1, fun q hq => (hrange q hq).2⟩
    obtain ⟨q, hq⟩ := List.exists_mem_of_ne_nil _ hne
    have habove := UInt64.lt_iff_toNat_lt.mp (hfresh.above q hq)
    have ha : a.toNat < 2 ^ 64 - 1 := habove.trans (hfresh.below q hq)
    obtain ⟨pre', d', a', r', hinbox, -, hd', -, hjoined⟩ := start_inv hstart
    obtain ⟨rfl, hcons⟩ := List.append_inj' hinbox rfl
    cases hcons
    rw [hd] at hd'
    cases hd'
    have hseq : (hear d).seq? = some a := by rw [hd]; rfl
    rw [seqs_append, seqs_singleton hseq] at hjoined
    obtain ⟨early, hgaps⟩ := gaps_after (gaps_joined ha hlargest hjoined) _ hfresh
    rw [← tally_readAll] at hgaps
    exact hgaps.accounted hfresh
  refine ⟨haccounted, fun us t after hreads => ?_⟩
  obtain ⟨before, hsplit, htally⟩ := reads_tally hreads
  refine ⟨before, hsplit, fun hne => (haccounted before after hsplit hne).congr ?_⟩
  rw [tally_readAll]
  exact htally

/-- Announce 0, then number 2, then number 1. -/
theorem lost_sub_reordered_swapped :
    ∃ s, start ((Packet.announce 0).encode smallAnnounce :: packetsOf ([2, 1].map quotePacket)) =
        .ok (s, packetsOf ([2, 1].map quotePacket)) ∧
      Accounted 0 [2, 1] (s.readAll (packetsOf ([2, 1].map quotePacket))) := by
  have hseqs : seqs (packetsOf ([2, 1].map quotePacket)) = [2, 1] := seqs_encode _ _
  obtain ⟨s, hstart, -⟩ := (@start_announce [] _ _ _ (fun x hx => absurd hx List.not_mem_nil)
    hear_smallAnnounce (packetsOf ([2, 1].map quotePacket))).1 admissible_smallAnnounce
  have haccounted := (lost_sub_reordered hstart hear_smallAnnounce
    (fun q hq => absurd hq List.not_mem_nil) (by rw [hseqs]; decide)
    (by rw [hseqs]; simp)).1 (packetsOf ([2, 1].map quotePacket)) [] (List.append_nil _).symm
    (by rw [hseqs]; decide)
  rw [hseqs] at haccounted
  exact ⟨s, hstart, haccounted⟩

end OddsEngine.UdpSource
