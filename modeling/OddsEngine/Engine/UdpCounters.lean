/-
  File:      OddsEngine/Engine/UdpCounters.lean
  Subject:   The loss accounting of a receiver, and what it keeps of the time before it joined
             (engine/UdpSource.hpp).

  When the source joins, its comment says, the sequence baseline is reset: what was missed before
  is not loss. The counters are reset; the number it expects next is not. It stays one more than
  the largest number heard so far, from whatever sender (`expectedSeq_after`), and where it is too
  high, the feed's own datagrams count as reordered.

  * `counters_eq_iff` -- from two baselines, the same numbers leave the same counters exactly if the
    baselines are one, or every number is below both;
  * `sameCounters_iff` -- so the counters a run ends with, in silence or in the error of a feed that
    is reconfigured, depend on what came before the announce unless one of these two is so;
  * `staleBaseline_differs` -- a datagram of an earlier run that is still on its way is enough.
-/
import Mathlib.Data.List.DropRight
import OddsEngine.Engine.RejectedRecords
import OddsEngine.Engine.UdpHearing

namespace OddsEngine.UdpSource

open Lib

/-! ## 1. The number expected next -/

/-- What a sequence number makes of the number expected next. -/
def expect (e seq : UInt64) : UInt64 := if seq < e then e else seq + 1

theorem expectedSeq_count (t : Tally) (seq : UInt64) :
    (t.count seq).expectedSeq = expect t.expectedSeq seq := by
  unfold Tally.count expect
  by_cases hlt : seq < t.expectedSeq
  · rw [if_pos hlt, if_neg (not_lt.mpr hlt.le), if_pos hlt]
  · rw [if_neg hlt]
    split
    · rfl
    · next hgt =>
      have heq : t.expectedSeq = seq := le_antisymm (not_lt.mp hlt) (not_lt.mp hgt)
      rw [heq]

theorem expectedSeq_eq_foldl (t : Tally) (qs : List UInt64) :
    (t.after qs).expectedSeq = qs.foldl expect t.expectedSeq := by
  induction qs generalizing t with
  | nil => rfl
  | cons q qs ih =>
    show ((t.count q).after qs).expectedSeq = _
    rw [ih, expectedSeq_count]
    rfl

/-- One more than the largest of the numbers behind the last 2^64 − 1 (none: 0). -/
def baseline (qs : List UInt64) : Nat :=
  ((qs.rtakeWhile fun q => decide (q ≠ 0xFFFFFFFFFFFFFFFF)).map fun q => q.toNat + 1).foldl max 0

theorem toNat_succ_of_ne {q : UInt64} (h : q ≠ 0xFFFFFFFFFFFFFFFF) :
    (q + 1).toNat = q.toNat + 1 := by
  have hlt := q.toNat_lt
  have hne : q.toNat ≠ 2 ^ 64 - 1 := fun e => h (UInt64.toNat_inj.mp e)
  exact toNat_succ_of_lt (by omega)

/-- **The number expected after `qs` is their baseline.** -/
theorem expectedSeq_after (t : Tally) (h : t.expectedSeq = 0) (qs : List UInt64) :
    (t.after qs).expectedSeq.toNat = baseline qs := by
  induction qs using List.reverseRecOn with
  | nil =>
    show t.expectedSeq.toNat = 0
    rw [h]
    rfl
  | append_singleton qs q ih =>
    rw [Tally.after_append]
    show ((t.after qs).count q).expectedSeq.toNat = _
    rw [expectedSeq_count]
    generalize (t.after qs).expectedSeq = e at ih
    unfold baseline at ih ⊢
    by_cases hq : q = 0xFFFFFFFFFFFFFFFF
    · rw [List.rtakeWhile_concat_neg _ _ _ (by simp [hq])]
      have htop : ¬ q < e := by
        rw [hq, UInt64.lt_iff_toNat_lt]
        have he := e.toNat_lt
        have hmax : (0xFFFFFFFFFFFFFFFF : UInt64).toNat = 2 ^ 64 - 1 := rfl
        omega
      unfold expect
      rw [if_neg htop, hq]
      rfl
    · rw [List.rtakeWhile_concat_pos _ _ _ (by simp [hq]), List.map_append, List.foldl_append, ← ih]
      show (expect e q).toNat = max e.toNat (q.toNat + 1)
      have hsucc := toNat_succ_of_ne hq
      unfold expect
      split
      · next hlt =>
        have hnat := UInt64.lt_iff_toNat_lt.mp hlt
        omega
      · next hge =>
        have hnat := UInt64.le_iff_toNat_le.mp (not_lt.mp hge)
        omega

/-! ## 2. Two baselines, the same numbers -/

/-- What every datagram adds one to, whichever way it is counted. -/
def Tally.balance (t : Tally) : UInt64 := t.expectedSeq - t.lost + t.reordered

theorem balance_count (t : Tally) (seq : UInt64) : (t.count seq).balance = t.balance + 1 := by
  unfold Tally.count Tally.balance
  split
  · dsimp only
    grind
  · split
    · dsimp only
      grind
    · dsimp only
      grind

theorem balance_after (t : Tally) (qs : List UInt64) :
    (t.after qs).balance = t.balance + qs.length.toUInt64 := by
  induction qs using List.reverseRecOn with
  | nil => exact (UInt64.add_zero _).symm
  | append_singleton qs q ih =>
    rw [Tally.after_append]
    show ((t.after qs).count q).balance = _
    have hlen : (qs ++ [q]).length.toUInt64 = qs.length.toUInt64 + 1 := by
      rw [List.length_append]
      exact UInt64.ofNat_add _ _
    rw [balance_count, ih, hlen, UInt64.add_assoc]

/-- From a lower and a higher baseline the same numbers either meet, or they stay below the higher;
    and if they leave the lower where it was, they are all below it. -/
theorem foldl_expect_cases {e e' : UInt64} (h : e < e') (qs : List UInt64) :
    qs.foldl expect e = qs.foldl expect e' ∨
      (qs.foldl expect e' = e' ∧ e ≤ qs.foldl expect e ∧
        (qs.foldl expect e = e → ∀ q ∈ qs, q < e)) := by
  induction qs generalizing e with
  | nil => exact Or.inr ⟨rfl, le_rfl, fun _ q hq => absurd hq List.not_mem_nil⟩
  | cons q qs ih =>
    rw [List.foldl_cons, List.foldl_cons]
    by_cases hhigh : q < e'
    · have hkeep : expect e' q = e' := if_pos hhigh
      rw [hkeep]
      by_cases hlow : q < e
      · -- late for both
        have hkeep' : expect e q = e := if_pos hlow
        rw [hkeep']
        rcases ih h with hmeet | ⟨hstay, hle, hall⟩
        · exact Or.inl hmeet
        · exact Or.inr ⟨hstay, hle, fun heq => List.forall_mem_cons.mpr ⟨hlow, hall heq⟩⟩
      · -- in time for the lower, late for the higher
        have hmove : expect e q = q + 1 := if_neg hlow
        have hnat := UInt64.lt_iff_toNat_lt.mp hhigh
        have htop := e'.toNat_lt
        have hsucc : (q + 1).toNat = q.toNat + 1 := toNat_succ_of_lt (by omega)
        have hge := UInt64.le_iff_toNat_le.mp (not_lt.mp hlow)
        rw [hmove]
        by_cases hreach : q + 1 = e'
        · rw [hreach]
          exact Or.inl rfl
        · have hne : (q + 1).toNat ≠ e'.toNat := fun heq => hreach (UInt64.toNat_inj.mp heq)
          rcases @ih (q + 1) (UInt64.lt_iff_toNat_lt.mpr (by omega)) with hmeet | ⟨hstay, hle, -⟩
          · exact Or.inl hmeet
          · have hlenat := UInt64.le_iff_toNat_le.mp hle
            refine Or.inr ⟨hstay, UInt64.le_iff_toNat_le.mpr (by omega), fun heq => ?_⟩
            rw [heq] at hlenat
            omega
    · -- beyond both: they meet
      have hlow : ¬ q < e := fun hlt => hhigh (hlt.trans h)
      have hmove : expect e q = q + 1 := if_neg hlow
      have hmove' : expect e' q = q + 1 := if_neg hhigh
      rw [hmove, hmove']
      exact Or.inl rfl

/-- Numbers below the one expected are all reordered. -/
theorem after_of_below {t : Tally} {qs : List UInt64} (h : ∀ q ∈ qs, q < t.expectedSeq) :
    t.after qs = { t with reordered := t.reordered + qs.length.toUInt64 } := by
  induction qs generalizing t with
  | nil =>
    show t = { t with reordered := t.reordered + 0 }
    rw [UInt64.add_zero]
  | cons q qs ih =>
    have hq := h q List.mem_cons_self
    have hcount : t.count q = { t with reordered := t.reordered + 1 } := by
      unfold Tally.count
      rw [if_neg (not_lt.mpr hq.le), if_pos hq]
    have hlen : (q :: qs).length.toUInt64 = 1 + qs.length.toUInt64 := by
      rw [List.length_cons, Nat.add_comm]
      exact UInt64.ofNat_add _ _
    show (t.count q).after qs = _
    rw [hcount, @ih { t with reordered := t.reordered + 1 }
      fun q' hq' => h q' (List.mem_cons_of_mem q hq'), hlen, UInt64.add_assoc]

/-- The counters `lost()` and `reordered()`. -/
def Tally.counters (t : Tally) : UInt64 × UInt64 := (t.lost, t.reordered)

theorem below_of_counters_eq {t t' : Tally} (hcounters : t.counters = t'.counters)
    (hlt : t.expectedSeq < t'.expectedSeq) {qs : List UInt64}
    (h : (t.after qs).counters = (t'.after qs).counters) : ∀ q ∈ qs, q < t.expectedSeq := by
  obtain ⟨hlost, hreordered⟩ := Prod.mk.inj hcounters
  obtain ⟨hlost', hreordered'⟩ := Prod.mk.inj h
  -- equal counters: the distance of the numbers expected has not changed
  have hdistance : (t.after qs).expectedSeq - t.expectedSeq =
      (t'.after qs).expectedSeq - t'.expectedSeq := by
    have hb := balance_after t qs
    have hb' := balance_after t' qs
    unfold Tally.balance at hb hb'
    rw [hlost', hreordered'] at hb
    rw [hlost, hreordered] at hb
    grind
  rw [expectedSeq_eq_foldl, expectedSeq_eq_foldl] at hdistance
  rcases foldl_expect_cases hlt qs with hmeet | ⟨hstay, -, hall⟩
  · rw [hmeet] at hdistance
    have heq : t.expectedSeq = t'.expectedSeq := by grind
    exact absurd heq hlt.ne
  · rw [hstay] at hdistance
    have hback : qs.foldl expect t.expectedSeq = t.expectedSeq := by grind
    exact hall hback

/-- **The same numbers leave the same counters** exactly if the baselines are one, or every number
    is below both. -/
theorem counters_eq_iff {t t' : Tally} (hcounters : t.counters = t'.counters)
    (qs : List UInt64) :
    (t.after qs).counters = (t'.after qs).counters ↔
      t.expectedSeq = t'.expectedSeq ∨ ∀ q ∈ qs, q < t.expectedSeq ∧ q < t'.expectedSeq := by
  constructor
  · intro h
    rcases lt_trichotomy t.expectedSeq t'.expectedSeq with hlt | heq | hgt
    · have hbelow := below_of_counters_eq hcounters hlt h
      exact Or.inr fun q hq => ⟨hbelow q hq, (hbelow q hq).trans hlt⟩
    · exact Or.inl heq
    · have hbelow := below_of_counters_eq hcounters.symm hgt h.symm
      exact Or.inr fun q hq => ⟨(hbelow q hq).trans hgt, hbelow q hq⟩
  · obtain ⟨hlost, hreordered⟩ := Prod.mk.inj hcounters
    rintro (heq | hbelow)
    · have hsame : t = t' := by
        cases t
        cases t'
        rw [Tally.mk.injEq]
        exact ⟨heq, hlost, hreordered⟩
      rw [hsame]
    · rw [after_of_below fun q hq => (hbelow q hq).1, after_of_below fun q hq => (hbelow q hq).2]
      exact Prod.ext hlost (congrArg (· + qs.length.toUInt64) hreordered)

/-! ## 3. Two runs that join at the same announce -/

/-- What a run that joined with the header `h` receives: the datagrams up to the first announce that
    reconfigures the feed, this one included. -/
def upToReconfigured (h : SessionHeader) : List Datagram → List Datagram
  | [] => []
  | d :: inbox => d :: if Reconfigures h d then [] else upToReconfigured h inbox

theorem upToReconfigured_of_clean {h : SessionHeader} {inbox : List Datagram}
    (hclean : ∀ d ∈ inbox, ¬ Reconfigures h d) : upToReconfigured h inbox = inbox := by
  induction inbox with
  | nil => rfl
  | cons d inbox ih =>
    unfold upToReconfigured
    rw [if_neg (hclean d List.mem_cons_self),
      ih fun x hx => hclean x (List.mem_cons_of_mem d hx)]

theorem upToReconfigured_append {h : SessionHeader} {before : List Datagram} {d : Datagram}
    (hbefore : ∀ x ∈ before, ¬ Reconfigures h x) (hd : Reconfigures h d) (after : List Datagram) :
    upToReconfigured h (before ++ d :: after) = before ++ [d] := by
  induction before with
  | nil =>
    show d :: (if Reconfigures h d then [] else upToReconfigured h after) = [d]
    rw [if_pos hd]
  | cons x before ih =>
    show x :: (if Reconfigures h x then [] else upToReconfigured h (before ++ d :: after)) = _
    rw [if_neg (hbefore x List.mem_cons_self),
      ih fun y hy => hbefore y (List.mem_cons_of_mem x hy)]
    rfl

/-- The loop over `next` ends, in silence or in an exception, and leaves the source `t`. -/
def EndsIn (st : UdpSource × List Datagram) (t : UdpSource) : Prop :=
  (∃ us rest, Delivers next st us (t, rest)) ∨ ∃ us e, Throws st us e t

theorem EndsIn.unique {st : UdpSource × List Datagram} {t t' : UdpSource} (h : EndsIn st t)
    (h' : EndsIn st t') : t = t' := by
  rcases h with ⟨us, rest, hdel⟩ | ⟨us, e, hthrows⟩
  · rcases h' with ⟨vs, rest', hdel'⟩ | ⟨vs, e', hthrows'⟩
    · exact congrArg Prod.fst (hdel.unique hdel').2
    · exact absurd hdel (hthrows'.fails.not_delivers us _)
  · rcases h' with ⟨vs, rest', hdel'⟩ | ⟨vs, e', hthrows'⟩
    · exact absurd hdel' (hthrows.fails.not_delivers vs _)
    · obtain ⟨s, inbox, hreads, hfail, rfl⟩ := hthrows
      obtain ⟨s', inbox', hreads', hfail', rfl⟩ := hthrows'
      cases hreads.unique_of_error hfail hreads' hfail'
      rfl

/-- **Every run that joined ends**, with what it received counted. -/
theorem endsIn_inbox (inbox : List Datagram) (s : UdpSource) :
    ∃ t, EndsIn (s, inbox) t ∧
      t.tally = s.tally.after (seqs (upToReconfigured s.header inbox)) := by
  rcases split_at_first (Reconfigures s.header) inbox with
    hclean | ⟨before, d, after, rfl, hbefore, hd⟩
  · obtain ⟨us, t, hdel, -, htally⟩ := delivers_inbox inbox s hclean
    rw [upToReconfigured_of_clean hclean]
    exact ⟨t, Or.inl ⟨us, [], hdel⟩, htally⟩
  · obtain ⟨us, t, hthrows, htally⟩ := throws_inbox before d after s hbefore hd
    rw [upToReconfigured_append hbefore hd]
    exact ⟨t, Or.inr ⟨us, _, hthrows⟩, htally⟩

/-- The counters a run over the inbox ends with: `main` prints them whether it ended in silence or
    in an error. -/
def EndsWith (inbox : List Datagram) (counters : UInt64 × UInt64) : Prop :=
  ∃ s rest t, start inbox = .ok (s, rest) ∧ EndsIn (s, rest) t ∧ t.tally.counters = counters

/-- The two runs end with the same `lost()` and `reordered()`. -/
def SameCounters (inbox inbox' : List Datagram) : Prop :=
  ∃ counters, EndsWith inbox counters ∧ EndsWith inbox' counters

section Join

variable {d : Datagram} {seq : UInt64} {a : AnnounceRecord}

/-- A run that joins at `d` ends with what the numbers it receives after the announce make of the
    baseline it joined with. -/
theorem endsWith_iff (hd : hear d = .announce seq a) (ha : Admissible a) {pre : List Datagram}
    (hpre : ∀ x ∈ pre, (hear x).announce? = none) (post : List Datagram) :
    ∃ t : Tally, t.counters = (0, 0) ∧
      t.expectedSeq.toNat = baseline (seqs pre ++ [seq]) ∧
      ∀ counters, EndsWith (pre ++ d :: post) counters ↔
        (t.after (seqs (upToReconfigured (headerOf a) post))).counters = counters := by
  have hseq : (hear d).seq? = some seq := by rw [hd]; rfl
  obtain ⟨s, hstart, hjoined⟩ := (start_announce hpre hd post).1 ha
  obtain ⟨r, hends, htally⟩ := endsIn_inbox post s
  rw [hjoined.header] at htally
  refine ⟨s.tally, by rw [hjoined.tally]; rfl, ?_, fun counters => ?_⟩
  · rw [hjoined.tally, seqs_append, seqs_singleton hseq]
    exact expectedSeq_after _ rfl _
  · constructor
    · rintro ⟨s', rest', t', hstart', hends', hcounters⟩
      rw [hstart] at hstart'
      cases hstart'
      rw [← hends.unique hends', htally] at hcounters
      exact hcounters
    · intro h
      exact ⟨s, post, r, hstart, hends, by rw [htally]; exact h⟩

/-- **What came before the announce shows in the counters**, unless both pasts leave one baseline,
    or no number that is received behind the announce reaches the lower of the two. -/
theorem sameCounters_iff (hd : hear d = .announce seq a) (ha : Admissible a)
    {pre pre' : List Datagram} (hpre : ∀ x ∈ pre, (hear x).announce? = none)
    (hpre' : ∀ x ∈ pre', (hear x).announce? = none) (post : List Datagram) :
    SameCounters (pre ++ d :: post) (pre' ++ d :: post) ↔
      baseline (seqs pre ++ [seq]) = baseline (seqs pre' ++ [seq]) ∨
        ∀ q ∈ seqs (upToReconfigured (headerOf a) post),
          q.toNat < baseline (seqs pre ++ [seq]) ∧ q.toNat < baseline (seqs pre' ++ [seq]) := by
  obtain ⟨t, ht, hbase, hends⟩ := endsWith_iff hd ha hpre post
  obtain ⟨t', ht', hbase', hends'⟩ := endsWith_iff hd ha hpre' post
  let qs := seqs (upToReconfigured (headerOf a) post)
  have hsame : SameCounters (pre ++ d :: post) (pre' ++ d :: post) ↔
      (t.after qs).counters = (t'.after qs).counters := by
    constructor
    · rintro ⟨counters, hc, hc'⟩
      exact ((hends counters).mp hc).trans ((hends' counters).mp hc').symm
    · exact fun h => ⟨_, (hends _).mpr rfl, (hends' _).mpr h.symm⟩
  have hseqs : (∀ q ∈ qs, q < t.expectedSeq ∧ q < t'.expectedSeq) ↔
      ∀ q ∈ qs, q.toNat < baseline (seqs pre ++ [seq]) ∧
        q.toNat < baseline (seqs pre' ++ [seq]) := by
    rw [← hbase, ← hbase']
    simp only [UInt64.lt_iff_toNat_lt]
  rw [hsame, counters_eq_iff (ht.trans ht'.symm), hseqs, ← UInt64.toNat_inj, hbase, hbase']

end Join

/-! ## 4. A datagram of an earlier run -/

theorem seqs_encode (a : AnnounceRecord) (ps : List Packet) :
    seqs (ps.map (Packet.encode a)) = ps.map Packet.seq := by
  have hseq : ∀ p : Packet, (hear (p.encode a)).seq? = some p.seq := by
    intro p
    rw [hear_encode]
    cases p with
    | announce seq => rfl
    | data seq batch => rfl
  unfold seqs
  rw [List.filterMap_map]
  show ps.filterMap (fun p => (hear (p.encode a)).seq?) = _
  rw [funext hseq, List.filterMap_eq_map']

/-- A session of one market and one book. -/
def smallAnnounce : AnnounceRecord :=
  { seed := 42, tickIntervalNs := kTickIntervalNs, markets := 1, books := 1, recordSize := 64 }

/-- One quote, in the datagram of number `seq`. -/
def quotePacket (seq : UInt64) : Packet :=
  .data seq { records := [evenQuote], nonempty := by simp, length_le := by decide }

def packetsOf (ps : List Packet) : List Datagram := ps.map (Packet.encode smallAnnounce)

theorem admissible_smallAnnounce : Admissible smallAnnounce := ⟨by decide, by decide, by decide⟩

theorem hear_smallAnnounce : hear ((Packet.announce 0).encode smallAnnounce) =
    .announce 0 smallAnnounce := hear_encode smallAnnounce (.announce 0)

theorem quotePackets_other (seqs : List UInt64) :
    ∀ x ∈ packetsOf (seqs.map quotePacket), (hear x).announce? = none := by
  intro x hx
  obtain ⟨p, hp, rfl⟩ := List.mem_map.mp hx
  obtain ⟨seq, -, rfl⟩ := List.mem_map.mp hp
  rw [hear_encode]
  rfl

/-- The announce is followed by number 1, and then by an announce of another seed. -/
def reconfiguredFeed : List Datagram :=
  packetsOf ([1].map quotePacket) ++
    [(Packet.announce 2).encode { smallAnnounce with seed := 43 }]

theorem reconfigures_otherSeed : Reconfigures (headerOf smallAnnounce)
    ((Packet.announce 2).encode { smallAnnounce with seed := 43 }) := by
  refine ⟨{ smallAnnounce with seed := 43 }, ?_, Or.inr (Or.inr (by decide))⟩
  rw [hear_encode]
  rfl

theorem seqs_quotePackets (qs : List UInt64) : seqs (packetsOf (qs.map quotePacket)) = qs := by
  have hmap : qs.map (Packet.seq ∘ quotePacket) = qs := List.map_id _
  unfold packetsOf
  rw [seqs_encode, List.map_map, hmap]

/-- Where the past of a run has left the baseline `e`, its feed of number 1 ends as `e` says,
    reconfigured behind it or not. -/
theorem endsWith_quote {past : List UInt64} {e : UInt64}
    (hbase : baseline (past ++ [0]) = e.toNat) :
    EndsWith (packetsOf (past.map quotePacket) ++
        (Packet.announce 0).encode smallAnnounce :: packetsOf ([1].map quotePacket))
        (Tally.after ⟨e, 0, 0⟩ [1]).counters ∧
      EndsWith (packetsOf (past.map quotePacket) ++
        (Packet.announce 0).encode smallAnnounce :: reconfiguredFeed)
        (Tally.after ⟨e, 0, 0⟩ [1, 2]).counters := by
  have hclean : ∀ x ∈ packetsOf ([1].map quotePacket),
      ¬ Reconfigures (headerOf smallAnnounce) x :=
    fun x hx => not_reconfigures_of_other (quotePackets_other [1] x hx)
  have htally : ∀ {t : Tally}, t.counters = (0, 0) →
      t.expectedSeq.toNat = baseline (seqs (packetsOf (past.map quotePacket)) ++ [0]) →
      t = ⟨e, 0, 0⟩ := by
    intro t hcounters he
    rw [seqs_quotePackets, hbase] at he
    obtain ⟨hlost, hreordered⟩ := Prod.mk.inj hcounters
    cases t
    rw [Tally.mk.injEq]
    exact ⟨UInt64.toNat_inj.mp he, hlost, hreordered⟩
  constructor
  · obtain ⟨t, ht, he, hends⟩ := endsWith_iff hear_smallAnnounce admissible_smallAnnounce
      (quotePackets_other past) (packetsOf ([1].map quotePacket))
    rw [hends, upToReconfigured_of_clean hclean, seqs_quotePackets, htally ht he]
  · obtain ⟨t, ht, he, hends⟩ := endsWith_iff hear_smallAnnounce admissible_smallAnnounce
      (quotePackets_other past) reconfiguredFeed
    have hseq : (hear ((Packet.announce 2).encode { smallAnnounce with seed := 43 })).seq? =
        some 2 := by
      rw [hear_encode]
      rfl
    unfold reconfiguredFeed at hends ⊢
    rw [hends, upToReconfigured_append hclean reconfigures_otherSeed, seqs_append,
      seqs_quotePackets, seqs_singleton hseq, htally ht he]
    rfl

/-- The feed starts at number 0 and loses nothing: the announce, and the one datagram behind it.
    Where number 5 of an earlier run comes in before, that datagram counts as reordered, and so does
    the announce of another seed that ends the run. -/
theorem staleBaseline_differs :
    (EndsWith (packetsOf ([5].map quotePacket) ++
        (Packet.announce 0).encode smallAnnounce :: packetsOf ([1].map quotePacket)) (0, 1) ∧
      EndsWith (packetsOf ([].map quotePacket) ++
        (Packet.announce 0).encode smallAnnounce :: packetsOf ([1].map quotePacket)) (0, 0)) ∧
    (EndsWith (packetsOf ([5].map quotePacket) ++
        (Packet.announce 0).encode smallAnnounce :: reconfiguredFeed) (0, 2) ∧
      EndsWith (packetsOf ([].map quotePacket) ++
        (Packet.announce 0).encode smallAnnounce :: reconfiguredFeed) (0, 0)) := by
  have hstale := @endsWith_quote [5] 6 (by decide)
  have hfresh := @endsWith_quote [] 1 (by decide)
  exact ⟨⟨hstale.1, hfresh.1⟩, ⟨hstale.2, hfresh.2⟩⟩

/-- Those two pasts, by the equivalence: the baselines are 6 and 1, and number 1 is not below 1. -/
theorem sameCounters_iff_staleBaseline :
    SameCounters (packetsOf ([5].map quotePacket) ++
        (Packet.announce 0).encode smallAnnounce :: reconfiguredFeed)
      ([] ++ (Packet.announce 0).encode smallAnnounce :: reconfiguredFeed) ↔
      baseline (seqs (packetsOf ([5].map quotePacket)) ++ [0]) = baseline (seqs [] ++ [0]) ∨
        ∀ q ∈ seqs (upToReconfigured (headerOf smallAnnounce) reconfiguredFeed),
          q.toNat < baseline (seqs (packetsOf ([5].map quotePacket)) ++ [0]) ∧
            q.toNat < baseline (seqs [] ++ [0]) :=
  sameCounters_iff hear_smallAnnounce admissible_smallAnnounce (quotePackets_other [5]) (by simp) _

end OddsEngine.UdpSource
