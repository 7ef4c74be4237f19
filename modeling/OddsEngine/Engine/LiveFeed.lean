/-
  File:      OddsEngine/Engine/LiveFeed.lean
  Subject:   What a receiver makes of a feed that arrives in order and with gaps
             (engine/UdpSource.hpp at the other end of sim/UdpSink.hpp).

  A feed numbers its packets, so that no two of its datagrams are equal and each tells its own
  position (`IsFeed.idxOf_encode`); numbers that only go up leave the receiver's `lost` at the sum
  of the gaps (`foldl_count`). Together they are the receiver's account of any part of the feed
  (`reception_of_sublist`), and with nothing lost the receiver and the reader of the session file
  hand out the same records (`received_as_written`).
-/
import Mathlib.Data.List.Nodup
import OddsEngine.Engine.SessionReader
import OddsEngine.Engine.UdpSource
import OddsEngine.Lib.Missing
import OddsEngine.Lib.Words
import OddsEngine.Sim.UdpSink

namespace OddsEngine

open Lib

theorem admissible_announceRecord (seed : UInt64) {markets books : UInt32} (hm : markets ≠ 0)
    (hb : books ≠ 0) : UdpSource.Admissible (announceRecord seed markets books) :=
  ⟨rfl, hm, hb⟩

theorem no_packet_before : ∀ p ∈ ([] : List Packet), p.type = .data :=
  fun _ hp => absurd hp List.not_mem_nil

/-! ## 1. The datagrams of a feed -/

namespace IsFeed

variable {pkts : List Packet}

theorem seq_getElem (h : IsFeed pkts) {i : Nat} (hi : i < pkts.length) :
    pkts[i].seq = i.toUInt64 := by
  have hget : (pkts.map Packet.seq)[i]? = some pkts[i].seq := by
    rw [List.getElem?_map, List.getElem?_eq_getElem hi]
    rfl
  rw [h.seqs, List.getElem?_map, List.getElem?_range hi] at hget
  exact (Option.some.inj hget).symm

/-- The packet at position `i` has the number `i`, as long as the numbers last. -/
theorem toNat_seq (h : IsFeed pkts) (hlen : pkts.length ≤ 2 ^ 64) {i : Nat}
    (hi : i < pkts.length) : pkts[i].seq.toNat = i := by
  rw [h.seq_getElem hi]
  exact UInt64.toNat_ofNat_of_lt' (lt_of_lt_of_le hi hlen)

/-- The numbers go up. -/
theorem pairwise_seq (h : IsFeed pkts) (hlen : pkts.length ≤ 2 ^ 64) :
    pkts.Pairwise fun p q => p.seq < q.seq := by
  rw [List.pairwise_iff_getElem]
  intro i j hi hj hij
  rw [UInt64.lt_iff_toNat_lt, h.toNat_seq hlen hi, h.toNat_seq hlen hj]
  exact hij

theorem nodup_encode (h : IsFeed pkts) (hlen : pkts.length ≤ 2 ^ 64) (a : AnnounceRecord) :
    (pkts.map (Packet.encode a)).Nodup := by
  refine List.Pairwise.map _ (fun p q hlt heq => ?_) (h.pairwise_seq hlen)
  have hheader := congrArg UdpDatagramHeader.ofBytes heq
  rw [ofBytes_encode_nil, ofBytes_encode_nil] at hheader
  have hseq : p.seq = q.seq := congrArg UdpDatagramHeader.datagramSeq hheader
  exact absurd hlt (by rw [hseq]; exact lt_irrefl _)

/-- A datagram of the feed tells its position. -/
theorem idxOf_encode (h : IsFeed pkts) (hlen : pkts.length ≤ 2 ^ 64) (a : AnnounceRecord)
    {p : Packet} (hp : p ∈ pkts) :
    (pkts.map (Packet.encode a)).idxOf (p.encode a) = p.seq.toNat := by
  obtain ⟨i, hi, rfl⟩ := List.getElem_of_mem hp
  have hi' : i < (pkts.map (Packet.encode a)).length := by
    rw [List.length_map]
    exact hi
  have hpos := (h.nodup_encode hlen a).idxOf_getElem i hi'
  rw [List.getElem_map] at hpos
  rw [hpos, h.toNat_seq hlen hi]

/-- Before an announce that is the first one heard there are at most 64 data datagrams, where
    nothing after them is missing. -/
theorem length_le_of_suffix (h : IsFeed pkts) (a : AnnounceRecord) {pre post : List Datagram}
    {d : Datagram} (hpre : ∀ e ∈ pre, ¬ IsAnnounce e) (hd : IsAnnounce d)
    (hsuf : (pre ++ d :: post) <:+ pkts.map (Packet.encode a)) : pre.length ≤ 64 := by
  obtain ⟨front, hfront⟩ := hsuf
  obtain ⟨p, rest, rfl, -, hrest⟩ := List.map_eq_append_iff.mp hfront.symm
  obtain ⟨ds, rest', rfl, hds, hrest'⟩ := List.map_eq_append_iff.mp hrest
  obtain ⟨x, q, rfl, hx, -⟩ := List.map_eq_cons_iff.mp hrest'
  rw [← hx, isAnnounce_encode] at hd
  have hdata : ∀ e ∈ ds, e.type = .data := by
    intro e he
    have hno := hpre (e.encode a) (hds ▸ List.mem_map_of_mem he)
    rw [isAnnounce_encode] at hno
    cases e with
    | announce seq => exact absurd rfl hno
    | data seq batch => rfl
  cases x with
  | data seq batch => cases hd
  | announce seq =>
    have hle := h.spaced p ds seq q (by rw [List.append_assoc]) hdata
    rw [← hds, List.length_map]
    exact hle

end IsFeed

/-! ## 2. Counting numbers that go up -/

namespace UdpSource

theorem Tally.count_of_le {t : Tally} {seq : UInt64} (h : t.expectedSeq ≤ seq) :
    t.count seq = ⟨seq + 1, t.lost + (seq - t.expectedSeq), t.reordered⟩ := by
  unfold Tally.count
  by_cases hlt : t.expectedSeq < seq
  · rw [if_pos hlt]
  · have heq : t.expectedSeq = seq := le_antisymm h (not_lt.mp hlt)
    rw [if_neg hlt, if_neg (by rw [heq]; exact lt_irrefl _), heq, UInt64.sub_self,
      UInt64.add_zero]

theorem succ_le_of_lt {a b : UInt64} (h : a < b) : a + 1 ≤ b := by
  have hb := b.toNat_lt
  rw [UInt64.lt_iff_toNat_lt] at h
  rw [UInt64.le_iff_toNat_le, UInt64.toNat_add]
  show (a.toNat + 1) % 2 ^ 64 ≤ _
  omega

/-- After the number `b`, numbers that go up add their gaps to `lost`. -/
theorem foldl_count (seqs : List UInt64) {t : Tally} {b : UInt64}
    (hup : (b :: seqs).Pairwise (· < ·)) (ht : t.expectedSeq = b + 1) :
    seqs.foldl Tally.count t =
      ⟨(b :: seqs).getLast (List.cons_ne_nil b seqs) + 1,
        t.lost + ((b :: seqs).getLast (List.cons_ne_nil b seqs) - b - seqs.length.toUInt64),
        t.reordered⟩ := by
  induction seqs generalizing t b with
  | nil =>
    rw [List.foldl_nil, List.getLast_singleton, UInt64.sub_self, ← ht]
    show t = ⟨t.expectedSeq, t.lost + (0 - 0), t.reordered⟩
    rw [UInt64.sub_self, UInt64.add_zero]
  | cons q seqs ih =>
    obtain ⟨hb, hseqs⟩ := List.pairwise_cons.mp hup
    have hle : t.expectedSeq ≤ q := by
      rw [ht]
      exact succ_le_of_lt (hb q List.mem_cons_self)
    have hcount : (q :: seqs).length.toUInt64 = seqs.length.toUInt64 + 1 := by
      rw [List.length_cons]
      exact UInt64.ofNat_add _ _
    rw [List.foldl_cons, Tally.count_of_le hle, ih hseqs rfl, hcount, ht,
      List.getLast_cons (List.cons_ne_nil q seqs)]
    generalize (q :: seqs).getLast (List.cons_ne_nil q seqs) = last
    congr 1
    show t.lost + (q - (b + 1)) + (last - q - _) = t.lost + (last - b - (_ + 1))
    grind

/-- From zero on, the number expected after numbers that go up is the one behind the last. -/
theorem expectedSeq_foldl {seqs : List UInt64} {b : UInt64} {t : Tally}
    (hup : (seqs ++ [b]).Pairwise (· < ·)) (ht : t.expectedSeq = 0) :
    ((seqs ++ [b]).foldl Tally.count t).expectedSeq = b + 1 := by
  have hle : ∀ q : UInt64, t.expectedSeq ≤ q := by
    intro q
    rw [ht, UInt64.le_iff_toNat_le]
    exact Nat.zero_le _
  cases seqs with
  | nil =>
    rw [List.nil_append, List.foldl_cons, List.foldl_nil, Tally.count_of_le (hle b)]
  | cons q seqs =>
    have hrest : ∀ t : Tally, t.expectedSeq = q + 1 →
        ((seqs ++ [b]).foldl Tally.count t).expectedSeq = b + 1 := by
      intro t ht
      rw [foldl_count (seqs ++ [b]) hup ht]
      simp
    rw [List.cons_append, List.foldl_cons, Tally.count_of_le (hle q)]
    exact hrest _ rfl

/-- What packets make of the accounting, by their numbers. -/
theorem foldl_count_seq (pkts : List Packet) (t : Tally) :
    pkts.foldl (fun t p => t.count p.seq) t = (pkts.map Packet.seq).foldl Tally.count t :=
  List.foldl_map.symm

/-- A receiver that joined at the number `seq` expects the next one, and has lost nothing yet. -/
theorem Joined.tally_of_pairwise {a : AnnounceRecord} {s : UdpSource} {pre : List Packet}
    {seq : UInt64} (h : Joined a {} pre (.announce seq) s)
    (hup : (pre.map Packet.seq ++ [seq]).Pairwise (· < ·)) : s.tally = ⟨seq + 1, 0, 0⟩ := by
  have hexpected := @expectedSeq_foldl (pre.map Packet.seq) seq (UdpSource.tally {}) hup rfl
  rw [h.tally, foldl_count_seq, List.map_append, List.map_singleton]
  exact congrArg (fun e => Tally.mk e 0 0) hexpected

theorem le_getLast {b : UInt64} {seqs : List UInt64} (hup : (b :: seqs).Pairwise (· < ·)) :
    b ≤ (b :: seqs).getLast (List.cons_ne_nil b seqs) := by
  rcases List.mem_cons.mp (List.getLast_mem (List.cons_ne_nil b seqs)) with heq | hmem
  · exact heq.ge
  · exact ((List.pairwise_cons.mp hup).1 _ hmem).le

/-- The losses, as a number: where `m` numbers are missing, `lost` comes to `m`. -/
theorem toNat_lost_foldl {seqs : List UInt64} {t : Tally} {b : UInt64} {m : Nat}
    (hup : (b :: seqs).Pairwise (· < ·)) (ht : t.expectedSeq = b + 1) (hlost : t.lost = 0)
    (h : m + seqs.length =
      ((b :: seqs).getLast (List.cons_ne_nil b seqs)).toNat - b.toNat) :
    (seqs.foldl Tally.count t).lost.toNat = m := by
  have hle := le_getLast hup
  rw [foldl_count seqs hup ht, hlost, UInt64.zero_add]
  generalize (b :: seqs).getLast (List.cons_ne_nil b seqs) = last at h hle
  have hlast := last.toNat_lt
  have hn : seqs.length.toUInt64.toNat = seqs.length :=
    UInt64.toNat_ofNat_of_lt' (show seqs.length < 2 ^ 64 by omega)
  have hdiff : (last - b).toNat = last.toNat - b.toNat := UInt64.toNat_sub_of_le _ _ hle
  have hsub : seqs.length.toUInt64 ≤ last - b := by
    rw [UInt64.le_iff_toNat_le, hn, hdiff]
    omega
  rw [UInt64.toNat_sub_of_le _ _ hsub, hn, hdiff]
  omega

end UdpSource

/-! ## 3. The receiver's account -/

/-- What a fresh receiver makes of `heard`, a part of the datagrams `sent` that has the announce
    `a` as its first: `s` is the receiver when it joined, `t` when the stream ended. -/
structure Reception (seed : UInt64) (markets books : UInt32) (sent heard : List Datagram)
    (pre : List Datagram) (a : Datagram) (post : List Datagram) (s t : UdpSource) : Prop where
  split : heard = pre ++ a :: post
  announce : IsAnnounce a
  first : ∀ d ∈ pre, ¬ IsAnnounce d
  start : UdpSource.start heard = .ok (s, post)
  seed : s.header.seed = seed
  markets : s.header.markets = markets
  books : s.header.books = books
  /-- The header stays what it was. -/
  header : t.header = s.header
  delivers : Delivers UdpSource.next (s, post) (post.flatMap batchOf) (t, [])
  malformed : t.malformed = 0
  preAnnounce : heard <:+ sent → t.preAnnounce.toNat ≤ 64
  /-- As long as each datagram has a number of its own. -/
  reordered : sent.length ≤ 2 ^ 64 → t.reordered = 0
  lost : sent.length ≤ 2 ^ 64 →
    ∃ last, heard.getLast? = some last ∧ t.lost.toNat = missingBetween sent heard a last

/-- A part of a feed with an announce in it, taken apart at the first one. -/
theorem exists_first_announce {ps : List Packet} (h : ∃ p ∈ ps, p.type = .announce) :
    ∃ pre seq post, ps = pre ++ .announce seq :: post ∧ ∀ p ∈ pre, p.type = .data := by
  induction ps with
  | nil =>
    obtain ⟨p, hp, _⟩ := h
    cases hp
  | cons q ps ih =>
    cases q with
    | announce seq => exact ⟨[], seq, ps, rfl, fun p hp => absurd hp List.not_mem_nil⟩
    | data seq batch =>
      obtain ⟨p, hp, htype⟩ := h
      have hps : p ∈ ps := by
        rcases List.mem_cons.mp hp with rfl | hps
        · cases htype
        · exact hps
      obtain ⟨pre, seq', post, rfl, hpre⟩ := ih ⟨p, hps, htype⟩
      refine ⟨.data seq batch :: pre, seq', post, rfl, fun e he => ?_⟩
      rcases List.mem_cons.mp he with rfl | he
      · rfl
      · exact hpre e he

theorem getLast_map_cons {α β : Type} (f : α → β) (x : α) (l : List α) :
    (f x :: l.map f).getLast (List.cons_ne_nil _ _) =
      f ((x :: l).getLast (List.cons_ne_nil _ _)) :=
  @List.getLast_map _ _ f (x :: l) (List.cons_ne_nil _ _)

/-- From the announce on, `lost` comes to what is missing between it and the last packet. -/
theorem toNat_lost_of_sublist {pkts pre post : List Packet} {seq : UInt64} (hfeed : IsFeed pkts)
    (hlen : pkts.length ≤ 2 ^ 64) (hsub : (pre ++ .announce seq :: post).Sublist pkts)
    (hup : (seq :: post.map Packet.seq).Pairwise (· < ·)) {t : UdpSource.Tally}
    (ht : t.expectedSeq = seq + 1) (hlost : t.lost = 0) (a : AnnounceRecord) :
    ((post.map Packet.seq).foldl UdpSource.Tally.count t).lost.toNat =
      missingBetween (pkts.map (Packet.encode a))
        ((pre ++ .announce seq :: post).map (Packet.encode a))
        ((Packet.announce seq).encode a)
        (((Packet.announce seq :: post).getLast (List.cons_ne_nil _ _)).encode a) := by
  have hmem : ∀ p ∈ Packet.announce seq :: post, p ∈ pkts := fun p hp =>
    hsub.subset (List.mem_append_right _ hp)
  have hposLast := hfeed.idxOf_encode hlen a
    (hmem _ (List.getLast_mem (List.cons_ne_nil (Packet.announce seq) post)))
  have hposFirst := hfeed.idxOf_encode hlen a (hmem _ List.mem_cons_self)
  have hmissing := missingBetween_add (hfeed.nodup_encode hlen a)
    (show (pre.map (Packet.encode a) ++ (Packet.announce seq).encode a ::
        post.map (Packet.encode a)).Sublist (pkts.map (Packet.encode a)) by
      rw [← List.map_cons, ← List.map_append]
      exact hsub.map _)
  rw [getLast_map_cons, ← List.map_cons, ← List.map_append, hposLast, hposFirst,
    List.length_map] at hmissing
  refine UdpSource.toNat_lost_foldl hup ht hlost ?_
  rw [List.length_map]
  have hlastSeq := getLast_map_cons Packet.seq (Packet.announce seq) post
  rw [show (Packet.announce seq).seq = seq from rfl] at hlastSeq
  rw [hlastSeq]
  exact hmissing

/-- The counters of a receiver that joined in time and heard a part of the feed in order. -/
theorem account_of_sublist {pkts pre post : List Packet} {seq : UInt64} (hfeed : IsFeed pkts)
    (hlen : pkts.length ≤ 2 ^ 64) (hsub : (pre ++ .announce seq :: post).Sublist pkts)
    {a : AnnounceRecord} {s t : UdpSource} (hjoined : UdpSource.Joined a {} pre (.announce seq) s)
    (hfollows : UdpSource.Follows s post t) :
    t.reordered = 0 ∧ t.lost.toNat =
      missingBetween (pkts.map (Packet.encode a))
        ((pre ++ .announce seq :: post).map (Packet.encode a))
        ((Packet.announce seq).encode a)
        (((Packet.announce seq :: post).getLast (List.cons_ne_nil _ _)).encode a) := by
  -- the numbers heard go up, those before the announce and those after it
  have hup : ((pre ++ .announce seq :: post).map Packet.seq).Pairwise (· < ·) :=
    List.Pairwise.map _ (fun p q h => h) ((hfeed.pairwise_seq hlen).sublist hsub)
  rw [List.map_append, List.map_cons] at hup
  have hbefore : (pre.map Packet.seq ++ [seq]).Pairwise (· < ·) :=
    hup.sublist ((List.Sublist.refl _).append (List.Sublist.cons_cons _ (List.nil_sublist _)))
  have hafter : (seq :: post.map Packet.seq).Pairwise (· < ·) :=
    hup.sublist (List.sublist_append_right _ _)
  have hcounted : t.tally = (post.map Packet.seq).foldl UdpSource.Tally.count s.tally :=
    hfollows.tally.trans (UdpSource.foldl_count_seq post s.tally)
  rw [hjoined.tally_of_pairwise hbefore] at hcounted
  constructor
  · have hfold := congrArg UdpSource.Tally.reordered
      (hcounted.trans (UdpSource.foldl_count _ hafter rfl))
    exact hfold
  · have hfold := @toNat_lost_of_sublist _ _ _ _ hfeed hlen hsub hafter ⟨seq + 1, 0, 0⟩ rfl rfl a
    rw [← hcounted] at hfold
    exact hfold

/-- The account of a part of a feed's packets. -/
theorem reception_of_packets (seed : UInt64) {markets books : UInt32} (hm : markets ≠ 0)
    (hb : books ≠ 0) {pkts : List Packet} (hfeed : IsFeed pkts)
    {pre post : List Packet} {seq : UInt64} (hpre : ∀ p ∈ pre, p.type = .data)
    (hsub : (pre ++ .announce seq :: post).Sublist pkts) :
    let enc := Packet.encode (announceRecord seed markets books)
    ∃ s t, Reception seed markets books (pkts.map enc)
      ((pre ++ .announce seq :: post).map enc) (pre.map enc) (enc (.announce seq)) (post.map enc)
      s t := by
  intro enc
  have hadm := admissible_announceRecord seed hm hb
  obtain ⟨s, t, hstart, hdel, hjoined, hfollows⟩ := UdpSource.start_packets hadm hpre seq post
  have hsplit : (pre ++ .announce seq :: post).map enc =
      pre.map enc ++ enc (.announce seq) :: post.map enc := by
    rw [List.map_append, List.map_cons]
  have hno : ∀ d ∈ pre.map enc, ¬ IsAnnounce d := by
    intro d hd
    obtain ⟨p, hp, rfl⟩ := List.mem_map.mp hd
    rw [isAnnounce_encode, hpre p hp]
    exact nofun
  have hann : IsAnnounce (enc (.announce seq)) := (isAnnounce_encode _ _).mpr rfl
  have hcount : (pkts.map enc).length ≤ 2 ^ 64 → _ := fun hlen =>
    account_of_sublist hfeed (by rw [← List.length_map]; exact hlen) hsub hjoined hfollows
  exact ⟨s, t, {
    split := hsplit
    announce := hann
    first := hno
    start := by
      rw [hsplit]
      exact hstart
    seed := by rw [hjoined.header]; rfl
    markets := by rw [hjoined.header]; rfl
    books := by rw [hjoined.header]; rfl
    header := hfollows.header
    delivers := by
      rw [flatMap_batchOf]
      exact hdel
    malformed := hfollows.malformed.trans hjoined.malformed
    preAnnounce := by
      intro hsuf
      rw [hsplit] at hsuf
      have hle := hfeed.length_le_of_suffix _ hno hann hsuf
      rw [List.length_map] at hle
      have hpre64 : pre.length.toUInt64.toNat = pre.length :=
        UInt64.toNat_ofNat_of_lt' (show pre.length < 2 ^ 64 by omega)
      rw [hfollows.preAnnounce, hjoined.preAnnounce]
      show (0 + pre.length.toUInt64).toNat ≤ 64
      rw [UInt64.zero_add, hpre64]
      exact hle
    reordered := fun hlen => (hcount hlen).1
    lost := by
      intro hlen
      refine ⟨_, ?_, (hcount hlen).2⟩
      rw [hsplit, List.getLast?_append, List.getLast?_eq_some_getLast (List.cons_ne_nil _ _),
        getLast_map_cons]
      rfl }⟩

/-- **A part of a feed that arrives in order**, whatever is missing from it: the receiver joins at
    the first announce, hands out the records that come after it, and counts what it missed. -/
theorem reception_of_sublist (seed : UInt64) {markets books : UInt32} (hm : markets ≠ 0)
    (hb : books ≠ 0) (rs : List OddsUpdate) {heard : List Datagram}
    (hsub : heard.Sublist (UdpSink.feed seed markets books rs)) (hann : ∃ d ∈ heard, IsAnnounce d) :
    ∃ pre a post s t, Reception seed markets books (UdpSink.feed seed markets books rs) heard pre a
      post s t := by
  obtain ⟨pkts, hfeed, hisFeed, _⟩ := UdpSink.isFeed_feed seed markets books rs
  rw [hfeed] at hsub ⊢
  obtain ⟨ps, hps, rfl⟩ := List.sublist_map_iff.mp hsub
  have hpacket : ∃ p ∈ ps, p.type = .announce := by
    obtain ⟨d, hd, hdann⟩ := hann
    obtain ⟨p, hp, rfl⟩ := List.mem_map.mp hd
    exact ⟨p, hp, (isAnnounce_encode _ _).mp hdann⟩
  obtain ⟨pre, seq, post, rfl, hpre⟩ := exists_first_announce hpacket
  obtain ⟨s, t, hreception⟩ := reception_of_packets seed hm hb hisFeed hpre hps
  exact ⟨_, _, _, s, t, hreception⟩

/-! ## 4. The feed and the file of one run -/

/-- The receiver of the datagrams `inbox` and the reader of the file at `path` are told the same
    session: the records `rs`, on markets and books of the same number, from the same seed. -/
structure SameSession (inbox : List Datagram) (path : Bytes) (file : List UInt8)
    (rs : List OddsUpdate) (s t : UdpSource) (r r' : SessionReader) : Prop where
  received : ∃ rest, UdpSource.start inbox = .ok (s, rest) ∧
    Delivers UdpSource.next (s, rest) rs (t, [])
  read : SessionReader.start path (some file) = .ok r ∧ Delivers SessionReader.next r rs r'
  seed : s.header.seed = r.header.seed
  markets : s.header.markets = r.header.markets
  books : s.header.books = r.header.books

/-- With nothing lost, the receiver hands out every record of the run. -/
theorem delivers_feed (seed : UInt64) {markets books : UInt32} (hm : markets ≠ 0) (hb : books ≠ 0)
    (rs : List OddsUpdate) :
    ∃ s t rest, UdpSource.start (UdpSink.feed seed markets books rs) = .ok (s, rest) ∧
      Delivers UdpSource.next (s, rest) rs (t, []) ∧
      s.header = UdpSource.headerOf (announceRecord seed markets books) := by
  obtain ⟨pkts, hfeed, ⟨⟨rest, rfl⟩, _, _⟩, hrecords⟩ := UdpSink.isFeed_feed seed markets books rs
  obtain ⟨s, t, hstart, hdel, hjoined, _⟩ := UdpSource.start_packets
    (admissible_announceRecord seed hm hb) no_packet_before 0 rest
  have hrest : rest.flatMap Packet.records = rs := by
    rw [List.flatMap_cons] at hrecords
    exact hrecords
  refine ⟨s, t, _, ?_, by rw [← hrest]; exact hdel, hjoined.header⟩
  rw [hfeed]
  exact hstart

/-- **With nothing lost**, the receiver is told what the reader of the run's file is told. -/
theorem received_as_written (seed : UInt64) {markets books : UInt32} (hm : markets ≠ 0)
    (hb : books ≠ 0) {rs : List OddsUpdate} (hne : rs ≠ []) (hlen : rs.length < 2 ^ 64)
    (path : Bytes) (ticks : UInt64) :
    ∃ s t r r', SameSession (UdpSink.feed seed markets books rs) path
      (FileSink.fileOf (runHeader seed markets books ticks) rs) rs s t r r' := by
  obtain ⟨s, t, rest, hstart, hdel, hheader⟩ := delivers_feed seed hm hb rs
  obtain ⟨r, r', hopen, hread, hfile, _⟩ :=
    @SessionReader.delivers_fileOf path (runHeader seed markets books ticks) ⟨rfl, rfl, rfl⟩ rs hne
      hlen
  refine ⟨s, t, r, r', ⟨rest, hstart, hdel⟩, ⟨hopen, hread⟩, ?_, ?_, ?_⟩
  · rw [hheader, hfile]
    rfl
  · rw [hheader, hfile]
    rfl
  · rw [hheader, hfile]
    rfl

/-- **The feed of a run**: any part of it that arrives in order with an announce in it is received
    as it should be; and all of it is received as the file of the run is read, where the file can
    count its records. -/
theorem feed_received (seed : UInt64) (markets books : UInt32) (hm : markets ≠ 0) (hb : books ≠ 0)
    (rs : List OddsUpdate) :
    (∀ heard : List Datagram, heard.Sublist (UdpSink.feed seed markets books rs) →
      (∃ d ∈ heard, IsAnnounce d) →
      ∃ pre a post s t, Reception seed markets books (UdpSink.feed seed markets books rs) heard
        pre a post s t) ∧
    (rs ≠ [] → rs.length < 2 ^ 64 → ∀ (path : Bytes) (ticks : UInt64),
      ∃ s t r r', SameSession (UdpSink.feed seed markets books rs) path
        (FileSink.fileOf (runHeader seed markets books ticks) rs) rs s t r r') := by
  constructor
  · intro heard hsub hann
    exact reception_of_sublist seed hm hb rs hsub hann
  · intro hne hlen path ticks
    exact received_as_written seed hm hb hne hlen path ticks

/-! ## A short feed, and a very long one -/

/-- Sixteen quotes at time 0: a full batch. -/
def firstBatch : Batch :=
  { records := List.replicate 16 { seqNo := 1, outcomeCount := 2, oddsMilli := fun _ => 1900 }
    nonempty := by decide
    length_le := by decide }

/-- One quote a tick later. -/
def secondBatch : Batch :=
  { records := [{ seqNo := 2, simTimestampNs := 100000000, outcomeCount := 2,
                  oddsMilli := fun _ => 1900 }]
    nonempty := by decide
    length_le := by decide }

/-- A feed of one market and one book: an announce and two data datagrams. -/
def shortFeed : List Datagram := UdpSink.feed 7 1 1 (firstBatch.records ++ secondBatch.records)

theorem shortFeed_eq : shortFeed =
    [Packet.announce 0, .data 1 firstBatch, .data 2 secondBatch].map
      (Packet.encode (announceRecord 7 1 1)) := rfl

theorem announce_mem_shortFeed : (Packet.announce 0).encode (announceRecord 7 1 1) ∈ shortFeed := by
  rw [shortFeed_eq]
  exact List.mem_cons_self

/-- The first data datagram is lost. -/
def secondOnly : List Datagram :=
  [Packet.announce 0, .data 2 secondBatch].map (Packet.encode (announceRecord 7 1 1))

/-- The short feed, with a gap and without. -/
theorem feed_received_shortFeed :
    (∃ pre a post s t, Reception 7 1 1 shortFeed secondOnly pre a post s t) ∧
      ∃ s t r r', SameSession shortFeed (ascii "session.bin")
        (FileSink.fileOf (runHeader 7 1 1 2) (firstBatch.records ++ secondBatch.records))
        (firstBatch.records ++ secondBatch.records) s t r r' := by
  have hboth := feed_received 7 1 1 (by decide) (by decide)
    (firstBatch.records ++ secondBatch.records)
  constructor
  · refine hboth.1 secondOnly ?_
      ⟨_, List.mem_cons_self, (isAnnounce_encode _ _).mpr rfl⟩
    show secondOnly.Sublist shortFeed
    rw [shortFeed_eq]
    exact List.Sublist.map _ (.cons_cons _ (.cons _ (.refl _)))
  · exact hboth.2 (by decide) (by decide) (ascii "session.bin") 2

/-- No data datagram carries more than 16 records. -/
theorem length_records_le (pkts : List Packet) :
    (pkts.flatMap Packet.records).length ≤ 16 * pkts.length := by
  induction pkts with
  | nil => exact le_refl 0
  | cons p pkts ih =>
    have hp : p.records.length ≤ 16 := by
      cases p with
      | announce seq => exact Nat.zero_le _
      | data seq batch => exact batch.length_le
    rw [List.flatMap_cons, List.length_append, List.length_cons]
    omega

/-- Where the numbers start again from 0, a datagram has the number of the first one. -/
theorem IsFeed.exists_seq_zero {pkts : List Packet} (h : IsFeed pkts) {n : Nat}
    (hn : n.toUInt64 = 0) (hpos : 0 < n) (hlt : n < pkts.length) : ∃ p ∈ pkts.tail, p.seq = 0 := by
  refine ⟨pkts[n], ?_, (h.seq_getElem hlt).trans hn⟩
  obtain ⟨rest, rfl⟩ := h.head
  obtain ⟨m, rfl⟩ := Nat.exists_eq_succ_of_ne_zero (Nat.pos_iff_ne_zero.mp hpos)
  exact List.getElem_mem _

/-- A feed of more than 2^64 datagrams: the first one, followed by the one with the same number,
    counts as reordered, though both arrive in order. -/
theorem reordered_of_wrap (seed : UInt64) {markets books : UInt32} (hm : markets ≠ 0)
    (hb : books ≠ 0) {rs : List OddsUpdate} (hlen : 2 ^ 68 ≤ rs.length) :
    ∃ heard : List Datagram, heard.Sublist (UdpSink.feed seed markets books rs) ∧
      (∃ d ∈ heard, IsAnnounce d) ∧
      ∃ s t rest, UdpSource.start heard = .ok (s, rest) ∧
        Delivers UdpSource.next (s, rest) (rest.flatMap batchOf) (t, []) ∧ t.reordered = 1 := by
  obtain ⟨pkts, hfeed, hisFeed, hrecords⟩ := UdpSink.isFeed_feed seed markets books rs
  obtain ⟨rest, hpkts⟩ := hisFeed.head
  have hlong : 2 ^ 64 < pkts.length := by
    have hle := length_records_le rest
    rw [hpkts, List.flatMap_cons] at hrecords
    have hrest : rest.flatMap Packet.records = rs := hrecords
    rw [hrest] at hle
    rw [hpkts, List.length_cons]
    omega
  obtain ⟨p, hp, hseq⟩ := hisFeed.exists_seq_zero (show (2 ^ 64 : Nat).toUInt64 = 0 by decide)
    (by decide) hlong
  rw [hpkts, List.tail_cons] at hp
  obtain ⟨s, t, hstart, hdel, hjoined, hfollows⟩ := UdpSource.start_packets
    (admissible_announceRecord seed hm hb) no_packet_before 0 [p]
  have htally : t.tally = UdpSource.Tally.count ⟨1, 0, 0⟩ p.seq := by
    rw [hfollows.tally, hjoined.tally_of_pairwise (List.pairwise_singleton _ _)]
    rfl
  refine ⟨_, ?_, ?_, s, t, _, hstart, by rw [flatMap_batchOf]; exact hdel, ?_⟩
  · rw [hfeed, hpkts, List.map_nil, List.nil_append, List.map_cons]
    exact List.Sublist.cons_cons _ (List.Sublist.map _ (List.singleton_sublist.mpr hp))
  · exact ⟨_, List.mem_cons_self, (isAnnounce_encode _ _).mpr rfl⟩
  · rw [hseq] at htally
    exact congrArg UdpSource.Tally.reordered htally

/-- 2^68 records: two datagrams that arrive in order count as reordered, and the file of the run
    is not even opened. -/
theorem not_feed_received :
    (∃ heard : List Datagram,
      heard.Sublist (UdpSink.feed 7 1 1 (List.replicate (2 ^ 68) {})) ∧
      (∃ d ∈ heard, IsAnnounce d) ∧
      ∃ s t rest, UdpSource.start heard = .ok (s, rest) ∧
        Delivers UdpSource.next (s, rest) (rest.flatMap batchOf) (t, []) ∧ t.reordered = 1) ∧
    SessionReader.start (ascii "session.bin")
        (some (FileSink.fileOf (runHeader 7 1 1 2) (List.replicate (2 ^ 68) {}))) =
      .error (ascii "record count is zero: session was truncated") := by
  constructor
  · exact reordered_of_wrap 7 (by decide) (by decide) List.length_replicate.ge
  · refine SessionReader.start_fileOf_of_zero _ ⟨rfl, rfl, rfl⟩ ?_
    rw [List.length_replicate]
    decide

end OddsEngine
