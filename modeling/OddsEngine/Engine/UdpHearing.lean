/-
  File:      OddsEngine/Engine/UdpHearing.lean
  Subject:   What a receiver makes of any sequence of datagrams (engine/UdpSource.hpp).

  What a datagram says does not depend on who receives it: it is unusable, or a data datagram with
  its sequence number, or an announce (`hear`, `readDatagram_hear`). So a run of the source is told
  by what its datagrams say:

  * `start_announce`, `start_inv` -- the constructor joins at the first announce, if that one is
    admissible;
  * `delivers_inbox`, `throws_inbox` -- after it, `next` goes on until the silence, unless an
    announce names another seed or shape: that one is counted, and ends the run in an error;
  * `reads_consumed` -- and behind whatever it has read there is no such announce.
-/
import OddsEngine.Engine.UdpSource

namespace OddsEngine.UdpSource

open Lib

/-! ## 1. What a datagram says -/

/-- What a datagram says, whoever receives it. -/
inductive Heard where
  | unusable
  | data (seq : UInt64)
  | announce (seq : UInt64) (a : AnnounceRecord)
  deriving DecidableEq

/-- What `recv` takes of a datagram: as much as the buffer holds. -/
def recv (d : Datagram) : List UInt8 := d.take kMaxDatagramBytes

/-- The checks of `read_datagram`, on the datagram alone. -/
def hear (d : Datagram) : Heard :=
  let bs := recv d
  let h := UdpDatagramHeader.ofBytes bs
  let announce := h.type == UdpDatagramType.announce.code
  let want := if announce then UdpDatagramHeader.size + AnnounceRecord.size
    else UdpDatagramHeader.size + h.recordCount.toNat * OddsUpdate.size
  if bs.length < UdpDatagramHeader.size then .unusable
  else if h.magic ≠ kUdpMagic ∨ h.version ≠ kUdpVersion then .unusable
  else if h.recordCount = 0 then .unusable
  else if !announce && decide (h.recordCount.toNat > kRecordsPerDatagram) then .unusable
  else if bs.length ≠ want then .unusable
  else if announce then
    .announce h.datagramSeq (AnnounceRecord.ofBytes (bs.drop UdpDatagramHeader.size))
  else .data h.datagramSeq

/-- The sequence number of a usable datagram. -/
def Heard.seq? : Heard → Option UInt64
  | .unusable => none
  | .data seq => some seq
  | .announce seq _ => some seq

def Heard.announce? : Heard → Option AnnounceRecord
  | .announce _ a => some a
  | _ => none

/-- The source after an unusable datagram. -/
def refused (s : UdpSource) (d : Datagram) : UdpSource :=
  { s with buf := recv d ++ s.buf.drop (recv d).length, malformed := s.malformed + 1 }

/-- The source after a usable one. -/
def accepted (s : UdpSource) (d : Datagram) : UdpSource :=
  let h := UdpDatagramHeader.ofBytes (recv d)
  let t := s.tally.count h.datagramSeq
  { s with
    buf := recv d ++ s.buf.drop (recv d).length
    expectedSeq := t.expectedSeq
    lost := t.lost
    reordered := t.reordered
    datagrams := s.datagrams + 1
    lastCount := h.recordCount }

theorem seq_of_hear {d : Datagram} {seq : UInt64} (h : (hear d).seq? = some seq) :
    (UdpDatagramHeader.ofBytes (recv d)).datagramSeq = seq := by
  unfold hear at h
  dsimp only at h
  split_ifs at h <;> first | exact Option.some.inj h | cases h

theorem tally_accepted {d : Datagram} {seq : UInt64} (h : (hear d).seq? = some seq)
    (s : UdpSource) : (s.accepted d).tally = s.tally.count seq := by
  show s.tally.count _ = _
  rw [seq_of_hear h]

/-- **What a source makes of a datagram is what the datagram says.** -/
theorem readDatagram_hear (s : UdpSource) (d : Datagram) :
    readDatagram s d =
      match hear d with
      | .unusable => (s.refused d, .unusable)
      | .data _ => (s.accepted d, .data)
      | .announce _ _ => (s.accepted d, .announce) := by
  have hn : min d.length kMaxDatagramBytes = (recv d).length := by
    unfold recv
    rw [List.length_take, Nat.min_comm]
  have htake : d.take (recv d).length = recv d := by
    unfold recv
    rw [List.length_take, Nat.min_comm, ← List.take_take]
    exact List.take_of_length_le (List.length_take_le' _ _)
  unfold readDatagram hear
  rw [hn]
  dsimp only
  rw [htake]
  by_cases hshort : (recv d).length < UdpDatagramHeader.size
  · rw [if_pos hshort, if_pos hshort]
    rfl
  · rw [if_neg hshort, if_neg hshort, UdpDatagramHeader.ofBytes_append (not_lt.mp hshort)]
    rw [account_eq]
    -- the same checks, in the same order, on both sides
    split_ifs <;> rfl

/-- The announce a source copies out of its buffer is the one it received. -/
theorem readAnnouncePayload_accepted {d : Datagram} {seq : UInt64} {a : AnnounceRecord}
    (h : hear d = .announce seq a) (s : UdpSource) : (s.accepted d).readAnnouncePayload = a := by
  unfold hear at h
  dsimp only at h
  split_ifs at h with hshort hmagic hzero hmany hann hlen
  have hlong : AnnounceRecord.size ≤ ((recv d).drop UdpDatagramHeader.size).length := by
    rw [List.length_drop, not_ne_iff.mp hlen]
    exact le_of_eq (Nat.add_sub_cancel_left _ _).symm
  cases h
  show AnnounceRecord.ofBytes ((recv d ++ _).drop UdpDatagramHeader.size) = _
  rw [List.drop_append_of_le_length (not_lt.mp hshort), AnnounceRecord.ofBytes_append hlong]

/-- Every packet of a feed says what it was made of. -/
theorem hear_encode (a : AnnounceRecord) (p : Packet) :
    hear (p.encode a) =
      match p with
      | .announce seq => .announce seq a
      | .data seq _ => .data seq := by
  have hread := readDatagram_hear {} (p.encode a)
  rw [readDatagram_encode] at hread
  have hrecv : recv (p.encode a) = p.encode a :=
    List.take_of_length_le (Packet.length_encode_le a p)
  have hheader : (UdpDatagramHeader.ofBytes (recv (p.encode a))).datagramSeq = p.seq := by
    rw [hrecv, ofBytes_encode_nil]
    rfl
  cases hp : hear (p.encode a) with
  | unusable =>
    rw [hp] at hread
    cases p <;> cases congrArg Prod.snd hread
  | data seq =>
    have hheard : (hear (p.encode a)).seq? = some seq := by rw [hp]; rfl
    have hseq := seq_of_hear hheard
    rw [hp] at hread
    cases p with
    | announce _ => cases congrArg Prod.snd hread
    | data q batch =>
      rw [← hseq, hheader]
      rfl
  | announce seq b =>
    have hheard : (hear (p.encode a)).seq? = some seq := by rw [hp]; rfl
    have hseq := seq_of_hear hheard
    have hpayload := readAnnouncePayload_accepted hp {}
    rw [hp] at hread
    cases p with
    | announce q =>
      have hsame : ({} : UdpSource).received a (.announce q) =
          ({} : UdpSource).accepted ((Packet.announce q).encode a) := congrArg Prod.fst hread
      rw [← hsame, readAnnouncePayload_received] at hpayload
      rw [← hseq, hheader, hpayload]
      rfl
    | data _ _ => cases congrArg Prod.snd hread

/-- The sequence numbers of the usable datagrams, in the order they came. -/
def seqs (inbox : List Datagram) : List UInt64 := inbox.filterMap fun d => (hear d).seq?

/-- The announces among the datagrams. -/
def announcesIn (inbox : List Datagram) : List AnnounceRecord :=
  inbox.filterMap fun d => (hear d).announce?

/-! ## 2. Joining -/

/-- The sequence number a source expects after the numbers `qs`. -/
def Tally.after (t : Tally) (qs : List UInt64) : Tally := qs.foldl Tally.count t

/-- The source that joined at the announce `a`, when it had counted the numbers `qs`. -/
structure JoinedAt (a : AnnounceRecord) (s : UdpSource) (qs : List UInt64) (s' : UdpSource) :
    Prop where
  header : s'.header = headerOf a
  tally : s'.tally = ⟨(s.tally.after qs).expectedSeq, 0, 0⟩
  done : ¬ s'.cursor < s'.inBuffer

theorem seqs_append (l l' : List Datagram) : seqs (l ++ l') = seqs l ++ seqs l' :=
  List.filterMap_append

theorem Tally.after_append (t : Tally) (p q : List UInt64) :
    t.after (p ++ q) = (t.after p).after q := List.foldl_append

/-- What one datagram does to the accounting. -/
theorem seqs_singleton {d : Datagram} {seq : UInt64} (h : (hear d).seq? = some seq) :
    seqs [d] = [seq] := by simp [seqs, h]

/-- A datagram that is no announce is passed over before the source has joined. -/
theorem awaitAnnounce_other {d : Datagram} (h : (hear d).announce? = none) (s : UdpSource) :
    ∃ s', (∀ inbox, awaitAnnounce s (d :: inbox) = awaitAnnounce s' inbox) ∧
      s'.tally = s.tally.after (seqs [d]) := by
  have hread := readDatagram_hear s d
  cases hd : hear d with
  | unusable =>
    rw [hd] at hread
    refine ⟨s.refused d, fun inbox => ?_, ?_⟩
    · conv_lhs => unfold awaitAnnounce
      rw [hread]
    · have hno : seqs [d] = [] := by simp [seqs, hd, Heard.seq?]
      rw [hno]
      rfl
  | data seq =>
    rw [hd] at hread
    have hseq : (hear d).seq? = some seq := by rw [hd]; rfl
    refine ⟨{ s.accepted d with preAnnounce := (s.accepted d).preAnnounce + 1 },
      fun inbox => ?_, ?_⟩
    · conv_lhs => unfold awaitAnnounce
      rw [hread]
    · rw [seqs_singleton hseq]
      exact tally_accepted hseq s
  | announce seq a =>
    rw [hd] at h
    cases h

theorem awaitAnnounce_others (pre : List Datagram)
    (h : ∀ x ∈ pre, (hear x).announce? = none) (s : UdpSource) :
    ∃ s', (∀ inbox, awaitAnnounce s (pre ++ inbox) = awaitAnnounce s' inbox) ∧
      s'.tally = s.tally.after (seqs pre) := by
  induction pre generalizing s with
  | nil => exact ⟨s, fun _ => rfl, rfl⟩
  | cons x pre ih =>
    obtain ⟨s1, hfirst, htally1⟩ := awaitAnnounce_other (h x List.mem_cons_self) s
    obtain ⟨s2, hrest, htally2⟩ := ih (fun y hy => h y (List.mem_cons_of_mem x hy)) s1
    refine ⟨s2, fun inbox => (hfirst _).trans (hrest inbox), ?_⟩
    rw [htally2, htally1, ← Tally.after_append, ← seqs_append]
    rfl

/-- The first announce starts the source, if it is admissible. -/
theorem awaitAnnounce_announce {d : Datagram} {seq : UInt64} {a : AnnounceRecord}
    (h : hear d = .announce seq a) (s : UdpSource) (inbox : List Datagram) :
    (Admissible a → ∃ s', awaitAnnounce s (d :: inbox) = .ok (s', inbox) ∧
        JoinedAt a s [seq] s') ∧
      (¬ Admissible a → ∃ e, awaitAnnounce s (d :: inbox) = .error e) := by
  have hread := readDatagram_hear s d
  rw [h] at hread
  have hpayload := readAnnouncePayload_accepted h s
  have hseq : (hear d).seq? = some seq := by rw [h]; rfl
  have hcount := tally_accepted hseq s
  unfold awaitAnnounce
  rw [hread]
  dsimp only
  rw [hpayload]
  constructor
  · intro ha
    rw [if_neg (fun hne => hne ha.recordSize), if_neg (fun hz => hz.elim ha.markets ha.books)]
    exact ⟨_, rfl, rfl, congrArg (fun t => (⟨t.expectedSeq, 0, 0⟩ : Tally)) hcount,
      Nat.not_lt_zero 0⟩
  · intro ha
    by_cases hsize : a.recordSize = OddsUpdate.size.toUInt32
    · by_cases hzero : a.markets = 0 ∨ a.books = 0
      · rw [if_neg (fun hne => hne hsize), if_pos hzero]
        exact ⟨_, rfl⟩
      · exact absurd ⟨hsize, fun h => hzero (Or.inl h), fun h => hzero (Or.inr h)⟩ ha
    · rw [if_pos hsize]
      exact ⟨_, rfl⟩

/-- The constructor, on an inbox whose first announce is `d`. -/
theorem start_announce {pre : List Datagram} {d : Datagram} {seq : UInt64} {a : AnnounceRecord}
    (hpre : ∀ x ∈ pre, (hear x).announce? = none) (hd : hear d = .announce seq a)
    (post : List Datagram) :
    (Admissible a → ∃ s, start (pre ++ d :: post) = .ok (s, post) ∧
        JoinedAt a {} (seqs (pre ++ [d])) s) ∧
      (¬ Admissible a → ∃ e, start (pre ++ d :: post) = .error e) := by
  have hseq : (hear d).seq? = some seq := by rw [hd]; rfl
  obtain ⟨s1, hskip, htally⟩ := awaitAnnounce_others pre hpre {}
  obtain ⟨hjoin, hrefuse⟩ := awaitAnnounce_announce hd s1 post
  unfold start
  rw [hskip]
  refine ⟨fun ha => ?_, hrefuse⟩
  obtain ⟨s, hok, hjoined⟩ := hjoin ha
  refine ⟨s, hok, hjoined.header, ?_, hjoined.done⟩
  rw [hjoined.tally, htally, seqs_append, seqs_singleton hseq, Tally.after_append]

/-- Either no element of a list has the property, or the list is split at the first that has. -/
theorem split_at_first {α : Type} (P : α → Prop) (l : List α) :
    (∀ x ∈ l, ¬ P x) ∨
      ∃ before x after, l = before ++ x :: after ∧ (∀ y ∈ before, ¬ P y) ∧ P x := by
  classical
  cases hfind : l.find? fun x => decide (P x) with
  | none => exact Or.inl fun x hx => by simpa using List.find?_eq_none.mp hfind x hx
  | some x =>
    obtain ⟨hx, before, after, hsplit, hbefore⟩ := List.find?_eq_some_iff_append.mp hfind
    exact Or.inr ⟨before, x, after, hsplit, fun y hy => by simpa using hbefore y hy,
      of_decide_eq_true hx⟩

theorem announce?_eq_none_iff (d : Datagram) :
    (hear d).announce? = none ↔ ¬ ∃ seq a, hear d = .announce seq a := by
  cases hear d with
  | unusable => simp [Heard.announce?]
  | data seq => simp [Heard.announce?]
  | announce seq a => simp [Heard.announce?]

/-- **The constructor joins at the first announce**, or not at all. -/
theorem start_inv {inbox rest : List Datagram} {s : UdpSource} (h : start inbox = .ok (s, rest)) :
    ∃ pre d seq a, inbox = pre ++ d :: rest ∧ (∀ x ∈ pre, (hear x).announce? = none) ∧
      hear d = .announce seq a ∧ Admissible a ∧ JoinedAt a {} (seqs (pre ++ [d])) s := by
  rcases split_at_first (fun d => ∃ seq a, hear d = .announce seq a) inbox with
    hnone | ⟨pre, d, post, rfl, hpre, seq, a, hd⟩
  · obtain ⟨s1, hskip, -⟩ := awaitAnnounce_others inbox
      (fun x hx => (announce?_eq_none_iff x).mpr (hnone x hx)) {}
    have hend := hskip []
    rw [List.append_nil] at hend
    unfold start at h
    rw [hend] at h
    cases h
  · replace hpre := fun x hx => (announce?_eq_none_iff x).mpr (hpre x hx)
    obtain ⟨hjoin, hrefuse⟩ := start_announce hpre hd post
    by_cases ha : Admissible a
    · obtain ⟨s', hok, hjoined⟩ := hjoin ha
      rw [hok] at h
      cases h
      exact ⟨pre, d, seq, a, rfl, hpre, hd, ha, hjoined⟩
    · obtain ⟨e, herr⟩ := hrefuse ha
      rw [herr] at h
      cases h

/-! ## 3. Reading on -/

/-- The datagram is an announce of another seed or shape than the header's. -/
def Reconfigures (h : SessionHeader) (d : Datagram) : Prop :=
  ∃ a, (hear d).announce? = some a ∧ (a.markets ≠ h.markets ∨ a.books ≠ h.books ∨ a.seed ≠ h.seed)

theorem not_reconfigures_of_other {h : SessionHeader} {d : Datagram}
    (hd : (hear d).announce? = none) : ¬ Reconfigures h d := by
  rintro ⟨a, ha, -⟩
  rw [hd] at ha
  cases ha

theorem reconfigures_iff_of_announce {h : SessionHeader} {d : Datagram} {a : AnnounceRecord}
    (hd : (hear d).announce? = some a) :
    (a.markets ≠ h.markets ∨ a.books ≠ h.books ∨ a.seed ≠ h.seed) ↔ Reconfigures h d := by
  constructor
  · exact fun hne => ⟨a, hd, hne⟩
  · rintro ⟨b, hb, hne⟩
    rw [hd] at hb
    cases hb
    exact hne

instance instDecidableReconfigures (h : SessionHeader) (d : Datagram) :
    Decidable (Reconfigures h d) :=
  match hd : (hear d).announce? with
  | none => isFalse (not_reconfigures_of_other hd)
  | some _ => decidable_of_iff _ (reconfigures_iff_of_announce hd)

/-- The text of the error such an announce ends a run with. -/
def reconfigured : Bytes := ascii "announce changed mid-stream: feed reconfigured"

/-- A data datagram holds a record. -/
theorem count_pos_of_hear {d : Datagram} {seq : UInt64} (h : hear d = .data seq) (s : UdpSource) :
    0 < (s.accepted d).lastCount.toNat := by
  unfold hear at h
  dsimp only at h
  split_ifs at h with hshort hmagic hzero
  · refine Nat.pos_of_ne_zero fun h0 => hzero (UInt8.toNat_inj.mp ?_)
    exact h0

/-- The source behind a datagram that it reads on from. -/
structure PassesOver (s : UdpSource) (d : Datagram) (s' : UdpSource) : Prop where
  next : ∀ inbox, next (s, d :: inbox) = next (s', inbox)
  header : s'.header = s.header
  tally : s'.tally = s.tally.after (seqs [d])
  left : ¬ s'.cursor < s'.inBuffer → ∀ inbox, afterReceive s (d :: inbox) = afterReceive s' inbox

/-- A source whose buffer is used up reads on behind any datagram but such an announce. -/
theorem next_datagram {s : UdpSource} (hdone : ¬ s.cursor < s.inBuffer) {d : Datagram}
    (h : ¬ Reconfigures s.header d) : ∃ s', PassesOver s d s' := by
  have hread := readDatagram_hear s d
  have hskip : ∀ {s' : UdpSource}, ¬ s'.cursor < s'.inBuffer →
      (∀ inbox, receiveOne s (d :: inbox) = receiveOne s' inbox) → ∀ inbox,
      next (s, d :: inbox) = next (s', inbox) := by
    intro s' hdone' hreceive inbox
    rw [next_eq, if_neg hdone, hreceive, next_eq, if_neg hdone']
  cases hd : hear d with
  | unusable =>
    rw [hd] at hread
    have hno : seqs [d] = [] := by simp [seqs, hd, Heard.seq?]
    refine ⟨s.refused d, @hskip (s.refused d) hdone fun inbox => ?_, rfl, by rw [hno]; rfl,
      fun _ inbox => ?_⟩
    · conv_lhs => unfold receiveOne
      rw [hread]
    · conv_lhs => unfold afterReceive
      rw [hread]
  | data seq =>
    rw [hd] at hread
    have hseq : (hear d).seq? = some seq := by rw [hd]; rfl
    refine ⟨{ s.accepted d with inBuffer := (s.accepted d).lastCount.toNat, cursor := 0 },
      fun inbox => ?_, rfl, ?_, fun hempty => absurd (count_pos_of_hear hd s) hempty⟩
    · have hreceive : receiveOne s (d :: inbox) =
          .ok (true, { s.accepted d with inBuffer := (s.accepted d).lastCount.toNat, cursor := 0 },
            inbox) := by
        unfold receiveOne
        rw [hread]
      rw [next_eq, if_neg hdone, hreceive]
    · rw [seqs_singleton hseq]
      exact tally_accepted hseq s
  | announce seq a =>
    rw [hd] at hread
    have hseq : (hear d).seq? = some seq := by rw [hd]; rfl
    have hsame : ¬ (a.markets ≠ s.header.markets ∨ a.books ≠ s.header.books ∨
        a.seed ≠ s.header.seed) := fun hne => h ⟨a, by rw [hd]; rfl, hne⟩
    refine ⟨{ s.accepted d with announces := (s.accepted d).announces + 1 },
      @hskip { s.accepted d with announces := (s.accepted d).announces + 1 } hdone
        fun inbox => ?_, rfl, ?_, fun _ inbox => ?_⟩
    · conv_lhs => unfold receiveOne
      rw [hread]
      dsimp only
      rw [readAnnouncePayload_accepted hd]
      exact if_neg hsame
    · rw [seqs_singleton hseq]
      exact tally_accepted hseq s
    · conv_lhs => unfold afterReceive
      rw [hread]
      dsimp only
      rw [readAnnouncePayload_accepted hd]
      exact if_neg hsame

/-- Such an announce is counted, and the call that reads it throws. -/
theorem next_reconfigures {s : UdpSource} (hdone : ¬ s.cursor < s.inBuffer) {d : Datagram}
    (h : Reconfigures s.header d) (inbox : List Datagram) :
    next (s, d :: inbox) = .error reconfigured ∧
      (afterReceive s (d :: inbox)).tally = s.tally.after (seqs [d]) := by
  obtain ⟨a, ha, hne⟩ := h
  obtain ⟨seq, hd⟩ : ∃ seq, hear d = .announce seq a := by
    cases hd : hear d with
    | unusable => rw [hd] at ha; cases ha
    | data seq => rw [hd] at ha; cases ha
    | announce seq b =>
      rw [hd] at ha
      cases ha
      exact ⟨seq, rfl⟩
  have hread := readDatagram_hear s d
  rw [hd] at hread
  have hseq : (hear d).seq? = some seq := by rw [hd]; rfl
  constructor
  · have hreceive : receiveOne s (d :: inbox) = .error reconfigured := by
      unfold receiveOne
      rw [hread]
      dsimp only
      rw [readAnnouncePayload_accepted hd]
      exact if_pos hne
    rw [next_eq, if_neg hdone, hreceive]
  · have hleft : afterReceive s (d :: inbox) = s.accepted d := by
      unfold afterReceive
      rw [hread]
      dsimp only
      rw [readAnnouncePayload_accepted hd]
      exact if_pos hne
    rw [hleft, seqs_singleton hseq]
    exact tally_accepted hseq s

/-- The datagram in the buffer is read to its end. -/
theorem empties_buffer (s : UdpSource) (inbox : List Datagram) :
    ∃ us s', Reads next (s, inbox) us (s', inbox) ∧ ¬ s'.cursor < s'.inBuffer ∧
      s'.header = s.header ∧ s'.tally = s.tally := by
  obtain ⟨s', hreads, hcursor, hin, hfollows⟩ := reads_buffer s inbox
  exact ⟨s.buffered, s', hreads, by omega, hfollows.header, hfollows.tally⟩

/-- **A feed that is not reconfigured is read to the silence**, every datagram counted. -/
theorem delivers_inbox (inbox : List Datagram) (s : UdpSource)
    (h : ∀ d ∈ inbox, ¬ Reconfigures s.header d) :
    ∃ us t, Delivers next (s, inbox) us (t, []) ∧ t.header = s.header ∧
      t.tally = s.tally.after (seqs inbox) := by
  induction inbox generalizing s with
  | nil =>
    obtain ⟨us, s1, hreads, hdone, hheader, htally⟩ := empties_buffer s []
    have hend : next (s1, []) = .ok (none, s1, []) := by
      rw [next_eq, if_neg hdone]
      rfl
    exact ⟨us ++ [], s1, hreads.delivers (.done hend), hheader, htally⟩
  | cons d inbox ih =>
    obtain ⟨us, s1, hreads, hdone, hheader, htally⟩ := empties_buffer s (d :: inbox)
    obtain ⟨s2, hpasses⟩ := next_datagram hdone (d := d) (by
      rw [hheader]
      exact h d List.mem_cons_self)
    obtain ⟨vs, t, hdel, hheadert, htallyt⟩ := ih s2 (by
      rw [hpasses.header, hheader]
      exact fun x hx => h x (List.mem_cons_of_mem d hx))
    refine ⟨us ++ vs, t, hreads.delivers (Delivers.of_next_eq (hpasses.next inbox) hdel),
      hheadert.trans (hpasses.header.trans hheader), ?_⟩
    rw [htallyt, hpasses.tally, htally, ← Tally.after_append, ← seqs_append]
    rfl

/-- From `st` the loop sees `us`, then the exception `e`, which leaves the source `t`. -/
def Throws (st : UdpSource × List Datagram) (us : List OddsUpdate) (e : Bytes) (t : UdpSource) :
    Prop :=
  ∃ s inbox, Reads next st us (s, inbox) ∧ next (s, inbox) = .error e ∧ t = afterReceive s inbox

theorem Throws.fails {st : UdpSource × List Datagram} {us : List OddsUpdate} {e : Bytes}
    {t : UdpSource} (h : Throws st us e t) : Fails next st us e := by
  obtain ⟨s, inbox, hreads, hfail, -⟩ := h
  exact ⟨(s, inbox), hreads, hfail⟩

theorem Throws.after_reads {st st' : UdpSource × List Datagram} {us vs : List OddsUpdate} {e : Bytes}
    {t : UdpSource} (hreads : Reads next st us st') (h : Throws st' vs e t) :
    Throws st (us ++ vs) e t := by
  obtain ⟨s, inbox, hreads', hfail, hleft⟩ := h
  exact ⟨s, inbox, hreads.trans hreads', hfail, hleft⟩

/-- A datagram passed over does not show in how the loop throws. -/
theorem PassesOver.throws {s s' : UdpSource} {d : Datagram} (h : PassesOver s d s')
    {inbox : List Datagram} {us : List OddsUpdate} {e : Bytes} {t : UdpSource}
    (hthrows : Throws (s', inbox) us e t) : Throws (s, d :: inbox) us e t := by
  obtain ⟨r, rest, hreads, hfail, hleft⟩ := hthrows
  cases hreads with
  | refl =>
    -- the buffer is used up, or the call would have returned
    have hempty : ¬ s'.cursor < s'.inBuffer := by
      intro hmore
      rw [next_eq, if_pos hmore] at hfail
      cases hfail
    exact ⟨s, d :: inbox, .refl _, (h.next inbox).trans hfail,
      hleft.trans (h.left hempty inbox).symm⟩
  | more hn hrest => exact ⟨r, rest, .more ((h.next inbox).trans hn) hrest, hfail, hleft⟩

/-- **A reconfigured feed ends in the error**, at the first announce that says so, with this one
    counted like those before it. -/
theorem throws_inbox (before : List Datagram) (d : Datagram) (after : List Datagram)
    (s : UdpSource) (h : ∀ x ∈ before, ¬ Reconfigures s.header x) (hd : Reconfigures s.header d) :
    ∃ us t, Throws (s, before ++ d :: after) us reconfigured t ∧
      t.tally = s.tally.after (seqs (before ++ [d])) := by
  induction before generalizing s with
  | nil =>
    obtain ⟨us, s1, hreads, hdone, hheader, htally⟩ := empties_buffer s (d :: after)
    obtain ⟨hfail, hcount⟩ := next_reconfigures hdone (by rw [hheader]; exact hd) after
    refine ⟨us, _, ⟨s1, d :: after, hreads, hfail, rfl⟩, ?_⟩
    rw [hcount, htally]
    rfl
  | cons x before ih =>
    obtain ⟨us, s1, hreads, hdone, hheader, htally⟩ :=
      empties_buffer s (x :: (before ++ d :: after))
    obtain ⟨s2, hpasses⟩ := next_datagram hdone (d := x) (by
      rw [hheader]
      exact h x List.mem_cons_self)
    obtain ⟨vs, t, hthrows, hcount⟩ := ih s2 (by
      rw [hpasses.header, hheader]
      exact fun y hy => h y (List.mem_cons_of_mem x hy)) (by
      rw [hpasses.header, hheader]
      exact hd)
    refine ⟨us ++ vs, t, (hpasses.throws hthrows).after_reads hreads, ?_⟩
    rw [hcount, hpasses.tally, htally, ← Tally.after_append, ← seqs_append]
    rfl

/-- One call that does not fail has read some datagrams, none of which reconfigures the feed. -/
theorem next_consumed {s s' : UdpSource} {inbox inbox' : List Datagram} {r : Option OddsUpdate}
    (h : next (s, inbox) = .ok (r, s', inbox')) :
    ∃ consumed, inbox = consumed ++ inbox' ∧ s'.header = s.header ∧
      ∀ d ∈ consumed, ¬ Reconfigures s.header d := by
  have hnone : ∀ d ∈ ([] : List Datagram), ¬ Reconfigures s.header d :=
    fun d hd => absurd hd List.not_mem_nil
  by_cases hmore : s.cursor < s.inBuffer
  · rw [next_eq, if_pos hmore] at h
    cases h
    exact ⟨[], rfl, rfl, hnone⟩
  · induction inbox generalizing s with
    | nil =>
      rw [next_eq, if_neg hmore] at h
      cases h
      exact ⟨[], rfl, rfl, hnone⟩
    | cons d inbox ih =>
      by_cases hd : Reconfigures s.header d
      · rw [(next_reconfigures hmore hd inbox).1] at h
        cases h
      · obtain ⟨s1, hpasses⟩ := next_datagram hmore hd
        have hheader := hpasses.header
        rw [hpasses.next] at h
        by_cases hmore1 : s1.cursor < s1.inBuffer
        · rw [next_eq, if_pos hmore1] at h
          cases h
          exact ⟨[d], rfl, hheader, List.forall_mem_singleton.mpr hd⟩
        · obtain ⟨consumed, hsplit, hheader', hconsumed⟩ := @ih s1 h
            (fun d hd => absurd hd List.not_mem_nil) hmore1
          rw [hheader] at hconsumed
          exact ⟨d :: consumed, by rw [hsplit, List.cons_append], hheader'.trans hheader,
            List.forall_mem_cons.mpr ⟨hd, hconsumed⟩⟩

/-- **What a run has read so far reconfigures nothing**, and it still has the header it joined
    with. -/
theorem reads_consumed {st st' : UdpSource × List Datagram} {us : List OddsUpdate}
    (h : Reads next st us st') :
    ∃ consumed, st.2 = consumed ++ st'.2 ∧ st'.1.header = st.1.header ∧
      ∀ d ∈ consumed, ¬ Reconfigures st.1.header d := by
  induction h with
  | refl => exact ⟨[], rfl, rfl, fun d hd => absurd hd List.not_mem_nil⟩
  | more hnext _ ih =>
    obtain ⟨first, hfirst, hheader, hnone⟩ := next_consumed hnext
    obtain ⟨rest, hrest, hheader', hnone'⟩ := ih
    rw [hheader] at hnone'
    refine ⟨first ++ rest, ?_, hheader'.trans hheader, fun d hd => ?_⟩
    · rw [hfirst, hrest, List.append_assoc]
    · exact (List.mem_append.mp hd).elim (hnone d) (hnone' d)

/-- A run that ends in silence has met no announce that reconfigures the feed. -/
theorem delivers_clean {s : UdpSource} {inbox : List Datagram} {us : List OddsUpdate}
    {t : UdpSource × List Datagram} (h : Delivers next (s, inbox) us t) :
    ∀ d ∈ inbox, ¬ Reconfigures s.header d := by
  rcases split_at_first (Reconfigures s.header) inbox with hnone | ⟨before, d, after, rfl, hbefore, hd⟩
  · exact hnone
  · obtain ⟨vs, r, hthrows, -⟩ := throws_inbox before d after s hbefore hd
    exact absurd h (hthrows.fails.not_delivers us t)

end OddsEngine.UdpSource
