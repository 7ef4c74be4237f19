/-
  File:      OddsEngine/Engine/UdpAnnounces.lean
  Subject:   The announces a receiver accepts (engine/UdpSource.hpp, proto/udp_framing.hpp).

  An announce carries five facts. The constructor looks at the record size and at the shape; in
  mid-stream the seed and the shape are compared. Nobody looks at the tick interval, which is on
  the wire so that a drift would be caught, nor at the record size of a later announce.

  * `inAgreement_iff` -- whenever the feed falls silent, every announce accepted says what the
    header and the constants say, and one that does not has ended the run, exactly if the announces
    up to the first that names another seed or shape carry the interval and the size;
  * `drifted_accepted` -- a feed of half the interval is read like any other.
-/
import OddsEngine.Engine.UdpCounters

namespace OddsEngine.UdpSource

open Lib

/-! ## 1. What is asked of an announce -/

/-- The announce says what the header says, with the record size and the tick interval the engine
    computes with. -/
structure Conforms (h : SessionHeader) (a : AnnounceRecord) : Prop where
  seed : a.seed = h.seed
  markets : a.markets = h.markets
  books : a.books = h.books
  recordSize : a.recordSize = h.recordSize.toUInt32 ∧ a.recordSize = OddsUpdate.size.toUInt32
  tickIntervalNs : a.tickIntervalNs = kTickIntervalNs

/-- Whenever `next` has returned a record, the announces read so far conform; and a run that ends
    without an error has read no other. -/
structure InAgreement (inbox : List Datagram) : Prop where
  onRecord : ∀ s₀ rest₀ us s rest consumed, start inbox = .ok (s₀, rest₀) →
    Reads next (s₀, rest₀) us (s, rest) → us ≠ [] → inbox = consumed ++ rest →
    ∀ a ∈ announcesIn consumed, Conforms s.header a
  atEnd : ∀ s₀ rest₀ us t, start inbox = .ok (s₀, rest₀) → Delivers next (s₀, rest₀) us t →
    ∀ a ∈ announcesIn inbox, Conforms t.1.header a

/-- The two announces name one seed and one shape. -/
def SameFeed (a b : AnnounceRecord) : Prop :=
  b.markets = a.markets ∧ b.books = a.books ∧ b.seed = a.seed

instance (a b : AnnounceRecord) : Decidable (SameFeed a b) :=
  inferInstanceAs (Decidable (_ ∧ _))

/-- The announces up to the first that names another feed than the first of all. -/
def leadingAnnounces (inbox : List Datagram) : List AnnounceRecord :=
  match announcesIn inbox with
  | [] => []
  | a :: as => (a :: as).takeWhile fun b => decide (SameFeed a b)

/-- If the first announce is one the constructor takes, the leading ones carry the interval and
    the size. -/
def InStep (inbox : List Datagram) : Prop :=
  ∀ a, (announcesIn inbox).head? = some a → Admissible a → ∀ b ∈ leadingAnnounces inbox,
    b.tickIntervalNs = kTickIntervalNs ∧ b.recordSize = OddsUpdate.size.toUInt32

/-! ## 2. The announces of a run -/

theorem announcesIn_append (l l' : List Datagram) :
    announcesIn (l ++ l') = announcesIn l ++ announcesIn l' := List.filterMap_append

theorem announcesIn_eq_nil {l : List Datagram} (h : ∀ x ∈ l, (hear x).announce? = none) :
    announcesIn l = [] := List.filterMap_eq_nil_iff.mpr h

/-- The announces of an inbox split at its first one. -/
theorem announcesIn_split {pre : List Datagram} {d : Datagram} {seq : UInt64} {a : AnnounceRecord}
    (hpre : ∀ x ∈ pre, (hear x).announce? = none) (hd : hear d = .announce seq a)
    (post : List Datagram) :
    announcesIn (pre ++ d :: post) = a :: announcesIn post := by
  have hannounce : (hear d).announce? = some a := by rw [hd]; rfl
  rw [announcesIn_append, announcesIn_eq_nil hpre, List.nil_append]
  exact List.filterMap_cons_some (f := fun d => (hear d).announce?) hannounce

theorem sameFeed_iff (a : AnnounceRecord) {d : Datagram} {b : AnnounceRecord}
    (hb : (hear d).announce? = some b) : ¬ Reconfigures (headerOf a) d ↔ SameFeed a b := by
  have hrec : Reconfigures (headerOf a) d ↔
      b.markets ≠ a.markets ∨ b.books ≠ a.books ∨ b.seed ≠ a.seed := by
    constructor
    · rintro ⟨b', hb', hne⟩
      rw [hb] at hb'
      cases hb'
      exact hne
    · exact fun hne => ⟨b, hb, hne⟩
  rw [hrec]
  unfold SameFeed
  tauto

/-- Datagrams among which none reconfigures the feed of `a` announce nothing but that feed. -/
theorem forall_sameFeed_iff (a : AnnounceRecord) (l : List Datagram) :
    (∀ b ∈ announcesIn l, SameFeed a b) ↔ ∀ d ∈ l, ¬ Reconfigures (headerOf a) d := by
  constructor
  · intro h d hd hrec
    obtain ⟨b, hb, -⟩ := id hrec
    exact (sameFeed_iff a hb).mpr (h b (List.mem_filterMap.mpr ⟨d, hd, hb⟩)) hrec
  · intro h b hb
    obtain ⟨d, hd, hb⟩ := List.mem_filterMap.mp hb
    exact (sameFeed_iff a hb).mp (h d hd)

theorem conforms_headerOf {a b : AnnounceRecord} (hsame : SameFeed a b)
    (hstep : b.tickIntervalNs = kTickIntervalNs ∧ b.recordSize = OddsUpdate.size.toUInt32) :
    Conforms (headerOf a) b := by
  have hsize : OddsUpdate.size.toUInt32 = OddsUpdate.size.toUInt16.toUInt32 := by decide
  exact ⟨hsame.2.2, hsame.1, hsame.2.1, ⟨hstep.2.trans hsize, hstep.2⟩, hstep.1⟩

/-- Leading announces of a part of the inbox are leading announces of the whole. -/
theorem inStep_append {l l' : List Datagram} {a : AnnounceRecord} (h : InStep (l ++ l'))
    (ha : (announcesIn l).head? = some a) (hadm : Admissible a)
    (hsame : ∀ b ∈ announcesIn l, SameFeed a b) :
    ∀ b ∈ announcesIn l, b.tickIntervalNs = kTickIntervalNs ∧
      b.recordSize = OddsUpdate.size.toUInt32 := by
  intro b hb
  obtain ⟨as, has⟩ : ∃ as, announcesIn l = a :: as := by
    cases hl : announcesIn l with
    | nil => rw [hl] at ha; cases ha
    | cons c as =>
      rw [hl] at ha
      cases ha
      exact ⟨as, rfl⟩
  have hall : announcesIn (l ++ l') = a :: (as ++ announcesIn l') := by
    rw [announcesIn_append, has, List.cons_append]
  refine h a (by rw [hall]; rfl) hadm b ?_
  unfold leadingAnnounces
  rw [hall]
  dsimp only
  rw [← List.cons_append, ← has, List.takeWhile_append_of_pos fun c hc => decide_eq_true (hsame c hc)]
  exact List.mem_append_left _ hb

/-! ## 3. The runs in agreement -/

/-- Where the leading announces of an inbox are in step, so is every run over a part of it. -/
theorem inAgreement_of_inStep {inbox : List Datagram} (tail : List Datagram)
    (h : InStep (inbox ++ tail)) :
    InAgreement inbox := by
  constructor
  · intro s₀ rest₀ us s rest consumed hstart hreads _ hsplit
    obtain ⟨pre, d, seq, a, rfl, hpre, hd, hadm, hjoined⟩ := start_inv hstart
    obtain ⟨read, hread, hheader, hnone⟩ := reads_consumed hreads
    dsimp only at hread hheader hnone
    rw [hjoined.header] at hheader hnone
    have hconsumed : consumed = pre ++ d :: read := by
      rw [hread, ← List.cons_append, ← List.append_assoc] at hsplit
      exact (List.append_cancel_right hsplit).symm
    have hannounces : announcesIn consumed = a :: announcesIn read := by
      rw [hconsumed, announcesIn_split hpre hd read]
    have hsame : ∀ b ∈ announcesIn consumed, SameFeed a b := by
      rw [hannounces]
      exact List.forall_mem_cons.mpr ⟨⟨rfl, rfl, rfl⟩, (forall_sameFeed_iff a read).mpr hnone⟩
    rw [hsplit, List.append_assoc] at h
    intro b hb
    rw [hheader]
    exact conforms_headerOf (hsame b hb)
      (inStep_append h (by rw [hannounces]; rfl) hadm hsame b hb)
  · intro s₀ rest₀ us t hstart hdel
    obtain ⟨pre, d, seq, a, rfl, hpre, hd, hadm, hjoined⟩ := start_inv hstart
    have hclean := delivers_clean hdel
    obtain ⟨us', t', hdel', hheader, -⟩ := delivers_inbox rest₀ s₀ hclean
    obtain ⟨-, hsame'⟩ := hdel.unique hdel'
    rw [hjoined.header] at hclean hheader
    have hannounces := announcesIn_split hpre hd rest₀
    have hsame : ∀ b ∈ announcesIn (pre ++ d :: rest₀), SameFeed a b := by
      rw [hannounces]
      exact List.forall_mem_cons.mpr ⟨⟨rfl, rfl, rfl⟩, (forall_sameFeed_iff a rest₀).mpr hclean⟩
    intro b hb
    rw [hsame', hheader]
    exact conforms_headerOf (hsame b hb)
      (inStep_append h (by rw [hannounces]; rfl) hadm hsame b hb)

/-- A leading announce is the last of a part of the inbox that announces one feed. -/
theorem mem_leadingAnnounces {inbox : List Datagram} {a b : AnnounceRecord}
    (ha : (announcesIn inbox).head? = some a) (hb : b ∈ leadingAnnounces inbox) :
    ∃ l d l', inbox = l ++ [d] ++ l' ∧ (hear d).announce? = some b ∧
      (announcesIn (l ++ [d])).head? = some a ∧ ∀ c ∈ announcesIn (l ++ [d]), SameFeed a c := by
  unfold leadingAnnounces at hb
  cases hall : announcesIn inbox with
  | nil => rw [hall] at ha; cases ha
  | cons a' as =>
    rw [hall] at ha hb
    cases ha
    dsimp only at hb
    obtain ⟨before, after, hlead⟩ := List.append_of_mem hb
    have hparts := List.takeWhile_append_dropWhile (p := fun b => decide (SameFeed a b)) (l := a :: as)
    rw [hlead, List.append_assoc, ← hall] at hparts
    obtain ⟨l, more, rfl, hl, hmore⟩ := List.filterMap_eq_append_iff.mp hparts.symm
    obtain ⟨skip, d, l', rfl, hskip, hd, -⟩ := List.filterMap_eq_cons_iff.mp hmore
    have hpart : announcesIn (l ++ skip ++ [d]) = before ++ [b] := by
      rw [announcesIn_append, announcesIn_append, announcesIn_eq_nil hskip, List.append_nil]
      exact congrArg₂ (· ++ ·) hl
        (List.filterMap_cons_some (f := fun d => (hear d).announce?) hd)
    refine ⟨l ++ skip, d, l', by simp, hd, ?_, fun c hc => ?_⟩
    · rw [hpart]
      have hhead := congrArg List.head? hparts
      rw [hall] at hhead
      cases before with
      | nil => exact hhead
      | cons c before => exact hhead
    · rw [hpart] at hc
      have hmem : c ∈ (a :: as).takeWhile fun b => decide (SameFeed a b) := by
        rw [hlead]
        rcases List.mem_append.mp hc with hc | hc
        · exact List.mem_append_left _ hc
        · rw [List.mem_singleton.mp hc]
          exact List.mem_append_right _ List.mem_cons_self
      exact of_decide_eq_true
        (List.mem_takeWhile_imp (p := fun b => decide (SameFeed a b)) hmem)

/-- **The announces a run accepts agree, whenever the feed falls silent**, exactly if the announces
    up to the first of another feed carry the engine's tick interval and record size. -/
theorem inAgreement_iff (inbox : List Datagram) :
    (∀ n, InAgreement (inbox.take n)) ↔ InStep inbox := by
  constructor
  · intro h a ha hadm b hb
    obtain ⟨l, d, l', rfl, hd, hhead, hsame⟩ := mem_leadingAnnounces ha hb
    have hpart := h (l ++ [d]).length
    rw [List.take_left] at hpart
    -- the run over the part: it joins, meets no other feed, and ends in the silence behind `d`
    rcases split_at_first (fun d => ∃ seq a, hear d = .announce seq a) (l ++ [d]) with
      hnone | ⟨pre, first, post, hsplit, hpre, seq, a', hfirst⟩
    · have hempty := announcesIn_eq_nil fun x hx => (announce?_eq_none_iff x).mpr (hnone x hx)
      rw [hempty] at hhead
      cases hhead
    · replace hpre := fun x hx => (announce?_eq_none_iff x).mpr (hpre x hx)
      have hannounces := announcesIn_split hpre hfirst post
      have hmem : b ∈ announcesIn (l ++ [d]) :=
        List.mem_filterMap.mpr ⟨d, List.mem_append_right l List.mem_cons_self, hd⟩
      rw [hsplit] at hpart hhead hsame hmem
      rw [hannounces] at hhead hsame
      cases hhead
      obtain ⟨s, hstart, hjoined⟩ := (start_announce hpre hfirst post).1 hadm
      have hclean := (forall_sameFeed_iff a post).mp (List.forall_mem_cons.mp hsame).2
      obtain ⟨us, t, hdel, -, -⟩ := delivers_inbox post s (by
        rw [hjoined.header]
        exact hclean)
      have hconforms := hpart.atEnd s post us _ hstart hdel b hmem
      exact ⟨hconforms.tickIntervalNs, hconforms.recordSize.2⟩
  · intro h n
    refine inAgreement_of_inStep (inbox.drop n) ?_
    rw [List.take_append_drop]
    exact h

/-! ## 4. A feed of another interval -/

/-- The feed ticks twice as fast as the engine. -/
def driftedAnnounce : AnnounceRecord := { smallAnnounce with tickIntervalNs := 50000000 }

/-- Its announce, and one quote. -/
def driftedInbox : List Datagram :=
  [(Packet.announce 0).encode driftedAnnounce, (quotePacket 1).encode driftedAnnounce]

/-- The engine joins it and reads the quote. -/
theorem drifted_accepted :
    (∃ s rest t, start driftedInbox = .ok (s, rest) ∧ Delivers next (s, rest) [evenQuote] t ∧
        announcesIn driftedInbox = [driftedAnnounce] ∧ ¬ Conforms t.1.header driftedAnnounce) ∧
      ¬ InAgreement driftedInbox := by
  have hadm : Admissible driftedAnnounce := ⟨by decide, by decide, by decide⟩
  obtain ⟨s, t, hstart, hdel, -, -⟩ := @start_packets _ hadm [] (by simp) 0 [quotePacket 1]
  have hannounces : announcesIn driftedInbox = [driftedAnnounce] := by
    have hfirst := hear_encode driftedAnnounce (.announce 0)
    have hsecond := hear_encode driftedAnnounce (quotePacket 1)
    have hdata : (hear ((quotePacket 1).encode driftedAnnounce)).announce? = none := by
      rw [hsecond]
      rfl
    have hrest := announcesIn_eq_nil (List.forall_mem_singleton.mpr hdata)
    rw [← hrest]
    exact @announcesIn_split [] _ _ _ (by simp) hfirst _
  have hno : ∀ h, ¬ Conforms h driftedAnnounce :=
    fun h hc => absurd hc.tickIntervalNs (by decide)
  refine ⟨⟨s, _, _, hstart, hdel, hannounces, hno _⟩, fun h => ?_⟩
  refine hno _ (h.atEnd s _ _ _ hstart hdel driftedAnnounce ?_)
  show driftedAnnounce ∈ announcesIn driftedInbox
  rw [hannounces]
  exact List.mem_cons_self

end OddsEngine.UdpSource
