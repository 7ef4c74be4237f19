/-
  File:      OddsEngine/Engine/UdpGrammar.lean
  Subject:   The datagrams the framing defines and the ones the receiver accepts
             (proto/udp_framing.hpp, engine/UdpSource.hpp).

  The framing defines two shapes (`Framed`). `read_datagram` tells an announce by its type byte and
  takes everything else for data, looks at the record count of data only, and never sees what
  `recv` cut off. So three kinds of datagram are accepted that nobody defined (`Misframed`):

  * `accepted_iff` -- what is accepted is one of the two shapes, or of one of these kinds;
  * `keepsToFraming_iff` -- so the receiver keeps to the framing exactly on the other datagrams.
-/
import OddsEngine.Engine.UdpHearing

namespace OddsEngine

open Lib

/-! ## 1. The shapes -/

/-- The header of a datagram of this feed and version. -/
def HasFraming (d : Datagram) : Prop :=
  (UdpDatagramHeader.ofBytes d).magic = kUdpMagic ∧ (UdpDatagramHeader.ofBytes d).version = kUdpVersion

/-- A datagram the framing defines: whole records, or one announce. -/
def Framed (d : Datagram) : Prop :=
  let h := UdpDatagramHeader.ofBytes d
  HasFraming d ∧
    ((h.type = UdpDatagramType.data.code ∧
        1 ≤ h.recordCount.toNat ∧ h.recordCount.toNat ≤ kRecordsPerDatagram ∧
        d.length = UdpDatagramHeader.size + OddsUpdate.size * h.recordCount.toNat) ∨
      (h.type = UdpDatagramType.announce.code ∧ h.recordCount = 1 ∧
        d.length = UdpDatagramHeader.size + AnnounceRecord.size))

/-- A type byte nobody defined, on what would be data. -/
def UndefinedType (d : Datagram) : Prop :=
  let h := UdpDatagramHeader.ofBytes d
  HasFraming d ∧ h.type ≠ UdpDatagramType.data.code ∧ h.type ≠ UdpDatagramType.announce.code ∧
    1 ≤ h.recordCount.toNat ∧ h.recordCount.toNat ≤ kRecordsPerDatagram ∧
    min d.length kMaxDatagramBytes = UdpDatagramHeader.size + OddsUpdate.size * h.recordCount.toNat

/-- An announce that counts more than the one record it has. -/
def MiscountedAnnounce (d : Datagram) : Prop :=
  let h := UdpDatagramHeader.ofBytes d
  HasFraming d ∧ h.type = UdpDatagramType.announce.code ∧ 1 < h.recordCount.toNat ∧
    d.length = UdpDatagramHeader.size + AnnounceRecord.size

/-- A full batch with more bytes behind it than the receive buffer holds. -/
def Overlong (d : Datagram) : Prop :=
  let h := UdpDatagramHeader.ofBytes d
  HasFraming d ∧ h.type = UdpDatagramType.data.code ∧
    h.recordCount.toNat = kRecordsPerDatagram ∧ kMaxDatagramBytes < d.length

/-- The kinds of datagram that are accepted without being defined. -/
def Misframed (d : Datagram) : Prop := UndefinedType d ∨ MiscountedAnnounce d ∨ Overlong d

theorem not_framed_of_misframed {d : Datagram} (h : Misframed d) : ¬ Framed d := by
  rintro ⟨-, ⟨htype, -, hmany, hlen⟩ | ⟨htype, hone, -⟩⟩
  · rcases h with ⟨-, hdata, -⟩ | ⟨-, hann, -⟩ | ⟨-, -, hcount, hlong⟩
    · exact hdata htype
    · rw [htype] at hann
      exact absurd hann (by decide)
    · rw [hcount] at hlen
      have hmax : kMaxDatagramBytes = UdpDatagramHeader.size + OddsUpdate.size * kRecordsPerDatagram :=
        rfl
      omega
  · rcases h with ⟨-, -, hann, -⟩ | ⟨-, -, hcount, -⟩ | ⟨-, hdata, -⟩
    · exact hann htype
    · rw [hone] at hcount
      exact absurd hcount (by decide)
    · rw [htype] at hdata
      exact absurd hdata (by decide)

/-! ## 2. What is accepted -/

namespace UdpSource

/-- `recv` leaves the header whole. -/
theorem ofBytes_recv (d : Datagram) :
    UdpDatagramHeader.ofBytes (recv d) = UdpDatagramHeader.ofBytes d := by
  by_cases hshort : d.length ≤ kMaxDatagramBytes
  · rw [recv, List.take_of_length_le hshort]
  · have hlen : UdpDatagramHeader.size ≤ (recv d).length := by
      rw [recv, List.length_take]
      exact le_min (by decide) ((show UdpDatagramHeader.size ≤ kMaxDatagramBytes by decide).trans
        (not_le.mp hshort).le)
    conv_rhs => rw [← List.take_append_drop kMaxDatagramBytes d]
    exact (UdpDatagramHeader.ofBytes_append hlen _).symm

/-- The checks of `read_datagram`, all passed. -/
theorem hear_ne_unusable_iff (d : Datagram) :
    hear d ≠ .unusable ↔
      HasFraming d ∧
        (((UdpDatagramHeader.ofBytes d).type ≠ UdpDatagramType.announce.code ∧
            1 ≤ (UdpDatagramHeader.ofBytes d).recordCount.toNat ∧
            (UdpDatagramHeader.ofBytes d).recordCount.toNat ≤ kRecordsPerDatagram ∧
            min d.length kMaxDatagramBytes =
              UdpDatagramHeader.size + OddsUpdate.size * (UdpDatagramHeader.ofBytes d).recordCount.toNat) ∨
          ((UdpDatagramHeader.ofBytes d).type = UdpDatagramType.announce.code ∧
            1 ≤ (UdpDatagramHeader.ofBytes d).recordCount.toNat ∧
            d.length = UdpDatagramHeader.size + AnnounceRecord.size)) := by
  have hlen : (recv d).length = min d.length kMaxDatagramBytes := by
    rw [recv, List.length_take, Nat.min_comm]
  have hzero : ∀ c : UInt8, c = 0 ↔ ¬ 1 ≤ c.toNat := by
    intro c
    rw [← UInt8.toNat_inj]
    simp
  have hmax : kMaxDatagramBytes = 1040 := rfl
  have hsize : UdpDatagramHeader.size = 16 := rfl
  have hrecord : OddsUpdate.size = 64 := rfl
  have hannounce : AnnounceRecord.size = 32 := rfl
  have hmany : kRecordsPerDatagram = 16 := rfl
  unfold hear HasFraming
  dsimp only
  rw [ofBytes_recv, hlen]
  generalize UdpDatagramHeader.ofBytes d = h
  simp only [hzero, beq_iff_eq]
  by_cases hann : h.type = UdpDatagramType.announce.code
  · simp only [hann, if_true, beq_self_eq_true, Bool.not_true, Bool.false_and]
    split_ifs <;> simp <;> grind
  · simp only [hann, if_false]
    split_ifs <;> simp <;> grind

/-- **What is accepted** is defined, or of one of the three kinds. -/
theorem accepted_iff (s : UdpSource) (d : Datagram) :
    (readDatagram s d).2 ≠ .unusable ↔ Framed d ∨ Misframed d := by
  have hheard : (readDatagram s d).2 ≠ .unusable ↔ hear d ≠ .unusable := by
    rw [readDatagram_hear]
    cases hear d <;> simp
  have hmax : kMaxDatagramBytes = 1040 := rfl
  have hsize : UdpDatagramHeader.size = 16 := rfl
  have hrecord : OddsUpdate.size = 64 := rfl
  have hannounce : AnnounceRecord.size = 32 := rfl
  have hmany : kRecordsPerDatagram = 16 := rfl
  have hcodes : UdpDatagramType.data.code ≠ UdpDatagramType.announce.code := by decide
  have hone : ∀ c : UInt8, c = 1 ↔ c.toNat = 1 := fun c => UInt8.toNat_inj.symm
  rw [hheard, hear_ne_unusable_iff]
  simp only [Framed, Misframed, UndefinedType, MiscountedAnnounce, Overlong, hone, hrecord]
  generalize UdpDatagramHeader.ofBytes d = h
  constructor
  · rintro ⟨hframing, ⟨htype, hpos, hle, hlen⟩ | ⟨htype, hpos, hlen⟩⟩
    · by_cases hdata : h.type = UdpDatagramType.data.code
      · by_cases hlong : kMaxDatagramBytes < d.length
        · -- cut off at the buffer, it can only be a full batch
          have hfull : h.recordCount.toNat = kRecordsPerDatagram := by omega
          exact Or.inr (Or.inr (Or.inr ⟨hframing, hdata, hfull, hlong⟩))
        · have hexact : d.length = UdpDatagramHeader.size + 64 * h.recordCount.toNat := by omega
          exact Or.inl ⟨hframing, Or.inl ⟨hdata, hpos, hle, hexact⟩⟩
      · exact Or.inr (Or.inl ⟨hframing, hdata, htype, hpos, hle, hlen⟩)
    · by_cases hcount : h.recordCount.toNat = 1
      · exact Or.inl ⟨hframing, Or.inr ⟨htype, hcount, hlen⟩⟩
      · exact Or.inr (Or.inr (Or.inl ⟨hframing, htype, by omega, hlen⟩))
  · rintro (⟨hframing, ⟨hdata, hpos, hle, hlen⟩ | ⟨htype, hcount, hlen⟩⟩ |
      ⟨hframing, hdata, htype, hpos, hle, hlen⟩ | ⟨hframing, htype, hcount, hlen⟩ |
      ⟨hframing, hdata, hfull, hlong⟩)
    · exact ⟨hframing, Or.inl ⟨by rw [hdata]; exact hcodes, hpos, hle, by omega⟩⟩
    · exact ⟨hframing, Or.inr ⟨htype, hcount.ge, hlen⟩⟩
    · exact ⟨hframing, Or.inl ⟨htype, hpos, hle, hlen⟩⟩
    · exact ⟨hframing, Or.inr ⟨htype, hcount.le, hlen⟩⟩
    · exact ⟨hframing, Or.inl ⟨by rw [hdata]; exact hcodes, by omega, hfull.le, by omega⟩⟩

/-! ## 3. Keeping to the framing -/

/-- The source accepts the datagram exactly if the framing defines it, and otherwise only counts it.
    The receive buffer, which `recv` writes whatever comes, is left out. -/
def KeepsToFraming (s : UdpSource) (d : Datagram) : Prop :=
  ((readDatagram s d).2 ≠ .unusable ↔ Framed d) ∧
    (¬ Framed d →
      { (readDatagram s d).1 with buf := s.buf } = { s with malformed := s.malformed + 1 })

theorem readDatagram_of_unusable {s : UdpSource} {d : Datagram}
    (h : (readDatagram s d).2 = .unusable) : (readDatagram s d).1 = s.refused d := by
  rw [readDatagram_hear] at h ⊢
  cases hd : hear d with
  | unusable => rfl
  | data seq =>
    rw [hd] at h
    cases h
  | announce seq a =>
    rw [hd] at h
    cases h

/-- **Where the receiver keeps to the framing**: on every datagram but the three kinds. -/
theorem keepsToFraming_iff (s : UdpSource) (d : Datagram) :
    KeepsToFraming s d ↔ ¬ Misframed d := by
  unfold KeepsToFraming
  rw [accepted_iff]
  constructor
  · rintro ⟨haccept, -⟩ hmis
    exact not_framed_of_misframed hmis (haccept.mp (Or.inr hmis))
  · intro hmis
    refine ⟨⟨fun h => h.resolve_right hmis, Or.inl⟩, fun hframed => ?_⟩
    have hunusable : (readDatagram s d).2 = .unusable := by
      by_contra hne
      exact ((accepted_iff s d).mp hne).elim hframed hmis
    rw [readDatagram_of_unusable hunusable]
    rfl

/-- One quote in a datagram whose type byte is 7. -/
def strangeDatagram : Datagram :=
  UdpDatagramHeader.toBytes
      { magic := kUdpMagic, version := kUdpVersion, type := 7, recordCount := 1, datagramSeq := 0 } ++
    (OddsUpdate.toBytes {})

/-- It is accepted by a source that has heard nothing, and defined nowhere. -/
theorem not_keepsToFraming : ¬ ∀ (s : UdpSource) (d : Datagram), KeepsToFraming s d := by
  intro h
  have hlen : strangeDatagram.length = 80 := by
    rw [strangeDatagram, List.length_append, UdpDatagramHeader.toBytes_length,
      OddsUpdate.toBytes_length]
    rfl
  have hheader : UdpDatagramHeader.ofBytes strangeDatagram =
      { magic := kUdpMagic, version := kUdpVersion, type := 7, recordCount := 1, datagramSeq := 0 } :=
    UdpDatagramHeader.ofBytes_toBytes _ _
  have hmis : Misframed strangeDatagram := by
    refine Or.inl ?_
    unfold UndefinedType HasFraming
    rw [hheader, hlen]
    decide
  obtain ⟨haccept, -⟩ := h {} strangeDatagram
  exact not_framed_of_misframed hmis (haccept.mp ((accepted_iff _ _).mpr (Or.inr hmis)))

end UdpSource

end OddsEngine
