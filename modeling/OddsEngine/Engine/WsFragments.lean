/-
  File:      OddsEngine/Engine/WsFragments.lean
  Subject:   Fragmented messages (decode_frames, engine/WsServer.hpp).

  A message may be sent in fragments: a text frame that is not final, then continuation frames, the
  last of them final, and control frames in between. `decode_frames` looks at the opcode only. It
  queues the first fragment as if it were the message, and ignores the others; so what is dispatched
  is the message exactly where the others are empty (`fragments_dispatched_iff`).
-/
import OddsEngine.Engine.WsChunks
import OddsEngine.Engine.WsRoundTrip

namespace OddsEngine.Ws

open Lib

/-! ## 1. Fragments -/

/-- A close, a ping or a pong: never fragmented, and at most 125 bytes long. -/
structure ClientFrame.IsControl (f : ClientFrame) : Prop where
  opcode : f.opcode = 8 ∨ f.opcode = 9 ∨ f.opcode = 10
  fin : f.fin = true
  length_le : f.payload.length ≤ 125

/-- The frames that may follow the first fragment, and the bytes of the message they carry. -/
inductive Continues : List ClientFrame → Bytes → Prop where
  | control {f : ClientFrame} {fs : List ClientFrame} {tail : Bytes} (h : f.IsControl)
      (hfs : Continues fs tail) : Continues (f :: fs) tail
  | fragment {f : ClientFrame} {fs : List ClientFrame} {tail : Bytes} (hop : f.opcode = 0)
      (hfin : f.fin = false) (hfs : Continues fs tail) : Continues (f :: fs) (f.payload ++ tail)
  | last {f : ClientFrame} (hop : f.opcode = 0) (hfin : f.fin = true) : Continues [f] f.payload

/-- A legal fragmentation of `msg` (RFC 6455, section 5.4). -/
structure Fragmentation (msg : Bytes) where
  first : ClientFrame
  rest : List ClientFrame
  /-- What the other fragments carry. -/
  tail : Bytes
  first_text : first.isText = true
  first_open : first.fin = false
  continues : Continues rest tail
  whole : first.payload ++ tail = msg

def Fragmentation.frames {msg : Bytes} (g : Fragmentation msg) : List ClientFrame :=
  g.first :: g.rest

/-- No frame that follows the first fragment is a text. -/
theorem Continues.isText_eq_false {fs : List ClientFrame} {tail : Bytes} (h : Continues fs tail) :
    ∀ f ∈ fs, f.isText = false := by
  induction h with
  | @control f fs _ hc _ ih =>
    intro g hg
    rcases List.mem_cons.mp hg with rfl | hg
    · unfold ClientFrame.isText
      rcases hc.opcode with e | e | e
      · rw [e]; decide
      · rw [e]; decide
      · rw [e]; decide
    · exact ih g hg
  | @fragment f fs _ hop _ _ ih =>
    intro g hg
    rcases List.mem_cons.mp hg with rfl | hg
    · unfold ClientFrame.isText
      rw [hop]
      decide
    · exact ih g hg
  | @last f hop _ =>
    intro g hg
    rw [List.mem_singleton.mp hg]
    unfold ClientFrame.isText
    rw [hop]
    decide

/-! ## 2. What is dispatched -/

/-- Frames none of which is a text queue nothing, whatever their lengths. -/
theorem textsOf_scan_wire {fs : List ClientFrame} (h : ∀ f ∈ fs, f.isText = false) :
    textsOf (frameReader.scan Frame.isClose (wire fs)).items = [] := by
  induction fs with
  | nil =>
    have hmore : frameReader.read (wire []) = .more := rfl
    rw [Reader.scan_of_more hmore]
    rfl
  | cons f fs ih =>
    have hwire : wire (f :: fs) = f.bytes ++ wire fs := rfl
    have hread : frameReader.read (f.bytes ++ wire fs) = _ := f.nextFrame_bytes (wire fs)
    have htext : f.frame.isText = false := f.isText_frame.trans (h f List.mem_cons_self)
    have hrest := ih fun g hg => h g (List.mem_cons_of_mem f hg)
    rw [hwire]
    by_cases hlen : kMaxFramePayload < f.payload.length
    · rw [if_pos hlen] at hread
      rw [Reader.scan_of_fail hread]
      rfl
    · rw [if_neg hlen] at hread
      cases hclose : f.frame.isClose with
      | true =>
        rw [Reader.scan_of_last hread hclose, textsOf, List.filter_cons_of_neg (by simp [htext])]
        rfl
      | false =>
        rw [Reader.scan_of_item hread hclose, List.drop_left, textsOf,
          List.filter_cons_of_neg (by simp [htext])]
        exact hrest

/-- A fragmented message, scanned: the first fragment is its only text, unless it is too long. -/
theorem textsOf_scan_fragments {msg : Bytes} (g : Fragmentation msg) :
    textsOf (frameReader.scan Frame.isClose (wire g.frames)).items =
      if kMaxFramePayload < g.first.payload.length then [] else [g.first.payload] := by
  have hwire : wire g.frames = g.first.bytes ++ wire g.rest := rfl
  have hread : frameReader.read (g.first.bytes ++ wire g.rest) = _ :=
    g.first.nextFrame_bytes (wire g.rest)
  have htext : g.first.frame.isText = true := g.first.isText_frame.trans g.first_text
  have hclose : g.first.frame.isClose = false := by
    have hop : g.first.opcode = 1 := beq_iff_eq.mp g.first_text
    rw [ClientFrame.isClose_frame, ClientFrame.isClose, hop]
    decide
  rw [hwire]
  by_cases hlen : kMaxFramePayload < g.first.payload.length
  · rw [if_pos hlen] at hread ⊢
    rw [Reader.scan_of_fail hread]
    rfl
  · rw [if_neg hlen] at hread ⊢
    have hrest := textsOf_scan_wire g.continues.isText_eq_false
    rw [Reader.scan_of_item hread hclose, List.drop_left, textsOf, List.filter_cons_of_pos htext,
      List.map_cons]
    exact congrArg (g.first.payload :: ·) hrest

/-- The texts queued for one message are the message, once, or nothing. -/
def DispatchedWhole (msg : Bytes) (texts : List Bytes) : Prop := texts = [] ∨ texts = [msg]

instance (msg : Bytes) (texts : List Bytes) : Decidable (DispatchedWhole msg texts) :=
  inferInstanceAs (Decidable (_ ∨ _))

/-- What an open connection at a frame boundary queues of a fragmented message, however it is cut
    into chunks: the first fragment, or nothing where that alone is over the limit. -/
theorem queues_fragments {msg : Bytes} (g : Fragmentation msg) (s : Shared) {c : Client}
    (hopen : c.isOpen = true) (halive : c.dead = false) (hbuf : c.inBuf = [])
    (sends : List SendResult) {calls : List (List Chunk)}
    (hcalls : bytesOf calls.flatten = wire g.frames) :
    Queues c.fd c.conn s (readCalls s c sends calls).1
      (if kMaxFramePayload < g.first.payload.length then [] else [g.first.payload]) := by
  have hwait : c.Waiting := ⟨hopen, halive, by rw [hbuf]; rfl⟩
  have hq := (reads_readCalls s hwait sends calls).queues
  rw [hbuf, List.nil_append, hcalls, textsOf_scan_fragments] at hq
  exact hq

def setStale5000 : Bytes :=
  ascii "\x7b\"cmd\":\"set\",\"key\":\"stale-ms\",\"value\":5000\x7d"

theorem opcodes_neZero : NeZero 16 := inferInstance

theorem firstMask_length : ([1, 2, 3, 4] : Bytes).length = 4 := rfl

theorem secondMask_length : ([5, 6, 7, 8] : Bytes).length = 4 := rfl

attribute [local instance] opcodes_neZero in
/-- The command, cut inside its value: the first fragment says 5. -/
def cutCommand : Fragmentation setStale5000 where
  first :=
    { fin := false, opcode := 1, mask := [1, 2, 3, 4], form := .short,
      payload := ascii "\x7b\"cmd\":\"set\",\"key\":\"stale-ms\",\"value\":5"
      mask_length := firstMask_length, holds := by decide }
  rest := [{ fin := true, opcode := 0, mask := [5, 6, 7, 8], form := .short,
             payload := ascii "000\x7d", mask_length := secondMask_length, holds := by decide }]
  tail := ascii "000\x7d"
  first_text := by decide
  first_open := rfl
  continues := .last rfl rfl
  whole := by decide

/-- The two frames of it, received at once. -/
def cutCommandReads : List (List Chunk) :=
  [[{ bytes := wire cutCommand.frames, nonempty := by decide, length_le := by decide }]]

theorem bytesOf_cutCommandReads : bytesOf cutCommandReads.flatten = wire cutCommand.frames :=
  List.append_nil _

/-- A connection just opened. -/
def openedClient : Client := { fd := 5, conn := 0, isOpen := true }

/-- The server queues a command nobody sent: a stale-ms of 5. -/
theorem cutCommand_not_dispatchedWhole :
    ∃ texts, Queues openedClient.fd openedClient.conn { maxBacklog := 1048576 }
        (readCalls { maxBacklog := 1048576 } openedClient [] cutCommandReads).1 texts ∧
      texts = [ascii "\x7b\"cmd\":\"set\",\"key\":\"stale-ms\",\"value\":5"] ∧
      ¬ DispatchedWhole setStale5000 texts := by
  have hq := queues_fragments cutCommand { maxBacklog := 1048576 } (c := openedClient) rfl rfl rfl
    [] bytesOf_cutCommandReads
  exact ⟨_, hq, by decide, by decide⟩

variable {F : Type} [DoubleArith F] [Convert F]

/-- A message dispatched whole or not at all leaves the configuration alone, or changes it as the
    message says. -/
theorem DispatchedWhole.config {msg : Bytes} {texts : List Bytes} (h : DispatchedWhole msg texts)
    (cfg : LiveConfig F) (hashMode : Bool) :
    dispatchPending texts cfg hashMode = cfg ∨
      dispatchPending texts cfg hashMode = (applyCommand msg cfg hashMode).2 := by
  rcases h with rfl | rfl
  · exact Or.inl rfl
  · exact Or.inr rfl

/-- **A fragmented message is dispatched whole, or not at all, exactly where its first fragment is
    all of it, or is too long for the server**; the configuration then changes as the message says,
    or not. -/
theorem fragments_dispatched_iff {msg : Bytes} (g : Fragmentation msg) (s : Shared) {c : Client}
    (hopen : c.isOpen = true) (halive : c.dead = false) (hbuf : c.inBuf = [])
    (sends : List SendResult) {calls : List (List Chunk)}
    (hcalls : bytesOf calls.flatten = wire g.frames) :
    ∃ texts, Queues c.fd c.conn s (readCalls s c sends calls).1 texts ∧
      (DispatchedWhole msg texts ↔ g.tail = [] ∨ kMaxFramePayload < g.first.payload.length) ∧
      (g.tail = [] ∨ kMaxFramePayload < g.first.payload.length →
        ∀ (cfg : LiveConfig F) (hashMode : Bool), dispatchPending texts cfg hashMode = cfg ∨
          dispatchPending texts cfg hashMode = (applyCommand msg cfg hashMode).2) := by
  have hiff : DispatchedWhole msg
      (if kMaxFramePayload < g.first.payload.length then [] else [g.first.payload]) ↔
        g.tail = [] ∨ kMaxFramePayload < g.first.payload.length := by
    have hwhole := g.whole
    by_cases hlen : kMaxFramePayload < g.first.payload.length
    · rw [if_pos hlen]
      exact ⟨fun _ => Or.inr hlen, fun _ => Or.inl rfl⟩
    · rw [if_neg hlen]
      constructor
      · intro h
        rcases h with h | h
        · cases h
        · have hfirst : g.first.payload = msg := List.singleton_inj.mp h
          rw [hfirst] at hwhole
          exact Or.inl (List.append_right_eq_self.mp hwhole)
      · intro h
        rcases h with htail | hlong
        · rw [htail, List.append_nil] at hwhole
          exact Or.inr (by rw [hwhole])
        · exact absurd hlong hlen
  exact ⟨_, queues_fragments g s hopen halive hbuf sends hcalls, hiff,
    fun hcond => (hiff.mpr hcond).config⟩

theorem fragments_dispatched_iff_cut :
    ∃ texts, Queues openedClient.fd openedClient.conn { maxBacklog := 1048576 }
        (readCalls { maxBacklog := 1048576 } openedClient [] cutCommandReads).1 texts ∧
      (DispatchedWhole setStale5000 texts ↔
        cutCommand.tail = [] ∨ kMaxFramePayload < cutCommand.first.payload.length) ∧
      (cutCommand.tail = [] ∨ kMaxFramePayload < cutCommand.first.payload.length →
        ∀ (cfg : LiveConfig ℝ) (hashMode : Bool), dispatchPending texts cfg hashMode = cfg ∨
          dispatchPending texts cfg hashMode = (applyCommand
            setStale5000 cfg hashMode).2) :=
  fragments_dispatched_iff cutCommand { maxBacklog := 1048576 } (c := openedClient) rfl rfl rfl []
    bytesOf_cutCommandReads

end OddsEngine.Ws
