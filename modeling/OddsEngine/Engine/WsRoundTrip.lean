/-
  File:      OddsEngine/Engine/WsRoundTrip.lean
  Subject:   Frames written as RFC 6455 says are the frames decoded (decode_frames and pong,
             engine/WsServer.hpp; the frame writer of tools/ws_cmd.py).

  * `scan_wire` -- a list of client frames laid out one behind the other is scanned into these
    frames, up to the first close;
  * `decodeFrames_wire` -- so their texts are queued, their pings answered and nothing else done;
  * `wsCmdFrame_eq_bytes` -- what ws_cmd.py sends is such a frame.
-/
import OddsEngine.Engine.WsReading

namespace OddsEngine.Ws

open Lib

/-! ## 1. Frames on the wire -/

namespace ClientFrame

def isClose (f : ClientFrame) : Bool := f.opcode == 8

def isPing (f : ClientFrame) : Bool := f.opcode == 9

def isText (f : ClientFrame) : Bool := f.opcode == 1

theorem isClose_frame (f : ClientFrame) : f.frame.isClose = f.isClose := by
  have h : ∀ o : Fin 16, (o.val.toUInt8 == 0x8) = (o == 8) := by decide
  exact h f.opcode

theorem isPing_frame (f : ClientFrame) : f.frame.isPing = f.isPing := by
  have h : ∀ o : Fin 16, (o.val.toUInt8 == 0x9) = (o == 9) := by decide
  exact h f.opcode

theorem isText_frame (f : ClientFrame) : f.frame.isText = f.isText := by
  have h : ∀ o : Fin 16, (o.val.toUInt8 == 0x1) = (o == 1) := by decide
  exact h f.opcode

end ClientFrame

/-- Frames, one behind the other. -/
def wire (fs : List ClientFrame) : Bytes := (fs.map ClientFrame.bytes).flatten

/-- The frames before the first close. -/
def beforeClose (fs : List ClientFrame) : List ClientFrame := fs.takeWhile (!·.isClose)

/-- The payloads of the frames among `fs` that `kind` picks out, in order. -/
def payloads (kind : ClientFrame → Bool) (fs : List ClientFrame) : List Bytes :=
  (fs.filter kind).map (·.payload)

theorem textsOf_frames (fs : List ClientFrame) :
    textsOf (fs.map ClientFrame.frame) = payloads ClientFrame.isText fs := by
  have hkind : (Frame.isText ∘ ClientFrame.frame) = ClientFrame.isText :=
    funext ClientFrame.isText_frame
  rw [textsOf, List.filter_map, hkind, List.map_map]
  rfl

theorem pingsOf_frames (fs : List ClientFrame) :
    pingsOf (fs.map ClientFrame.frame) = payloads ClientFrame.isPing fs := by
  have hkind : (Frame.isPing ∘ ClientFrame.frame) = ClientFrame.isPing :=
    funext ClientFrame.isPing_frame
  rw [pingsOf, List.filter_map, hkind, List.map_map]
  rfl

/-- **Frames on the wire are scanned into these frames**: those before the first close, and the
    close; without one, every frame, and nothing is left. -/
theorem scan_wire {fs : List ClientFrame} (h : ∀ f ∈ fs, f.payload.length ≤ kMaxFramePayload) :
    (∃ closing : List Frame, (frameReader.scan Frame.isClose (wire fs)).items =
        (beforeClose fs).map ClientFrame.frame ++ closing ∧
      ∀ f ∈ closing, f.isClose = true) ∧
    (frameReader.scan Frame.isClose (wire fs)).ended = fs.any ClientFrame.isClose ∧
    (fs.any ClientFrame.isClose = false →
      (frameReader.scan Frame.isClose (wire fs)).rest = []) := by
  induction fs with
  | nil =>
    have hmore : frameReader.read (wire []) = .more := rfl
    rw [Reader.scan_of_more hmore]
    exact ⟨⟨[], rfl, nofun⟩, rfl, fun _ => rfl⟩
  | cons f fs ih =>
    have hlen := Nat.not_lt.mpr (h f List.mem_cons_self)
    have hwire : wire (f :: fs) = f.bytes ++ wire fs := rfl
    have hread : frameReader.read (f.bytes ++ wire fs) = .item f.frame f.bytes.length := by
      have hframe := f.nextFrame_bytes (wire fs)
      rw [if_neg hlen] at hframe
      exact hframe
    rw [hwire]
    cases hclose : f.isClose with
    | true =>
      rw [Reader.scan_of_last hread (f.isClose_frame.trans hclose), beforeClose,
        List.takeWhile_cons_of_neg (by simp [hclose]), List.any_cons, hclose]
      refine ⟨⟨[f.frame], rfl, fun g hg => ?_⟩, rfl, nofun⟩
      rw [List.mem_singleton.mp hg]
      exact f.isClose_frame.trans hclose
    | false =>
      obtain ⟨⟨closing, hitems, hclosing⟩, hended, hrest⟩ :=
        ih fun g hg => h g (List.mem_cons_of_mem f hg)
      rw [Reader.scan_of_item hread (f.isClose_frame.trans hclose), List.drop_left, beforeClose,
        List.takeWhile_cons_of_pos (by simp [hclose]), List.any_cons, hclose, Bool.false_or]
      refine ⟨⟨closing, ?_, hclosing⟩, hended, hrest⟩
      rw [hitems, List.map_cons, List.cons_append]
      rfl

/-! ## 2. What the server makes of them -/

/-- A close handled does nothing. -/
theorem handleAll_append_closing (s : Shared) (c : Client) (fs : List Frame) {closing : List Frame}
    (h : ∀ f ∈ closing, f.isClose = true) :
    handleAll s c (fs ++ closing) = handleAll s c fs := by
  have hclosing : ∀ (s : Shared) (c : Client), handleAll s c closing = (s, c) := by
    induction closing with
    | nil => exact fun _ _ => rfl
    | cons f closing ih =>
      intro s c
      rw [handleAll_cons, handleFrame_of_close s c (h f List.mem_cons_self)]
      exact ih (fun g hg => h g (List.mem_cons_of_mem f hg)) s c
  rw [handleAll, List.foldl_append]
  exact hclosing _ _

/-- A ping of at most 125 bytes is answered with all of them. -/
theorem pongFrame_of_le {payload : Bytes} (h : payload.length ≤ 125) :
    pongFrame payload = 0x8A :: payload.length.toUInt8 :: payload := by
  rw [pongFrame, Nat.min_eq_left h, List.take_length]

/-- What the server makes of some frames: `r` is its state and the client's after them. -/
structure Understood (fs : List ClientFrame) (s : Shared) (c : Client) (r : Shared × Client) :
    Prop where
  /-- The texts before the first close, queued unchanged and in order, and nothing else. -/
  texts : Queues c.fd c.conn s r.1 (payloads ClientFrame.isText (beforeClose fs))
  /-- The pings before it answered in order, where the backlog permits, and nothing else. -/
  pongs : r.2.out = (payloads ClientFrame.isPing (beforeClose fs)).foldl
    (answerPing s.maxBacklog) c.out
  pong : ∀ p ∈ payloads ClientFrame.isPing (beforeClose fs), p.length ≤ 125 →
    pongFrame p = 0x8A :: p.length.toUInt8 :: p
  dead : r.2.dead = (c.dead || fs.any ClientFrame.isClose)
  empty : fs.any ClientFrame.isClose = false → r.2.inBuf = []
  fd : r.2.fd = c.fd
  isOpen : r.2.isOpen = c.isOpen
  serveOnly : r.2.serveOnly = c.serveOnly

/-- **Frames written are frames understood**: for every list of masked frames of at most 65536
    bytes each, in any of the length forms that hold it, the decoder queues the texts before the
    first close, answers the pings before it, and does nothing else. -/
theorem decodeFrames_wire {fs : List ClientFrame}
    (h : ∀ f ∈ fs, f.payload.length ≤ kMaxFramePayload) (s : Shared) (c : Client) :
    Understood fs s c (decodeFrames s { c with inBuf := wire fs }) := by
  obtain ⟨⟨closing, hitems, hclosing⟩, hended, hrest⟩ := scan_wire h
  have hsame := sameConnection_handleAll s { c with inBuf := wire fs }
    ((beforeClose fs).map ClientFrame.frame)
  have hqueues := handleAll_queues s { c with inBuf := wire fs }
    ((beforeClose fs).map ClientFrame.frame)
  have hout := handleAll_out s { c with inBuf := wire fs }
    ((beforeClose fs).map ClientFrame.frame)
  rw [textsOf_frames] at hqueues
  rw [pingsOf_frames] at hout
  rw [decodeFrames_eq]
  dsimp only
  rw [hitems, handleAll_append_closing _ _ _ hclosing, hended]
  exact ⟨hqueues, hout, fun _ _ hp => pongFrame_of_le hp, rfl, hrest, hsame.fd, hsame.isOpen,
    hsame.serveOnly⟩

/-- A ping, a text in the 64-bit form, a binary frame and a close, with a text behind it. -/
def sampleFrames : List ClientFrame :=
  [{ fin := true, opcode := 9, mask := [1, 2, 3, 4], form := .short, payload := ascii "hi",
     mask_length := by decide, holds := by decide },
   { fin := true, opcode := 1, mask := [5, 6, 7, 8], form := .u64, payload := ascii "text",
     mask_length := by decide, holds := by decide },
   { fin := true, opcode := 2, mask := [0, 0, 0, 0], form := .u16, payload := [0xFF],
     mask_length := by decide, holds := by decide },
   { fin := true, opcode := 8, mask := [9, 9, 9, 9], form := .short, payload := [],
     mask_length := by decide, holds := by decide },
   { fin := true, opcode := 1, mask := [1, 1, 1, 1], form := .short, payload := ascii "late",
     mask_length := by decide, holds := by decide }]

theorem decodeFrames_wire_sample :
    Understood sampleFrames { maxBacklog := 1048576 } { fd := 5, conn := 0, isOpen := true }
      (decodeFrames { maxBacklog := 1048576 }
        { fd := 5, conn := 0, isOpen := true, inBuf := wire sampleFrames }) :=
  decodeFrames_wire (by decide) { maxBacklog := 1048576 } { fd := 5, conn := 0, isOpen := true }

/-! ## 3. The frame writer of ws_cmd.py -/

/-- The text frame ws_cmd.py sends: the shortest form that holds the payload. -/
def wsCmdFrame (mask payload : Bytes) : Bytes :=
  let n := payload.length
  0x81 :: ((if n < 126 then [0x80 ||| n.toUInt8]
    else if n ≤ 0xFFFF then (0x80 ||| 126) :: beBytes 2 n
    else (0x80 ||| 127) :: beBytes 8 n) ++ (mask ++ unmask mask payload))

/-- **What ws_cmd.py sends is a final text frame** in one of the three forms. -/
theorem wsCmdFrame_eq_bytes {mask payload : Bytes} (hmask : mask.length = 4)
    (hlen : payload.length < 256 ^ 8) :
    ∃ f : ClientFrame, f.fin = true ∧ f.isText = true ∧ f.payload = payload ∧
      f.bytes = wsCmdFrame mask payload := by
  have hb0 : ((if true then 0x80 else 0) ||| (1 : Fin 16).val.toUInt8 : UInt8) = 0x81 := by decide
  unfold wsCmdFrame
  dsimp only
  split
  · next hn =>
    have hlen7 : (LengthForm.short.len7 payload.length).val = payload.length :=
      Nat.mod_eq_of_lt (Nat.lt_trans hn (by decide))
    refine ⟨⟨true, 1, mask, .short, payload, hmask, hn⟩, rfl, rfl, rfl, ?_⟩
    rw [ClientFrame.bytes, hlen7, hb0]
    rfl
  · split
    · next hn =>
      refine ⟨⟨true, 1, mask, .u16, payload, hmask, Nat.lt_succ_of_le hn⟩, rfl, rfl, rfl, ?_⟩
      rw [ClientFrame.bytes, hb0]
      rfl
    · refine ⟨⟨true, 1, mask, .u64, payload, hmask, hlen⟩, rfl, rfl, rfl, ?_⟩
      rw [ClientFrame.bytes, hb0]
      rfl

end OddsEngine.Ws
