/-
  File:      OddsEngine/Engine/WsBacklog.lean
  Subject:   How much the dashboard server holds for one connection (engine/WsServer.hpp).

  `Bounded` is an invariant of connections: `out` never holds more than the backlog allows, where
  that has room for the two responses; `in` never more than a request and a chunk before the
  handshake, and a frame short of a byte and a chunk after it (`bounded_of_reachable`). So the test
  for 128 KiB in `on_readable` never succeeds.
-/
import OddsEngine.Engine.WsChunks

namespace OddsEngine.Ws

open Lib

/-! ## 1. The queue, and what the buffers ever held -/

/-- What `out` holds, and what the buffers ever held. -/
structure Held (maxBacklog : UInt64) (c : Client) : Prop where
  out : c.out.length ≤ maxBacklog.toNat
  outPeak : c.hist.outPeak ≤ maxBacklog.toNat
  requestPeak : c.hist.requestPeak ≤ 16384 + 4096
  framePeak : c.hist.framePeak ≤ kMaxFramePayload + 13 + 4096

variable {maxBacklog : UInt64}

theorem Held.flushed {c c' : Client} (h : Held maxBacklog c) (hf : Flushed c c') :
    Held maxBacklog c' where
  out := Nat.le_trans hf.length_le h.out
  outPeak := hf.outPeak ▸ h.outPeak
  requestPeak := hf.requestPeak ▸ h.requestPeak
  framePeak := hf.framePeak ▸ h.framePeak

/-- What fits the backlog may be queued. -/
theorem Held.enqueue {c : Client} (h : Held maxBacklog c) {bytes : Bytes}
    (hfits : c.out.length + bytes.length ≤ maxBacklog.toNat) :
    Held maxBacklog (c.enqueue bytes) := by
  have hlen : (c.out ++ bytes).length ≤ maxBacklog.toNat := by
    rw [List.length_append]
    exact hfits
  exact ⟨hlen, Nat.max_le.mpr ⟨h.outPeak, hlen⟩, h.requestPeak, h.framePeak⟩

theorem Held.respond {c : Client} (h : Held maxBacklog c) {resp : Bytes}
    (hresp : resp.length ≤ maxBacklog.toNat) : Held maxBacklog (c.respond resp) :=
  ⟨hresp, Nat.max_le.mpr ⟨h.outPeak, hresp⟩, h.requestPeak, h.framePeak⟩

/-- A pong that does not fit is not queued. -/
theorem Held.pong {c : Client} (h : Held maxBacklog c) (payload : Bytes) :
    Held maxBacklog (c.pong maxBacklog payload) := by
  have hnoted : Held maxBacklog
      { c with hist := { c.hist with pings := c.hist.pings ++ [payload] } } :=
    ⟨h.out, h.outPeak, h.requestPeak, h.framePeak⟩
  unfold Client.pong
  dsimp only
  split
  · next hfits => exact hnoted.enqueue hfits
  · exact hnoted

theorem Held.receive {c : Client} (h : Held maxBacklog c) {bytes : Bytes}
    (hrequest : c.isOpen = false → (c.inBuf ++ bytes).length ≤ 16384 + 4096)
    (hframes : c.isOpen = true → (c.inBuf ++ bytes).length ≤ kMaxFramePayload + 13 + 4096) :
    Held maxBacklog (c.receive bytes) := by
  unfold Client.receive
  cases hopen : c.isOpen with
  | false =>
    exact ⟨h.out, h.outPeak, Nat.max_le.mpr ⟨h.requestPeak, hrequest hopen⟩, h.framePeak⟩
  | true =>
    exact ⟨h.out, h.outPeak, h.requestPeak, Nat.max_le.mpr ⟨h.framePeak, hframes hopen⟩⟩

/-! ## 2. The invariant -/

/-- What a connection holds, and ever held. -/
structure Bounded (maxBacklog : UInt64) (c : Client) : Prop extends Held maxBacklog c where
  request : c.isOpen = false → c.inBuf.length ≤ 16384 + 4096
  frames : c.isOpen = true → c.inBuf.length ≤ kMaxFramePayload + 13 + 4096
  /-- What is no request yet is no longer than a request may be. -/
  junk : c.dead = false → c.isOpen = false → c.inBuf.length ≤ 16384
  partialFrame : Partial c

theorem Bounded.kill {c : Client} (h : Bounded maxBacklog c) : Bounded maxBacklog c.kill :=
  ⟨h.toHeld.flushed (flushed_kill c), h.request, h.frames, nofun, nofun⟩

theorem Bounded.flushed {c c' : Client} (h : Bounded maxBacklog c) (hf : Flushed c c') :
    Bounded maxBacklog c' := by
  refine ⟨h.toHeld.flushed hf, fun ho => ?_, fun ho => ?_, fun hd ho => ?_, fun hd ho => ?_⟩
  · rw [hf.inBuf]
    exact h.request (hf.isOpen ▸ ho)
  · rw [hf.inBuf]
    exact h.frames (hf.isOpen ▸ ho)
  · rw [hf.inBuf]
    exact h.junk (hf.dead hd) (hf.isOpen ▸ ho)
  · rw [hf.inBuf]
    exact h.partialFrame (hf.dead hd) (hf.isOpen ▸ ho)

theorem Bounded.waiting {c : Client} (h : Bounded maxBacklog c) (halive : c.dead = false)
    (hopen : c.isOpen = true) : c.Waiting := ⟨hopen, halive, h.partialFrame halive hopen⟩

/-- A chunk received leaves the buffer below its bound. -/
theorem Bounded.length_receive {c : Client} (h : Bounded maxBacklog c) (halive : c.dead = false)
    (b : Chunk) :
    (c.isOpen = false → (c.inBuf ++ b.bytes).length ≤ 16384 + 4096) ∧
      (c.isOpen = true → (c.inBuf ++ b.bytes).length ≤ kMaxFramePayload + 13 + 4096) := by
  refine ⟨fun hopen => ?_, fun hopen => (h.waiting halive hopen).length_le b⟩
  have hbuf := h.junk halive hopen
  have hchunk := b.length_le
  rw [List.length_append]
  omega

theorem Bounded.held_receive {c : Client} (h : Bounded maxBacklog c) (halive : c.dead = false)
    (b : Chunk) : Held maxBacklog (c.receive b.bytes) :=
  h.toHeld.receive (h.length_receive halive b).1 (h.length_receive halive b).2

/-- A client that answered a request has an empty buffer. -/
theorem bounded_of_held {c : Client} (h : Held maxBacklog c) (hbuf : c.inBuf = []) :
    Bounded maxBacklog c := by
  refine ⟨h, fun _ => ?_, fun _ => ?_, fun _ _ => ?_, fun _ _ => ?_⟩
  · rw [hbuf]
    exact Nat.zero_le _
  · rw [hbuf]
    exact Nat.zero_le _
  · rw [hbuf]
    exact Nat.zero_le _
  · rw [hbuf]
    rfl

/-- Frames decoded leave less than they found, and queue no more than fits. -/
theorem Bounded.decodeFrames {c : Client} (h : Bounded maxBacklog c) (halive : c.dead = false)
    (hopen : c.isOpen = true) (b : Chunk) {s : Shared} (hs : s.maxBacklog = maxBacklog) :
    Bounded maxBacklog (decodeFrames s (c.receive b.bytes)).2 := by
  have hread := reads_chunk s (h.waiting halive hopen) b
  have hlen := (h.length_receive halive b).2 hopen
  have hrest := frameReader.length_rest_le Frame.isClose (c.inBuf ++ b.bytes)
  have hpong : ∀ c' payload, Held maxBacklog c' → Held maxBacklog (c'.pong s.maxBacklog payload) :=
    fun c' payload h' => hs ▸ h'.pong payload
  have hheld : Held maxBacklog (Ws.decodeFrames s (c.receive b.bytes)).2 := by
    rw [decodeFrames_eq]
    have hall := handleAll_client (frameReader.scan Frame.isClose (c.receive b.bytes).inBuf).items
      hpong (h.held_receive halive b)
    exact ⟨hall.out, hall.outPeak, hall.requestPeak, hall.framePeak⟩
  have hbuf : (Ws.decodeFrames s (c.receive b.bytes)).2.inBuf =
      (frameReader.scan Frame.isClose (c.inBuf ++ b.bytes)).rest := by
    rw [decodeFrames_eq]
    rfl
  refine ⟨hheld, fun ho => ?_, fun _ => ?_, fun _ ho => ?_, fun hd _ => ?_⟩
  · rw [hread.isOpen] at ho
    cases ho
  · rw [hbuf]
    exact Nat.le_trans hrest hlen
  · rw [hread.isOpen] at ho
    cases ho
  · exact (hread.waiting hd).partialFrame

theorem bounded_readLoop (hpage : pageResponse.length ≤ maxBacklog.toNat)
    (hupgrade : ∀ key, (switchingProtocols key).length ≤ maxBacklog.toNat)
    (sends : List SendResult) :
    ReadLoop maxBacklog sends (fun _ c => c.dead = false ∧ Bounded maxBacklog c)
      (Bounded maxBacklog) where
  drained _ h := h.2
  eof _ _ h := h.2.kill
  junk c b _ h hopen _ := by
    have hheld := (h.2.held_receive h.1 b).flushed (flushed_kill _)
    have hopen' : (c.receive b.bytes).kill.isOpen = false := hopen
    refine ⟨hheld, fun _ => (h.2.length_receive h.1 b).1 hopen, fun ho => ?_, nofun, nofun⟩
    rw [hopen'] at ho
    cases ho
  request c b _ h hopen hle _ := by
    have hopen' : (c.receive b.bytes).isOpen = false := hopen
    refine ⟨h.1, h.2.held_receive h.1 b, fun _ => (h.2.length_receive h.1 b).1 hopen, fun ho => ?_,
      fun _ _ => hle, fun _ ho => ?_⟩
    · rw [hopen'] at ho
      cases ho
    · rw [hopen'] at ho
      cases ho
  answer s c b _ h _ _ _ _ := by
    have hheld := h.2.held_receive h.1 b
    rcases handshake_cases s (c.receive b.bytes) sends with e | ⟨key, e⟩
    · rw [e]
      have hpage' := hheld.respond hpage
      have hbounded : Bounded maxBacklog
          { (c.receive b.bytes).respond pageResponse with serveOnly := true } :=
        bounded_of_held ⟨hpage'.out, hpage'.outPeak, hpage'.requestPeak, hpage'.framePeak⟩ rfl
      exact hbounded.flushed (flushed_flush _ sends)
    · rw [e]
      have hupgrade' := hheld.respond (hupgrade key)
      have hbounded : Bounded maxBacklog
          { (c.receive b.bytes).respond (switchingProtocols key) with isOpen := true } :=
        bounded_of_held ⟨hupgrade'.out, hupgrade'.outPeak, hupgrade'.requestPeak,
          hupgrade'.framePeak⟩ rfl
      exact hbounded.flushed (flushed_flush _ sends)
  overflow c b _ h hopen hover := by
    -- out of reach: a client that waits holds less than a frame
    have hlen := (h.2.length_receive h.1 b).2 hopen
    have hkMax : kMaxFramePayload = 65536 := rfl
    omega
  frames s c b _ h hopen _ hs :=
    ⟨fun _ => h.2.decodeFrames h.1 hopen b hs, fun halive => ⟨halive,
      h.2.decodeFrames h.1 hopen b hs⟩⟩

theorem bounded_invariant (hpage : pageResponse.length ≤ maxBacklog.toNat)
    (hupgrade : ∀ key, (switchingProtocols key).length ≤ maxBacklog.toNat) :
    ClientInvariant maxBacklog (fun _ _ => True) (Bounded maxBacklog) where
  fresh _ _ := bounded_of_held ⟨Nat.zero_le _, Nat.zero_le _, Nat.zero_le _, Nat.zero_le _⟩ rfl
  kill _ h := h.kill
  flush c sends h := h.flushed (flushed_flush c sends)
  queue _ _ h _ _ hfits :=
    ⟨h.toHeld.enqueue hfits, h.request, h.frames, h.junk, h.partialFrame⟩
  read _ _ _ h halive _ _ _ hs := (bounded_readLoop hpage hupgrade _).onReadable hs ⟨halive, h⟩

/-! ## 3. Every run -/

/-- **What a server holds for a connection is bounded**: `out` by the backlog, `in` by a request
    and a chunk before the handshake and by a frame and a chunk after it, at every moment of every
    run (the peaks are taken at every write); so `in` never exceeds 128 KiB, and `on_readable`
    closes no connection for it. -/
theorem bounded_of_reachable {σ : Type} {handler : Option (CommandHandler σ)} {st₀ st : σ}
    {srv : Server} (hpage : pageResponse.length ≤ maxBacklog.toNat)
    (hupgrade : ∀ key, (switchingProtocols key).length ≤ maxBacklog.toNat)
    (h : Server.Reachable handler maxBacklog st₀ (fun _ _ => True) srv st) :
    ∀ c ∈ srv.clients ++ srv.closed,
      (c.out.length ≤ maxBacklog.toNat ∧ c.hist.outPeak ≤ maxBacklog.toNat) ∧
      (c.isOpen = false → c.inBuf.length ≤ 16384 + 4096) ∧
      c.hist.requestPeak ≤ 16384 + 4096 ∧
      (c.isOpen = true → c.inBuf.length ≤ 64 * 1024 + 13 + 4096) ∧
      c.hist.framePeak ≤ 64 * 1024 + 13 + 4096 ∧
      c.hist.framePeak ≤ kMaxFramePayload * 2 := by
  intro c hc
  obtain ⟨hall, -⟩ := (bounded_invariant hpage hupgrade).reachable (fun _ _ _ _ _ => trivial) h
  have hb : Bounded maxBacklog c := by
    rcases List.mem_append.mp hc with hc | hc
    · exact hall.clients c hc
    · exact hall.closed c hc
  exact ⟨⟨hb.out, hb.outPeak⟩, hb.request, hb.requestPeak, hb.frames, hb.framePeak,
    hb.framePeak.trans (by decide)⟩

/-- The engine's own server, one round after its start. -/
theorem bounded_upgradedServer :
    ∃ c ∈ upgradedServer.clients,
      (c.out.length ≤ (1048576 : UInt64).toNat ∧
        c.hist.outPeak ≤ (1048576 : UInt64).toNat) ∧
      (c.isOpen = false → c.inBuf.length ≤ 16384 + 4096) ∧
      c.hist.requestPeak ≤ 16384 + 4096 ∧
      (c.isOpen = true → c.inBuf.length ≤ 64 * 1024 + 13 + 4096) ∧
      c.hist.framePeak ≤ 64 * 1024 + 13 + 4096 ∧
      c.hist.framePeak ≤ kMaxFramePayload * 2 := by
  have hmax : (1048576 : UInt64).toNat = 1048576 := rfl
  have hpage : pageResponse.length ≤ (1048576 : UInt64).toNat := by
    rw [length_pageResponse, hmax]
    omega
  have hupgrade : ∀ key, (switchingProtocols key).length ≤ (1048576 : UInt64).toNat := by
    intro key
    rw [length_switchingProtocols, hmax]
    omega
  have hall := bounded_of_reachable hpage hupgrade reachable_upgradedServer
  obtain ⟨c, hc, -⟩ := upgradedServer_client
  exact ⟨c, hc, hall c (List.mem_append_left _ hc)⟩

end OddsEngine.Ws
