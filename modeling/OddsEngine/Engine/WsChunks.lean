/-
  File:      OddsEngine/Engine/WsChunks.lean
  Subject:   The cut of the received stream into chunks does not matter (on_readable and
             decode_frames, engine/WsServer.hpp).

  Between two events every open connection of a reachable server waits: its buffer holds less than a
  frame (`waiting_of_reachable`). From there on, however its stream is cut into chunks and the chunks
  into calls of `on_readable`, the outcome is that of one scan of the stream (`chunks_alike`).
-/
import OddsEngine.Engine.WsRuns

namespace OddsEngine.Ws

open Lib

/-! ## 1. Open connections wait -/

/-- An open connection that is not dead holds less than a frame. -/
def Partial (c : Client) : Prop := c.dead = false → c.isOpen = true → nextFrame c.inBuf = .more

theorem partial_readLoop (maxBacklog : UInt64) (sends : List SendResult) :
    ReadLoop maxBacklog sends (fun _ c => c.dead = false ∧ Partial c) Partial where
  drained _ h := h.2
  eof _ _ _ := nofun
  junk _ _ _ _ _ _ := nofun
  request c b _ h hopen _ _ := by
    refine ⟨h.1, fun _ ho => ?_⟩
    have hclosed : (c.receive b.bytes).isOpen = false := hopen
    rw [hclosed] at ho
    cases ho
  answer s c b _ _ hopen _ _ _ := by
    intro _ ho
    rcases handshake_cases s (c.receive b.bytes) sends with e | ⟨key, e⟩
    · rw [e] at ho
      have hclosed := (flushed_flush
        { (c.receive b.bytes).respond pageResponse with serveOnly := true } sends).isOpen
      rw [ho] at hclosed
      have hopen' : (c.receive b.bytes).isOpen = false := hopen
      exact absurd (hclosed.trans hopen') (by decide)
    · rw [e, (flushed_flush _ sends).inBuf]
      rfl
  overflow _ _ _ _ _ _ := nofun
  frames s c b _ h hopen _ _ := by
    have hread := reads_chunk s ⟨hopen, h.1, h.2 h.1 hopen⟩ b
    refine ⟨fun hdead halive => ?_, fun halive => ⟨halive, fun _ _ => ?_⟩⟩
    · rw [hdead] at halive
      cases halive
    · exact (hread.waiting halive).partialFrame

theorem partial_invariant (maxBacklog : UInt64) :
    ClientInvariant maxBacklog (fun _ _ => True) Partial where
  fresh _ _ := nofun
  kill _ _ := nofun
  flush c sends h hdead hopen := by
    have hf := flushed_flush c sends
    rw [hf.inBuf]
    exact h (hf.dead hdead) (hf.isOpen ▸ hopen)
  queue _ _ h _ _ _ := h
  read _ _ _ h halive _ _ _ hs := (partial_readLoop maxBacklog _).onReadable hs ⟨halive, h⟩

variable {σ : Type} {handler : Option (CommandHandler σ)} {maxBacklog : UInt64} {st₀ st : σ}
  {ok : Server → Round → Prop} {srv : Server}

/-- **Every open connection of a reachable server waits** for the rest of a frame. -/
theorem waiting_of_reachable (h : Server.Reachable handler maxBacklog st₀ ok srv st) {c : Client}
    (hc : c ∈ srv.clients) (hopen : c.isOpen = true) : c.Waiting := by
  obtain ⟨hall, halive⟩ := (partial_invariant maxBacklog).reachable (fun _ _ _ _ _ => trivial) h
  exact ⟨hopen, halive c hc, hall.clients c hc (halive c hc) hopen⟩

/-! ## 2. Two ways to cut a stream -/

/-- A read consumes whole frames only, and stops short of one. -/
structure StopsAtFrame (c : Client) (stream : Bytes) (c' : Client) : Prop where
  whole : ∃ taken unread, WholeFrames taken ∧ taken ++ c'.inBuf ++ unread = c.inBuf ++ stream ∧
    (c'.dead = false → unread = [])
  rest : c'.dead = false → nextFrame c'.inBuf = .more

/-- Two outcomes of reading `stream` that differ in nothing a peer or the engine sees. -/
structure ReadAlike (s : Shared) (c : Client) (stream : Bytes) (r r' : Shared × Client) : Prop where
  texts : ∃ texts, Queues c.fd c.conn s r.1 texts ∧ Queues c.fd c.conn s r'.1 texts
  pings : ∃ pings, r.2.hist.pings = c.hist.pings ++ pings ∧
    r'.2.hist.pings = c.hist.pings ++ pings
  dead : r.2.dead = r'.2.dead
  rest : r.2.dead = false → r.2.inBuf = r'.2.inBuf
  stops : StopsAtFrame c stream r.2 ∧ StopsAtFrame c stream r'.2

theorem Reads.stopsAtFrame {s s' : Shared} {c c' : Client} {stream : Bytes}
    (h : Reads s c stream s' c') : StopsAtFrame c stream c' :=
  ⟨h.whole, fun halive => (h.waiting halive).partialFrame⟩

/-- **However a stream is cut**, into chunks of 1 to 4096 bytes and these into calls of
    `on_readable`, an open connection of any reachable server reads the same texts and the same
    pings from it, dies or not alike, and is left with the same bytes; no part of a frame is
    consumed. -/
theorem chunks_alike (h : Server.Reachable handler maxBacklog st₀ ok srv st) {c : Client}
    (hc : c ∈ srv.clients) (hopen : c.isOpen = true) (s : Shared) (sends : List SendResult)
    {calls calls' : List (List Chunk)} (hbytes : bytesOf calls.flatten = bytesOf calls'.flatten) :
    ReadAlike s c (bytesOf calls.flatten) (readCalls s c sends calls)
      (readCalls s c sends calls') := by
  have hwait := waiting_of_reachable h hc hopen
  have hr := reads_readCalls s hwait sends calls
  have hr' := reads_readCalls s hwait sends calls'
  rw [← hbytes] at hr'
  have hdead : (readCalls s c sends calls).2.dead = (readCalls s c sends calls').2.dead := by
    rw [hr.dead, hr'.dead]
  refine ⟨⟨_, hr.queues, hr'.queues⟩, ⟨_, hr.pings, hr'.pings⟩, hdead, fun halive => ?_,
    hr.stopsAtFrame, hr'.stopsAtFrame⟩
  rw [hr.rest halive, hr'.rest (hdead ▸ halive)]

/-- A ping and the beginning of a text, in two chunks read at once. -/
def twoChunks : List (List Chunk) :=
  [[{ bytes := [0x89, 0x81, 1, 2, 3], nonempty := by decide, length_le := by decide },
    { bytes := [4, 5, 0x81, 0x83], nonempty := by decide, length_le := by decide }]]

/-- The same bytes in three reads. -/
def threeReads : List (List Chunk) :=
  [[{ bytes := [0x89], nonempty := by decide, length_le := by decide }],
   [{ bytes := [0x81, 1, 2, 3, 4], nonempty := by decide, length_le := by decide }],
   [{ bytes := [5, 0x81, 0x83], nonempty := by decide, length_le := by decide }]]

theorem chunks_alike_upgraded : ∃ c ∈ upgradedServer.clients,
    ReadAlike upgradedServer.shared c (bytesOf twoChunks.flatten)
      (readCalls upgradedServer.shared c [] twoChunks)
      (readCalls upgradedServer.shared c [] threeReads) := by
  obtain ⟨c, hc, hopen⟩ := upgradedServer_client
  exact ⟨c, hc, chunks_alike reachable_upgradedServer hc hopen _ _ (by decide)⟩

end OddsEngine.Ws
