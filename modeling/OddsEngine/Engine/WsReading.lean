/-
  File:      OddsEngine/Engine/WsReading.lean
  Subject:   What reading a client comes to (decode_frames and on_readable, engine/WsServer.hpp).

  * `decodeFrames_eq` -- the decoder is the scan of the buffer, and every frame found handled, one
    after the other;
  * `handleAll_pending`, `handleAll_pings` -- what a list of frames queues, and what it answers;
  * `ReadLoop.onReadable` -- the rule for the loop of `on_readable`: what holds before every `recv`,
    and what then holds when it returns;
  * `readCalls_eq` -- any number of reads, each of any number of chunks, come to one scan of all the
    bytes.
-/
import OddsEngine.Engine.WsServer

namespace OddsEngine.Ws

open Lib

/-! ## 1. Frames handled -/

def Frame.isClose (f : Frame) : Bool := f.opcode == 0x8

def Frame.isPing (f : Frame) : Bool := f.opcode == 0x9

def Frame.isText (f : Frame) : Bool := f.opcode == 0x1

/-- The texts among some frames, in order. -/
def textsOf (fs : List Frame) : List Bytes := (fs.filter Frame.isText).map (·.payload)

/-- The payloads of the pings among some frames, in order. -/
def pingsOf (fs : List Frame) : List Bytes := (fs.filter Frame.isPing).map (·.payload)

def handleAll (s : Shared) (c : Client) (fs : List Frame) : Shared × Client :=
  fs.foldl (fun r f => handleFrame r.1 r.2 f) (s, c)

/-- The three kinds of frame that are not a close. -/
theorem handleFrame_cases (s : Shared) (c : Client) (f : Frame) :
    (f.isPing = true ∧ f.isText = false ∧
      handleFrame s c f = (s, c.pong s.maxBacklog f.payload)) ∨
    (f.isPing = false ∧ f.isText = true ∧
      handleFrame s c f = (s.queue ⟨c.fd, f.payload, c.conn⟩, c)) ∨
    (f.isPing = false ∧ f.isText = false ∧ handleFrame s c f = (s, c)) := by
  unfold handleFrame Frame.isPing Frame.isText
  by_cases h9 : f.opcode = 0x9
  · have h1 : (f.opcode == 0x1) = false := by rw [h9]; decide
    exact Or.inl ⟨beq_iff_eq.mpr h9, h1, if_pos h9⟩
  · have h9' : (f.opcode == 0x9) = false := beq_eq_false_iff_ne.mpr h9
    rw [if_neg h9]
    by_cases h1 : f.opcode = 0x1
    · exact Or.inr (Or.inl ⟨h9', beq_iff_eq.mpr h1, if_pos h1⟩)
    · exact Or.inr (Or.inr ⟨h9', beq_eq_false_iff_ne.mpr h1, if_neg h1⟩)

/-- A close is not handled: it does nothing here. -/
theorem handleFrame_of_close (s : Shared) (c : Client) {f : Frame} (h : f.isClose = true) :
    handleFrame s c f = (s, c) := by
  have h8 : f.opcode = 0x8 := beq_iff_eq.mp h
  unfold handleFrame
  rw [h8]
  rfl

/-- The buffer takes no part in the handling of a frame. -/
theorem handleFrame_withInBuf (s : Shared) (c : Client) (f : Frame) (bs : Bytes) :
    handleFrame s { c with inBuf := bs } f =
      ((handleFrame s c f).1, { (handleFrame s c f).2 with inBuf := bs }) := by
  unfold handleFrame
  split
  · unfold Client.pong
    dsimp only
    split
    · rfl
    · rfl
  · split
    · rfl
    · rfl

theorem handleAll_cons (s : Shared) (c : Client) (f : Frame) (fs : List Frame) :
    handleAll s c (f :: fs) = handleAll (handleFrame s c f).1 (handleFrame s c f).2 fs := rfl

theorem handleAll_withInBuf (s : Shared) (c : Client) (fs : List Frame) (bs : Bytes) :
    handleAll s { c with inBuf := bs } fs =
      ((handleAll s c fs).1, { (handleAll s c fs).2 with inBuf := bs }) := by
  induction fs generalizing s c with
  | nil => rfl
  | cons f fs ih =>
    rw [handleAll_cons, handleFrame_withInBuf, handleAll_cons]
    exact ih _ _

/-- A property of clients that every pong keeps is kept by any frames handled. -/
theorem handleAll_client {P : Client → Prop} {s : Shared} {c : Client} (fs : List Frame)
    (hpong : ∀ c payload, P c → P (c.pong s.maxBacklog payload)) (h : P c) :
    P (handleAll s c fs).2 := by
  induction fs generalizing s c with
  | nil => exact h
  | cons f fs ih =>
    rw [handleAll_cons]
    rcases handleFrame_cases s c f with ⟨-, -, e⟩ | ⟨-, -, e⟩ | ⟨-, -, e⟩
    · rw [e]
      exact ih hpong (hpong c f.payload h)
    · rw [e]
      exact ih hpong h
    · rw [e]
      exact ih hpong h

/-- What handling frames leaves alone. -/
structure SameConnection (c c' : Client) : Prop where
  fd : c'.fd = c.fd
  conn : c'.conn = c.conn
  isOpen : c'.isOpen = c.isOpen
  dead : c'.dead = c.dead
  serveOnly : c'.serveOnly = c.serveOnly
  inBuf : c'.inBuf = c.inBuf

theorem sameConnection_pong (maxBacklog : UInt64) (c : Client) (payload : Bytes) :
    SameConnection c (c.pong maxBacklog payload) := by
  unfold Client.pong
  dsimp only
  split
  · exact ⟨rfl, rfl, rfl, rfl, rfl, rfl⟩
  · exact ⟨rfl, rfl, rfl, rfl, rfl, rfl⟩

theorem SameConnection.trans {c c' c'' : Client} (h : SameConnection c c')
    (h' : SameConnection c' c'') : SameConnection c c'' where
  fd := h'.fd.trans h.fd
  conn := h'.conn.trans h.conn
  isOpen := h'.isOpen.trans h.isOpen
  dead := h'.dead.trans h.dead
  serveOnly := h'.serveOnly.trans h.serveOnly
  inBuf := h'.inBuf.trans h.inBuf

theorem sameConnection_handleAll (s : Shared) (c : Client) (fs : List Frame) :
    SameConnection c (handleAll s c fs).2 :=
  handleAll_client fs (fun c' payload h => h.trans (sameConnection_pong _ c' payload))
    ⟨rfl, rfl, rfl, rfl, rfl, rfl⟩

/-- What some frames add to the fields of the server: their texts, as commands of the client. -/
structure Queues (fd conn : Nat) (s s' : Shared) (texts : List Bytes) : Prop where
  maxBacklog : s'.maxBacklog = s.maxBacklog
  pending : s'.pending = s.pending ++ texts.map (⟨fd, ·, conn⟩)
  decoded : s'.decoded = s.decoded ++ texts.map (⟨fd, ·, conn⟩)
  commands : s'.commands = s.commands + UInt64.ofNat texts.length
  dropped : s'.dropped = s.dropped
  pages : s'.pages = s.pages

theorem Queues.refl (fd conn : Nat) (s : Shared) : Queues fd conn s s [] :=
  ⟨rfl, (List.append_nil _).symm, (List.append_nil _).symm, (UInt64.add_zero _).symm, rfl, rfl⟩

theorem Queues.trans {fd conn : Nat} {s s' s'' : Shared} {texts texts' : List Bytes}
    (h : Queues fd conn s s' texts) (h' : Queues fd conn s' s'' texts') :
    Queues fd conn s s'' (texts ++ texts') where
  maxBacklog := h'.maxBacklog.trans h.maxBacklog
  pending := by rw [h'.pending, h.pending, List.map_append, List.append_assoc]
  decoded := by rw [h'.decoded, h.decoded, List.map_append, List.append_assoc]
  commands := by
    rw [h'.commands, h.commands, List.length_append, UInt64.ofNat_add, UInt64.add_assoc]
  dropped := h'.dropped.trans h.dropped
  pages := h'.pages.trans h.pages

/-- **Frames handled queue their texts**, in order, as commands of the client they came from. -/
theorem handleAll_queues (s : Shared) (c : Client) (fs : List Frame) :
    Queues c.fd c.conn s (handleAll s c fs).1 (textsOf fs) := by
  induction fs generalizing s c with
  | nil => exact Queues.refl _ _ s
  | cons f fs ih =>
    rw [handleAll_cons]
    rcases handleFrame_cases s c f with ⟨-, ht, e⟩ | ⟨-, ht, e⟩ | ⟨-, ht, e⟩
    · have hconn := sameConnection_pong s.maxBacklog c f.payload
      have hrest := ih s (c.pong s.maxBacklog f.payload)
      rw [hconn.fd, hconn.conn] at hrest
      rw [e, textsOf, List.filter_cons_of_neg (by simp [ht])]
      exact hrest
    · have hone : Queues c.fd c.conn s (s.queue ⟨c.fd, f.payload, c.conn⟩) [f.payload] :=
        ⟨rfl, rfl, rfl, rfl, rfl, rfl⟩
      rw [e, textsOf, List.filter_cons_of_pos ht]
      exact hone.trans (ih _ c)
    · rw [e, textsOf, List.filter_cons_of_neg (by simp [ht])]
      exact ih s c

/-- **Frames handled hand their pings to `pong`**, in order. -/
theorem handleAll_pings (s : Shared) (c : Client) (fs : List Frame) :
    (handleAll s c fs).2.hist.pings = c.hist.pings ++ pingsOf fs := by
  induction fs generalizing s c with
  | nil => exact (List.append_nil _).symm
  | cons f fs ih =>
    rw [handleAll_cons, ih]
    rcases handleFrame_cases s c f with ⟨hp, -, e⟩ | ⟨hp, -, e⟩ | ⟨hp, -, e⟩
    · have hpong : (c.pong s.maxBacklog f.payload).hist.pings = c.hist.pings ++ [f.payload] := by
        unfold Client.pong
        dsimp only
        split
        · rfl
        · rfl
      rw [e, pingsOf, pingsOf, List.filter_cons_of_pos hp, hpong, List.append_assoc]
      rfl
    · rw [e, pingsOf, pingsOf, List.filter_cons_of_neg (by simp [hp])]
    · rw [e, pingsOf, pingsOf, List.filter_cons_of_neg (by simp [hp])]

/-- What a ping leaves in the queue: its pong, or nothing where the backlog is full. -/
def answerPing (maxBacklog : UInt64) (out payload : Bytes) : Bytes :=
  if out.length + (pongFrame payload).length ≤ maxBacklog.toNat then out ++ pongFrame payload
  else out

theorem pong_out (maxBacklog : UInt64) (c : Client) (payload : Bytes) :
    (c.pong maxBacklog payload).out = answerPing maxBacklog c.out payload := by
  unfold Client.pong answerPing
  dsimp only
  split
  · rfl
  · rfl

/-- **Frames handled answer their pings**, in order, and put nothing else into the queue. -/
theorem handleAll_out (s : Shared) (c : Client) (fs : List Frame) :
    (handleAll s c fs).2.out = (pingsOf fs).foldl (answerPing s.maxBacklog) c.out := by
  induction fs generalizing s c with
  | nil => rfl
  | cons f fs ih =>
    rw [handleAll_cons, ih]
    rcases handleFrame_cases s c f with ⟨hp, -, e⟩ | ⟨hp, -, e⟩ | ⟨hp, -, e⟩
    · rw [e, pingsOf, pingsOf, List.filter_cons_of_pos hp, pong_out]
      rfl
    · rw [e, pingsOf, pingsOf, List.filter_cons_of_neg (by simp [hp])]
      rfl
    · rw [e, pingsOf, pingsOf, List.filter_cons_of_neg (by simp [hp])]

/-! ## 2. The decoder -/

/-- **The decoder is the scan of the buffer**: every frame found is handled, one after the other;
    what is left stays in the buffer, and the client is dead where the scan came to an end. -/
theorem decodeFrames_eq (s : Shared) (c : Client) :
    decodeFrames s c =
      ((handleAll s c (frameReader.scan Frame.isClose c.inBuf).items).1,
        { (handleAll s c (frameReader.scan Frame.isClose c.inBuf).items).2 with
          inBuf := (frameReader.scan Frame.isClose c.inBuf).rest
          dead := c.dead || (frameReader.scan Frame.isClose c.inBuf).ended }) := by
  generalize hbs : c.inBuf = bs
  induction bs using frameReader.scan_induction Frame.isClose generalizing s c with
  | more bs hr =>
    subst hbs
    have hr' : nextFrame c.inBuf = .more := hr
    rw [Reader.scan_of_more hr, decodeFrames]
    split
    · simp [handleAll]
    · next e => rw [hr'] at e; cases e
    · next e => rw [hr'] at e; cases e
  | fail bs hr =>
    subst hbs
    have hr' : nextFrame c.inBuf = .fail := hr
    rw [Reader.scan_of_fail hr, decodeFrames]
    split
    · next e => rw [hr'] at e; cases e
    · simp [handleAll, Client.kill]
    · next e => rw [hr'] at e; cases e
  | final bs f n hr hf =>
    subst hbs
    have hr' : nextFrame c.inBuf = .item f n := hr
    have h8 : f.opcode = 0x8 := beq_iff_eq.mp hf
    rw [Reader.scan_of_last hr hf, decodeFrames]
    split
    · next e => rw [hr'] at e; cases e
    · next e => rw [hr'] at e; cases e
    · next e =>
      rw [hr'] at e
      cases e
      have hnone : handleAll s c [f] = (s, c) := handleFrame_of_close s c hf
      rw [if_pos h8, hnone]
      simp [Client.kill]
  | item bs f n hr hf ih =>
    subst hbs
    have hr' : nextFrame c.inBuf = .item f n := hr
    have h8 : ¬ f.opcode = 0x8 := beq_eq_false_iff_ne.mp hf
    rw [Reader.scan_of_item hr hf, decodeFrames]
    split
    · next e => rw [hr'] at e; cases e
    · next e => rw [hr'] at e; cases e
    · next e =>
      rw [hr'] at e
      cases e
      have hbuf : (handleFrame s { c with inBuf := c.inBuf.drop n } f).2.inBuf =
          c.inBuf.drop n := handleFrame_inBuf _ _ _
      have hdead : (handleFrame s { c with inBuf := c.inBuf.drop n } f).2.dead = c.dead :=
        (sameConnection_handleAll s { c with inBuf := c.inBuf.drop n } [f]).dead
      rw [if_neg h8, ih _ _ hbuf, hdead, handleAll_cons]
      rw [handleFrame_withInBuf, handleAll_withInBuf]

/-! ## 3. Reading an open connection -/

/-- An open client between two reads: what its buffer holds is less than a frame. -/
structure Client.Waiting (c : Client) : Prop where
  isOpen : c.isOpen = true
  alive : c.dead = false
  partialFrame : nextFrame c.inBuf = .more

/-- `taken` is whole frames, one behind the other. -/
def WholeFrames (taken : Bytes) : Prop :=
  ∃ parts : List Bytes, taken = parts.flatten ∧ ∀ p ∈ parts, ∃ f, nextFrame p = .item f p.length

theorem WholeFrames.append {a b : Bytes} (ha : WholeFrames a) (hb : WholeFrames b) :
    WholeFrames (a ++ b) := by
  obtain ⟨pa, rfl, hpa⟩ := ha
  obtain ⟨pb, rfl, hpb⟩ := hb
  refine ⟨pa ++ pb, List.flatten_append.symm, fun p hp => ?_⟩
  rcases List.mem_append.mp hp with hp | hp
  · exact hpa p hp
  · exact hpb p hp

/-- What receiving `stream` comes to for an open client: one scan of the buffer and the stream. -/
structure Reads (s : Shared) (c : Client) (stream : Bytes) (s' : Shared) (c' : Client) : Prop where
  queues : Queues c.fd c.conn s s'
    (textsOf (frameReader.scan Frame.isClose (c.inBuf ++ stream)).items)
  pings : c'.hist.pings =
    c.hist.pings ++ pingsOf (frameReader.scan Frame.isClose (c.inBuf ++ stream)).items
  dead : c'.dead = (frameReader.scan Frame.isClose (c.inBuf ++ stream)).ended
  rest : c'.dead = false → c'.inBuf = (frameReader.scan Frame.isClose (c.inBuf ++ stream)).rest
  /-- What left the buffer is whole frames; a dead client may leave some of the stream unread. -/
  whole : ∃ taken unread, WholeFrames taken ∧ taken ++ c'.inBuf ++ unread = c.inBuf ++ stream ∧
    (c'.dead = false → unread = [])
  fd : c'.fd = c.fd
  conn : c'.conn = c.conn
  isOpen : c'.isOpen = true

/-- An open client that is not dead after a read waits again. -/
theorem Reads.waiting {s s' : Shared} {c c' : Client} {stream : Bytes}
    (h : Reads s c stream s' c') (halive : c'.dead = false) : c'.Waiting := by
  refine ⟨h.isOpen, halive, ?_⟩
  rw [h.rest halive]
  exact frameReader.read_rest Frame.isClose _ (h.dead ▸ halive)

theorem textsOf_append (fs gs : List Frame) : textsOf (fs ++ gs) = textsOf fs ++ textsOf gs := by
  rw [textsOf, List.filter_append, List.map_append]
  rfl

theorem pingsOf_append (fs gs : List Frame) : pingsOf (fs ++ gs) = pingsOf fs ++ pingsOf gs := by
  rw [pingsOf, List.filter_append, List.map_append]
  rfl

theorem Reads.nil {s : Shared} {c : Client} (h : c.Waiting) : Reads s c [] s c := by
  have hscan : frameReader.scan Frame.isClose (c.inBuf ++ []) = ⟨[], c.inBuf, false⟩ := by
    rw [List.append_nil]
    exact Reader.scan_of_more h.partialFrame
  refine ⟨?_, ?_, ?_, ?_, ?_, rfl, rfl, h.isOpen⟩
  · rw [hscan]
    exact Queues.refl _ _ s
  · rw [hscan]
    exact (List.append_nil _).symm
  · rw [hscan]
    exact h.alive
  · intro _
    rw [hscan]
  · exact ⟨[], [], ⟨[], rfl, nofun⟩, rfl, fun _ => rfl⟩

/-- **What a dead client has read stands**: further bytes change nothing of it. -/
theorem Reads.dead_append {s s' : Shared} {c c' : Client} {stream : Bytes}
    (h : Reads s c stream s' c') (hdead : c'.dead = true) (more : Bytes) :
    Reads s c (stream ++ more) s' c' := by
  obtain ⟨hitems, hended⟩ :=
    (frameReader.scan_append Frame.isClose (c.inBuf ++ stream) more).1 (h.dead ▸ hdead)
  rw [List.append_assoc] at hitems hended
  obtain ⟨taken, unread, hwhole, hbytes, -⟩ := h.whole
  refine ⟨?_, ?_, ?_, ?_, ?_, h.fd, h.conn, h.isOpen⟩
  · rw [hitems]
    exact h.queues
  · rw [hitems]
    exact h.pings
  · rw [hended]
    exact hdead
  · intro halive
    rw [hdead] at halive
    cases halive
  · refine ⟨taken, unread ++ more, hwhole, ?_, fun halive => ?_⟩
    · rw [← List.append_assoc, hbytes, List.append_assoc]
    · rw [hdead] at halive
      cases halive

/-- Reading on from where a read left off is reading all of it. -/
theorem Reads.trans {s s' s'' : Shared} {c c' c'' : Client} {stream more : Bytes}
    (h : Reads s c stream s' c') (halive : c'.dead = false) (h' : Reads s' c' more s'' c'') :
    Reads s c (stream ++ more) s'' c'' := by
  have hscan := (frameReader.scan_append Frame.isClose (c.inBuf ++ stream) more).2
    (h.dead ▸ halive)
  rw [List.append_assoc, ← h.rest halive] at hscan
  obtain ⟨taken, unread, hwhole, hbytes, hunread⟩ := h.whole
  obtain ⟨taken', unread', hwhole', hbytes', hunread'⟩ := h'.whole
  refine ⟨?_, ?_, ?_, ?_, ?_, h'.fd.trans h.fd, h'.conn.trans h.conn, h'.isOpen⟩
  · rw [hscan, textsOf_append]
    have hq := h'.queues
    rw [h.fd, h.conn] at hq
    exact h.queues.trans hq
  · rw [hscan, pingsOf_append, h'.pings, h.pings, List.append_assoc]
  · rw [hscan]
    exact h'.dead
  · intro h''
    rw [hscan]
    exact h'.rest h''
  · refine ⟨taken ++ taken', unread', hwhole.append hwhole', ?_, hunread'⟩
    rw [hunread halive, List.append_nil] at hbytes
    rw [List.append_assoc taken, List.append_assoc taken, hbytes', ← List.append_assoc taken,
      hbytes, List.append_assoc]

/-- The kill switch of `on_readable` is out of reach of a client that waits. -/
theorem Client.Waiting.length_le {c : Client} (h : c.Waiting) (chunk : Chunk) :
    (c.inBuf ++ chunk.bytes).length ≤ kMaxFramePayload + 13 + 4096 := by
  have hbuf := nextFrame_more h.partialFrame
  have hchunk := chunk.length_le
  rw [List.length_append]
  omega

/-- The bytes of some chunks, in order. -/
def bytesOf (chunks : List Chunk) : Bytes := (chunks.map (·.bytes)).flatten

/-- One chunk received by a client that waits. -/
theorem reads_chunk (s : Shared) {c : Client} (h : c.Waiting) (chunk : Chunk) :
    Reads s c chunk.bytes (decodeFrames s (c.receive chunk.bytes)).1
      (decodeFrames s (c.receive chunk.bytes)).2 := by
  have hbuf : (c.receive chunk.bytes).inBuf = c.inBuf ++ chunk.bytes := rfl
  have hsame := sameConnection_handleAll s (c.receive chunk.bytes)
    (frameReader.scan Frame.isClose (c.inBuf ++ chunk.bytes)).items
  have hpings : (c.receive chunk.bytes).hist.pings = c.hist.pings := by
    unfold Client.receive
    dsimp only
    rw [if_pos h.isOpen]
  obtain ⟨parts, hbytes, -, hparts⟩ :=
    frameReader.scan_whole Frame.isClose (c.inBuf ++ chunk.bytes)
  rw [decodeFrames_eq, hbuf]
  refine ⟨handleAll_queues s (c.receive chunk.bytes) _, ?_, ?_, fun _ => rfl, ?_, hsame.fd,
    hsame.conn, hsame.isOpen.trans h.isOpen⟩
  · show (handleAll s (c.receive chunk.bytes) _).2.hist.pings = _
    rw [handleAll_pings, hpings]
  · show ((c.receive chunk.bytes).dead || _) = _
    have halive : (c.receive chunk.bytes).dead = false := h.alive
    rw [halive, Bool.false_or]
  · refine ⟨(parts.map (·.1)).flatten, [], ⟨parts.map (·.1), rfl, fun p hp => ?_⟩, ?_,
      fun _ => rfl⟩
    · obtain ⟨q, hq, rfl⟩ := List.mem_map.mp hp
      exact ⟨q.2, hparts q hq⟩
    · rw [List.append_nil]
      exact hbytes

/-- **One call of `on_readable` on an open connection** reads its chunks as one stream. -/
theorem reads_onReadable (s : Shared) {c : Client} (h : c.Waiting) (sends : List SendResult)
    (chunks : List Chunk) :
    Reads s c (bytesOf chunks) (onReadable s c sends (chunks.map .data)).1
      (onReadable s c sends (chunks.map .data)).2 := by
  induction chunks generalizing s c with
  | nil => exact Reads.nil h
  | cons chunk chunks ih =>
    have hopen : ¬ (!(c.receive chunk.bytes).isOpen) = true := by
      have hopen' : (c.receive chunk.bytes).isOpen = true := h.isOpen
      rw [hopen']
      decide
    have hkMax : kMaxFramePayload = 65536 := rfl
    have hfits : ¬ kMaxFramePayload * 2 < (c.receive chunk.bytes).inBuf.length := by
      have hlen := h.length_le chunk
      show ¬ kMaxFramePayload * 2 < (c.inBuf ++ chunk.bytes).length
      omega
    have hone := reads_chunk s h chunk
    have hbytes : bytesOf (chunk :: chunks) = chunk.bytes ++ bytesOf chunks := rfl
    rw [List.map_cons, onReadable, if_neg hopen, if_neg hfits, hbytes]
    dsimp only
    cases hdead : (decodeFrames s (c.receive chunk.bytes)).2.dead with
    | true =>
      rw [if_pos rfl]
      exact hone.dead_append hdead _
    | false =>
      rw [if_neg Bool.false_ne_true]
      exact hone.trans hdead (ih _ (hone.waiting hdead))

/-- Reads of a connection, call by call; a dead client is not read again. -/
def readCalls (s : Shared) (c : Client) (sends : List SendResult) (calls : List (List Chunk)) :
    Shared × Client :=
  calls.foldl (fun r chunks =>
    if r.2.dead then r else onReadable r.1 r.2 sends (chunks.map .data)) (s, c)

theorem readCalls_dead (s : Shared) {c : Client} (h : c.dead = true) (sends : List SendResult)
    (calls : List (List Chunk)) : readCalls s c sends calls = (s, c) := by
  induction calls with
  | nil => rfl
  | cons chunks calls ih =>
    rw [readCalls, List.foldl_cons, if_pos h]
    exact ih

/-- **Any number of calls of `on_readable` read one stream.** -/
theorem reads_readCalls (s : Shared) {c : Client} (h : c.Waiting) (sends : List SendResult)
    (calls : List (List Chunk)) :
    Reads s c (bytesOf calls.flatten) (readCalls s c sends calls).1
      (readCalls s c sends calls).2 := by
  induction calls generalizing s c with
  | nil => exact Reads.nil h
  | cons chunks calls ih =>
    have hone := reads_onReadable s h sends chunks
    have hbytes : bytesOf (chunks :: calls).flatten = bytesOf chunks ++ bytesOf calls.flatten := by
      rw [bytesOf, List.flatten_cons, List.map_append, List.flatten_append]
      rfl
    have hcall : readCalls s c sends (chunks :: calls) =
        readCalls (onReadable s c sends (chunks.map .data)).1
          (onReadable s c sends (chunks.map .data)).2 sends calls := by
      rw [readCalls, List.foldl_cons, if_neg (by rw [h.alive]; decide)]
      rfl
    rw [hcall, hbytes]
    cases hdead : (onReadable s c sends (chunks.map .data)).2.dead with
    | true =>
      rw [readCalls_dead _ hdead]
      exact hone.dead_append hdead _
    | false => exact hone.trans hdead (ih _ (hone.waiting hdead))

end OddsEngine.Ws
