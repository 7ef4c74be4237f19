/-
  File:      OddsEngine/Engine/WsRuns.lean
  Subject:   Invariants of the dashboard server over its runs.

  * `ReadLoop.onReadable` -- the rule for the loop of `on_readable`: what holds before every `recv`,
    and what then holds when it returns;
  * `ClientInvariant.reachable` -- a property of a fresh connection that every operation on one
    connection keeps holds of every connection of every reachable server, those closed included.
-/
import OddsEngine.Engine.WsReading

namespace OddsEngine.Ws

open Lib

/-! ## 1. Sending -/

/-- What a flush can do: bytes go from `out` to the kernel, and the client may die. -/
structure Flushed (c c' : Client) : Prop where
  fd : c'.fd = c.fd
  conn : c'.conn = c.conn
  isOpen : c'.isOpen = c.isOpen
  serveOnly : c'.serveOnly = c.serveOnly
  inBuf : c'.inBuf = c.inBuf
  dead : c'.dead = false → c.dead = false
  length_le : c'.out.length ≤ c.out.length
  bytes : c'.hist.sent ++ c'.out = c.hist.sent ++ c.out
  queued : c'.hist.queued = c.hist.queued
  outPeak : c'.hist.outPeak = c.hist.outPeak
  requestPeak : c'.hist.requestPeak = c.hist.requestPeak
  framePeak : c'.hist.framePeak = c.hist.framePeak

theorem Flushed.refl (c : Client) : Flushed c c :=
  ⟨rfl, rfl, rfl, rfl, rfl, id, Nat.le_refl _, rfl, rfl, rfl, rfl, rfl⟩

theorem flushed_kill (c : Client) : Flushed c c.kill :=
  ⟨rfl, rfl, rfl, rfl, rfl, nofun, Nat.le_refl _, rfl, rfl, rfl, rfl, rfl⟩

theorem flushed_drained (c : Client) : Flushed c c.drained := by
  unfold Client.drained
  split
  · exact flushed_kill c
  · exact Flushed.refl c

theorem flushed_take (c : Client) (n : Nat) : Flushed c (c.take n) where
  fd := rfl
  conn := rfl
  isOpen := rfl
  serveOnly := rfl
  inBuf := rfl
  dead := id
  length_le := by
    show (c.out.drop n).length ≤ c.out.length
    rw [List.length_drop]
    omega
  bytes := by
    show (c.hist.sent ++ c.out.take n) ++ c.out.drop n = _
    rw [List.append_assoc, List.take_append_drop]
  queued := rfl
  outPeak := rfl
  requestPeak := rfl
  framePeak := rfl

theorem Flushed.trans {c c' c'' : Client} (h : Flushed c c') (h' : Flushed c' c'') :
    Flushed c c'' where
  fd := h'.fd.trans h.fd
  conn := h'.conn.trans h.conn
  isOpen := h'.isOpen.trans h.isOpen
  serveOnly := h'.serveOnly.trans h.serveOnly
  inBuf := h'.inBuf.trans h.inBuf
  dead := fun hd => h.dead (h'.dead hd)
  length_le := Nat.le_trans h'.length_le h.length_le
  bytes := h'.bytes.trans h.bytes
  queued := h'.queued.trans h.queued
  outPeak := h'.outPeak.trans h.outPeak
  requestPeak := h'.requestPeak.trans h.requestPeak
  framePeak := h'.framePeak.trans h.framePeak

/-- **What `flush` does.** -/
theorem flushed_flush (c : Client) (sends : List SendResult) : Flushed c (c.flush sends) := by
  induction sends generalizing c with
  | nil =>
    rw [Client.flush]
    split
    · exact flushed_drained c
    · exact Flushed.refl c
  | cons r sends ih =>
    rw [Client.flush.eq_def]
    dsimp only
    split
    · exact flushed_drained c
    · cases r with
      | again => exact Flushed.refl c
      | failed => exact flushed_kill c
      | accepted n =>
        dsimp only
        split
        · exact flushed_kill c
        · exact (flushed_take c n).trans (ih (c.take n))

/-- The two answers to a request. -/
theorem handshake_cases (s : Shared) (c : Client) (sends : List SendResult) :
    (handshake s c sends = ({ s with pages := s.pages + 1 },
      { c.respond pageResponse with serveOnly := true }.flush sends)) ∨
    (∃ key, handshake s c sends =
      (s, { c.respond (switchingProtocols key) with isOpen := true }.flush sends)) := by
  unfold handshake
  dsimp only
  split
  · exact Or.inl rfl
  · exact Or.inr ⟨_, rfl⟩

/-! ## 2. The reading loop -/

theorem handshake_maxBacklog (s : Shared) (c : Client) (sends : List SendResult) :
    (handshake s c sends).1.maxBacklog = s.maxBacklog := by
  unfold handshake servePage
  dsimp only
  split
  · rfl
  · rfl

theorem decodeFrames_maxBacklog (s : Shared) (c : Client) :
    (decodeFrames s c).1.maxBacklog = s.maxBacklog := by
  rw [decodeFrames_eq]
  exact (handleAll_queues s c _).maxBacklog

theorem onReadable_maxBacklog (s : Shared) (c : Client) (sends : List SendResult)
    (recvs : List RecvResult) : (onReadable s c sends recvs).1.maxBacklog = s.maxBacklog := by
  induction recvs generalizing s c with
  | nil => rfl
  | cons r recvs ih =>
    cases r with
    | eof => rfl
    | data chunk =>
      rw [onReadable]
      dsimp only
      split
      · split
        · rfl
        · split
          · exact handshake_maxBacklog s _ sends
          · exact ih s _
      · split
        · rfl
        · split
          · exact decodeFrames_maxBacklog s _
          · exact (ih _ _).trans (decodeFrames_maxBacklog s _)

/-- The obligations of a proof about the loop of `on_readable`: `I` holds before every `recv` (of
    the results still to come, and the client), `R` when the loop is left. -/
structure ReadLoop (maxBacklog : UInt64) (sends : List SendResult)
    (I : List RecvResult → Client → Prop) (R : Client → Prop) : Prop where
  drained : ∀ c, I [] c → R c
  eof : ∀ c rs, I (.eof :: rs) c → R c.kill
  junk : ∀ c b rs, I (.data b :: rs) c → c.isOpen = false →
    16384 < (c.inBuf ++ b.bytes).length → R (c.receive b.bytes).kill
  request : ∀ c b rs, I (.data b :: rs) c → c.isOpen = false →
    (c.inBuf ++ b.bytes).length ≤ 16384 → find crlfcrlf (c.inBuf ++ b.bytes) = none →
    I rs (c.receive b.bytes)
  answer : ∀ s c b rs, I (.data b :: rs) c → c.isOpen = false →
    (c.inBuf ++ b.bytes).length ≤ 16384 → (find crlfcrlf (c.inBuf ++ b.bytes)).isSome = true →
    s.maxBacklog = maxBacklog → R (handshake s (c.receive b.bytes) sends).2
  overflow : ∀ c b rs, I (.data b :: rs) c → c.isOpen = true →
    kMaxFramePayload * 2 < (c.inBuf ++ b.bytes).length → R (c.receive b.bytes).kill
  frames : ∀ s c b rs, I (.data b :: rs) c → c.isOpen = true →
    (c.inBuf ++ b.bytes).length ≤ kMaxFramePayload * 2 → s.maxBacklog = maxBacklog →
    let c' := (decodeFrames s (c.receive b.bytes)).2
    (c'.dead = true → R c') ∧ (c'.dead = false → I rs c')

/-- **The rule for the reading loop.** -/
theorem ReadLoop.onReadable {maxBacklog : UInt64} {sends : List SendResult}
    {I : List RecvResult → Client → Prop} {R : Client → Prop}
    (h : ReadLoop maxBacklog sends I R) {s : Shared} (hs : s.maxBacklog = maxBacklog) {c : Client}
    {recvs : List RecvResult} (hI : I recvs c) : R (onReadable s c sends recvs).2 := by
  induction recvs generalizing s c with
  | nil => exact h.drained c hI
  | cons r recvs ih =>
    cases r with
    | eof => exact h.eof c recvs hI
    | data chunk =>
      have hin : (c.receive chunk.bytes).inBuf = c.inBuf ++ chunk.bytes := rfl
      have hopen : (c.receive chunk.bytes).isOpen = c.isOpen := rfl
      rw [Ws.onReadable]
      dsimp only
      rw [hin, hopen]
      cases ho : c.isOpen with
      | false =>
        rw [Bool.not_false, if_pos rfl]
        by_cases hjunk : 16384 < (c.inBuf ++ chunk.bytes).length
        · rw [if_pos hjunk]
          exact h.junk c chunk recvs hI ho hjunk
        · rw [if_neg hjunk]
          have hle := Nat.not_lt.mp hjunk
          cases hf : find crlfcrlf (c.inBuf ++ chunk.bytes) with
          | some k =>
            rw [Option.isSome_some, if_pos rfl]
            exact h.answer s c chunk recvs hI ho hle (by rw [hf]; rfl) hs
          | none =>
            rw [Option.isSome_none, if_neg Bool.false_ne_true]
            exact ih hs (h.request c chunk recvs hI ho hle hf)
      | true =>
        rw [Bool.not_true, if_neg Bool.false_ne_true]
        by_cases hover : kMaxFramePayload * 2 < (c.inBuf ++ chunk.bytes).length
        · rw [if_pos hover]
          exact h.overflow c chunk recvs hI ho hover
        · rw [if_neg hover]
          obtain ⟨hdead, halive⟩ := h.frames s c chunk recvs hI ho (Nat.not_lt.mp hover) hs
          cases hd : (decodeFrames s (c.receive chunk.bytes)).2.dead with
          | true =>
            rw [if_pos rfl]
            exact hdead hd
          | false =>
            rw [if_neg Bool.false_ne_true]
            exact ih ((decodeFrames_maxBacklog s _).trans hs) (halive hd)

/-! ## 3. One connection in a server -/

/-- The obligations of an invariant of connections: `P` holds of a fresh one, and every operation
    on one keeps it; `Q` is what a round is known to meet of a client it polls. -/
structure ClientInvariant (maxBacklog : UInt64) (Q : Round → Client → Prop) (P : Client → Prop) :
    Prop where
  fresh : ∀ fd conn, P { fd := fd, conn := conn }
  kill : ∀ c, P c → P c.kill
  flush : ∀ c sends, P c → P (c.flush sends)
  queue : ∀ c text, P c → c.dead = false → c.isOpen = true →
    c.out.length + (encodeText text).length ≤ maxBacklog.toNat → P (c.enqueue (encodeText text))
  read : ∀ round s c, P c → c.dead = false → Q round c → (round.ready c.fd).error = false →
    (round.ready c.fd).readable = true → s.maxBacklog = maxBacklog →
    P (onReadable s c (round.responseSends c.fd) (round.recvs c.fd)).2

namespace Server

/-- Every connection of the server, those closed included, meets `P`. -/
structure All (maxBacklog : UInt64) (P : Client → Prop) (srv : Server) : Prop where
  maxBacklog : srv.shared.maxBacklog = maxBacklog
  clients : ∀ c ∈ srv.clients, P c
  closed : ∀ c ∈ srv.closed, P c

variable {maxBacklog : UInt64} {Q : Round → Client → Prop} {P : Client → Prop}

theorem acceptNew_clients (srv : Server) (fds : List Nat) :
    (srv.acceptNew fds).shared = srv.shared ∧ (srv.acceptNew fds).closed = srv.closed ∧
      (srv.acceptNew fds).calls = srv.calls ∧
      ∃ fresh : List Client, (srv.acceptNew fds).clients = srv.clients ++ fresh ∧
        ∀ c ∈ fresh, ∃ fd conn, c = { fd := fd, conn := conn } := by
  induction fds generalizing srv with
  | nil => exact ⟨rfl, rfl, rfl, [], (List.append_nil _).symm, nofun⟩
  | cons fd fds ih =>
    obtain ⟨hs, hc, hl, fresh, hclients, hfresh⟩ := ih
      { srv with clients := srv.clients ++ [{ fd := fd, conn := srv.accepted }],
                 accepted := srv.accepted + 1 }
    refine ⟨hs, hc, hl, { fd := fd, conn := srv.accepted } :: fresh, ?_, ?_⟩
    · exact hclients.trans (List.append_assoc _ _ _)
    · intro c hc
      rcases List.mem_cons.mp hc with rfl | hc
      · exact ⟨fd, srv.accepted, rfl⟩
      · exact hfresh c hc

/-- Accepting adds fresh connections. -/
theorem mem_acceptNew {srv : Server} {fds : List Nat} {c : Client}
    (h : c ∈ (srv.acceptNew fds).clients) :
    c ∈ srv.clients ∨ ∃ fd conn, c = { fd := fd, conn := conn } := by
  obtain ⟨-, -, -, fresh, hclients, hfresh⟩ := acceptNew_clients srv fds
  rw [hclients] at h
  rcases List.mem_append.mp h with h | h
  · exact Or.inl h
  · exact Or.inr (hfresh c h)

/-- The poll loop's work on a client, in its two steps: it is read, or found dead, and flushed. -/
theorem pollClient_eq (round : Round) (s : Shared) (c : Client) (ready : Ready) :
    pollClient round s c ready =
      if ready.error then (s, c.kill)
      else
        let r := if ready.readable then
            onReadable s c (round.responseSends c.fd) (round.recvs c.fd)
          else (s, c)
        (r.1, if ready.writable then r.2.flush (round.pollSends r.2.fd) else r.2) := rfl

theorem pollClient_maxBacklog (round : Round) (s : Shared) (c : Client) (ready : Ready) :
    (pollClient round s c ready).1.maxBacklog = s.maxBacklog := by
  rw [pollClient_eq]
  split
  · rfl
  · dsimp only
    split
    · exact onReadable_maxBacklog _ _ _ _
    · rfl

theorem pollLoop_all (hP : ClientInvariant maxBacklog Q P) (round : Round) {s : Shared}
    (hs : s.maxBacklog = maxBacklog) {cs : List Client} (pollout : Client → Bool)
    (h : ∀ c ∈ cs, P c ∧ c.dead = false ∧ Q round c) :
    let rs := (cs.map fun c => ({ fd := c.fd, pollout := pollout c } : PollFd)).map (revents round)
    (pollLoop round s cs rs).1.maxBacklog = maxBacklog ∧ ∀ c ∈ (pollLoop round s cs rs).2, P c := by
  induction cs generalizing s with
  | nil => exact ⟨hs, nofun⟩
  | cons c cs ih =>
    obtain ⟨hPc, halive, hQ⟩ := h c List.mem_cons_self
    have hone : P (pollClient round s c (revents round ⟨c.fd, pollout c⟩)).2 := by
      rw [pollClient_eq]
      split
      · exact hP.kill c hPc
      · next herror =>
        have hread := hP.read round s c hPc halive hQ (Bool.eq_false_iff.mpr herror)
        dsimp only
        split
        · split
          · next hreadable => exact hP.flush _ _ (hread hreadable hs)
          · exact hP.flush _ _ hPc
        · split
          · next hreadable => exact hread hreadable hs
          · exact hPc
    obtain ⟨hmb, hrest⟩ := ih ((pollClient_maxBacklog round s c _).trans hs)
      fun d hd => h d (List.mem_cons_of_mem c hd)
    refine ⟨hmb, fun d hd => ?_⟩
    rcases List.mem_cons.mp hd with rfl | hd
    · exact hone
    · exact hrest d hd

theorem poll_all (hP : ClientInvariant maxBacklog Q P) (round : Round) {srv : Server}
    (h : All maxBacklog P srv) (halive : ∀ c ∈ srv.clients, c.dead = false)
    (hQ : ∀ c ∈ srv.clients, Q round c) : All maxBacklog P (srv.poll round) := by
  obtain ⟨hmb, hclients⟩ := pollLoop_all hP round h.maxBacklog (fun c => !c.out.isEmpty)
    fun c hc => ⟨h.clients c hc, halive c hc, hQ c hc⟩
  exact ⟨hmb, hclients, h.closed⟩

/-- A frame that fits is put into the queue of a client that is open and not dead. -/
theorem send_all (hP : ClientInvariant maxBacklog Q P) {s : Shared} (hs : s.maxBacklog = maxBacklog)
    (text : Bytes) (sends : List SendResult) {c : Client} (h : P c)
    (hskip : ¬ (c.dead = true ∨ (!c.isOpen) = true))
    (hfits : ¬ s.maxBacklog.toNat < c.out.length + (encodeText text).length) :
    P ((c.enqueue (encodeText text)).flush sends) := by
  have hdead : c.dead = false := Bool.eq_false_iff.mpr fun hd => hskip (Or.inl hd)
  have hopen : c.isOpen = true := by
    have hnot : ¬ (!c.isOpen) = true := fun ho => hskip (Or.inr ho)
    simpa using hnot
  have hle := Nat.not_lt.mp hfits
  rw [hs] at hle
  exact hP.flush _ _ (hP.queue c text h hdead hopen hle)

theorem replyTo_all (hP : ClientInvariant maxBacklog Q P) {s : Shared}
    (hs : s.maxBacklog = maxBacklog) (fd : Nat) (text : Bytes) (sends : List SendResult)
    {cs : List Client} (h : ∀ c ∈ cs, P c) :
    (replyTo s fd (encodeText text) sends cs).1.maxBacklog = maxBacklog ∧
      ∀ c ∈ (replyTo s fd (encodeText text) sends cs).2, P c := by
  induction cs with
  | nil => exact ⟨hs, nofun⟩
  | cons c cs ih =>
    have hc := h c List.mem_cons_self
    have hcs := fun d hd => h d (List.mem_cons_of_mem c hd)
    unfold replyTo
    split
    · obtain ⟨hmb, hrest⟩ := ih hcs
      refine ⟨hmb, fun d hd => ?_⟩
      rcases List.mem_cons.mp hd with rfl | hd
      · exact hc
      · exact hrest d hd
    · next hskip =>
      split
      · exact ⟨hs, h⟩
      · next hfits =>
        refine ⟨hs, fun d hd => ?_⟩
        rcases List.mem_cons.mp hd with rfl | hd
        · exact send_all hP hs text sends hc (fun hd => hskip (Or.inr hd)) hfits
        · exact hcs d hd

/-- What a broadcast does to one client. -/
theorem broadcastTo_all (hP : ClientInvariant maxBacklog Q P) {s : Shared}
    (hs : s.maxBacklog = maxBacklog) (text : Bytes) (sends : List SendResult) {c : Client}
    (h : P c) :
    (broadcastTo (encodeText text) sends s c).1.maxBacklog = maxBacklog ∧
      P (broadcastTo (encodeText text) sends s c).2 := by
  unfold broadcastTo
  split
  · exact ⟨hs, h⟩
  · next hskip =>
    split
    · exact ⟨hs, h⟩
    · next hfits => exact ⟨hs, send_all hP hs text sends h hskip hfits⟩

theorem broadcastLoop_all (hP : ClientInvariant maxBacklog Q P) {s : Shared}
    (hs : s.maxBacklog = maxBacklog) (text : Bytes) (sends : Nat → List SendResult)
    {cs : List Client} (h : ∀ c ∈ cs, P c) :
    (broadcastLoop (encodeText text) sends s cs).1.maxBacklog = maxBacklog ∧
      ∀ c ∈ (broadcastLoop (encodeText text) sends s cs).2, P c := by
  induction cs generalizing s with
  | nil => exact ⟨hs, nofun⟩
  | cons c cs ih =>
    obtain ⟨hs', hc⟩ := broadcastTo_all hP hs text (sends c.fd) (h c List.mem_cons_self)
    obtain ⟨hmb, hrest⟩ := ih hs' fun d hd => h d (List.mem_cons_of_mem c hd)
    refine ⟨hmb, fun d hd => ?_⟩
    rcases List.mem_cons.mp hd with rfl | hd
    · exact hc
    · exact hrest d hd

section Handler

variable {σ : Type} {handler : Option (CommandHandler σ)}

theorem dispatchOne_all (hP : ClientInvariant maxBacklog Q P) (sends : List SendResult)
    {srv : Server} (h : All maxBacklog P srv) (st : σ) (p : Pending) :
    All maxBacklog P (dispatchOne handler sends srv st p).1 := by
  unfold dispatchOne
  dsimp only
  split
  · exact ⟨h.maxBacklog, h.clients, h.closed⟩
  · obtain ⟨hmb, hclients⟩ := replyTo_all hP h.maxBacklog p.fd
      (answer handler p.text st).1 sends h.clients
    exact ⟨hmb, hclients, h.closed⟩

theorem dispatchPending_all (hP : ClientInvariant maxBacklog Q P) (round : Round) {srv : Server}
    (h : All maxBacklog P srv) (st : σ) :
    All maxBacklog P (srv.dispatchPending handler round st).1 := by
  have hfold : ∀ (ps : List (Pending × Nat)) (r : Server × σ), All maxBacklog P r.1 →
      All maxBacklog P (ps.foldl
        (fun r p => dispatchOne handler (round.replySends p.2) r.1 r.2 p.1) r).1 := by
    intro ps
    induction ps with
    | nil => exact fun _ hr => hr
    | cons p ps ih => exact fun r hr => ih _ (dispatchOne_all hP _ hr r.2 p.1)
  have hall := hfold srv.shared.pending.zipIdx (srv, st) h
  exact ⟨hall.maxBacklog, hall.clients, hall.closed⟩

theorem reap_all {srv : Server} (h : All maxBacklog P srv) :
    All maxBacklog P srv.reap ∧ ∀ c ∈ srv.reap.clients, c.dead = false := by
  refine ⟨⟨h.maxBacklog, fun c hc => h.clients c (List.mem_of_mem_filter hc), fun c hc => ?_⟩,
    fun c hc => ?_⟩
  · rcases List.mem_append.mp hc with hc | hc
    · exact h.closed c hc
    · exact h.clients c (List.mem_of_mem_filter hc)
  · have hdead := (List.mem_filter.mp hc).2
    simpa using hdead

theorem service_all (hP : ClientInvariant maxBacklog Q P) (round : Round) {srv : Server}
    (h : All maxBacklog P srv) (halive : ∀ c ∈ srv.clients, c.dead = false)
    (hQ : ∀ c ∈ (srv.acceptNew round.accepted).clients, Q round c) (st : σ) :
    All maxBacklog P (srv.service handler round st).1 ∧
      ∀ c ∈ (srv.service handler round st).1.clients, c.dead = false := by
  obtain ⟨hshared, hclosed, -, -⟩ := acceptNew_clients srv round.accepted
  have hall : All maxBacklog P (srv.acceptNew round.accepted) := by
    refine ⟨by rw [hshared]; exact h.maxBacklog, fun c hc => ?_, by rw [hclosed]; exact h.closed⟩
    rcases mem_acceptNew hc with hc | ⟨fd, conn, rfl⟩
    · exact h.clients c hc
    · exact hP.fresh fd conn
  have halive' : ∀ c ∈ (srv.acceptNew round.accepted).clients, c.dead = false := by
    intro c hc
    rcases mem_acceptNew hc with hc | ⟨fd, conn, rfl⟩
    · exact halive c hc
    · rfl
  unfold service
  dsimp only
  split
  · exact ⟨hall, halive'⟩
  · exact reap_all (dispatchPending_all hP round (poll_all hP round hall halive' hQ) st)

theorem broadcast_all (hP : ClientInvariant maxBacklog Q P) {srv : Server}
    (h : All maxBacklog P srv) (halive : ∀ c ∈ srv.clients, c.dead = false) (text : Bytes)
    (sends : Nat → List SendResult) :
    All maxBacklog P (srv.broadcast text sends) ∧
      ∀ c ∈ (srv.broadcast text sends).clients, c.dead = false := by
  unfold broadcast
  split
  · exact ⟨h, halive⟩
  · obtain ⟨hmb, hclients⟩ := broadcastLoop_all hP h.maxBacklog text sends h.clients
    have hall : All maxBacklog P { srv with
        shared := (broadcastLoop (encodeText text) sends srv.shared srv.clients).1
        clients := (broadcastLoop (encodeText text) sends srv.shared srv.clients).2 } :=
      ⟨hmb, hclients, h.closed⟩
    exact reap_all hall

end Handler

end Server

/-- **The invariant principle**: what every operation on one connection keeps holds, in every
    reachable server, of every connection; and no client is dead between two events. -/
theorem ClientInvariant.reachable {σ : Type} {handler : Option (CommandHandler σ)}
    {maxBacklog : UInt64} {Q : Round → Client → Prop} {P : Client → Prop}
    (hP : ClientInvariant maxBacklog Q P) {st₀ : σ} {ok : Server → Round → Prop}
    (hok : ∀ srv round, ok srv round → ∀ c ∈ (srv.acceptNew round.accepted).clients, Q round c)
    {srv : Server} {st : σ} (h : Server.Reachable handler maxBacklog st₀ ok srv st) :
    Server.All maxBacklog P srv ∧ ∀ c ∈ srv.clients, c.dead = false := by
  induction h with
  | start => exact ⟨⟨rfl, nofun, nofun⟩, nofun⟩
  | service _ round hround ih =>
    exact Server.service_all hP round ih.1 ih.2 (hok _ round hround) _
  | broadcast _ text sends ih => exact Server.broadcast_all hP ih.1 ih.2 text sends

/-! ## 4. A server with an open connection -/

/-- A request for a WebSocket. -/
def upgradeRequest : Chunk where
  bytes := ascii "GET / HTTP/1.1\r\nSec-WebSocket-Key: dGhlIHNhbXBsZSBub25jZQ==\r\n\r\n"
  nonempty := by decide
  length_le := by decide

/-- A round in which descriptor 5 is accepted and sends that request. -/
def upgradeRound : Round where
  accepted := [5]
  ready _ := { error := false, readable := true, writable := false }
  recvs _ := [.data upgradeRequest]
  responseSends _ := []
  pollSends _ := []
  replySends _ := []

def upgradedServer : Server := ((Server.start 1048576).service none upgradeRound ()).1

theorem reachable_upgradedServer :
    Server.Reachable none 1048576 () (fun _ _ => True) upgradedServer () :=
  .service .start upgradeRound trivial

/-- Its client has become a WebSocket. -/
theorem upgradedServer_client : ∃ c ∈ upgradedServer.clients, c.isOpen = true := by
  have hopen : upgradedServer.clients.map (·.isOpen) = [true] := by decide +kernel
  obtain ⟨c, hclients, hc⟩ := List.map_eq_singleton_iff.mp hopen
  rw [hclients]
  exact ⟨c, List.mem_singleton_self c, hc⟩

end OddsEngine.Ws
