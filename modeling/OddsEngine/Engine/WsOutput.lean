/-
  File:      OddsEngine/Engine/WsOutput.lean
  Subject:   What a connection of the dashboard is sent (engine/WsServer.hpp).

  Five operations write to `out`: `handshake` and `serve_page` by `assign`, `pong`, `broadcast` and
  `dispatch_pending` at its end; `flush` takes any number of bytes off its front in between.
  `Intact` says that nothing of it is lost: the bytes sent and those still queued are one response
  and, for a WebSocket, whole frames (`intact_of_reachable`).

  It holds of the runs in which no client asks again while its page is still being sent.
  `on_readable` takes a further request on such a connection, and the response to it is assigned
  over the rest of the page (`intact_onReadable_iff`, `twiceServed_not_intact`).
-/
import OddsEngine.Engine.WsRuns

namespace OddsEngine.Ws

open Lib

/-! ## 1. What was queued for a connection -/

/-- What a connection is sent, by its two flags: nothing yet, the page, or the response to the
    handshake and then whole frames. -/
inductive Answered : (isOpen serveOnly : Bool) → (queued : List Bytes) → Prop where
  | nothing : Answered false false []
  | page : Answered false true [pageResponse]
  | upgraded (key : Bytes) (frames : List Bytes) (whole : ∀ f ∈ frames, ServerFrame f) :
      Answered true false (switchingProtocols key :: frames)

/-- Nothing queued for the connection was overwritten, cut short or interleaved. -/
structure Intact (c : Client) : Prop where
  bytes : c.hist.sent ++ c.out = c.hist.queued.flatten
  answered : Answered c.isOpen c.serveOnly c.hist.queued

theorem Answered.not_serveOnly {isOpen serveOnly : Bool} {queued : List Bytes}
    (h : Answered isOpen serveOnly queued) (hopen : isOpen = true) : serveOnly = false := by
  cases h with
  | nothing => cases hopen
  | page => cases hopen
  | upgraded key frames whole => rfl

/-- An open connection may be queued a further frame. -/
theorem Answered.append {isOpen serveOnly : Bool} {queued : List Bytes}
    (h : Answered isOpen serveOnly queued) (hopen : isOpen = true) {f : Bytes}
    (hf : ServerFrame f) : Answered isOpen serveOnly (queued ++ [f]) := by
  cases h with
  | nothing => cases hopen
  | page => cases hopen
  | upgraded key frames whole =>
    refine .upgraded key (frames ++ [f]) fun g hg => ?_
    rcases List.mem_append.mp hg with hg | hg
    · exact whole g hg
    · rw [List.mem_singleton.mp hg]
      exact hf

/-- A connection neither open nor sent the page was queued nothing. -/
theorem Answered.queued_eq_nil {isOpen serveOnly : Bool} {queued : List Bytes}
    (h : Answered isOpen serveOnly queued) (hopen : isOpen = false) (hserve : serveOnly = false) :
    queued = [] := by
  cases h with
  | nothing => rfl
  | page => cases hserve
  | upgraded key frames whole => cases hopen

theorem Answered.queued_eq_page {isOpen serveOnly : Bool} {queued : List Bytes}
    (h : Answered isOpen serveOnly queued) (hserve : serveOnly = true) :
    isOpen = false ∧ queued = [pageResponse] := by
  cases h with
  | nothing => cases hserve
  | page => exact ⟨rfl, rfl⟩
  | upgraded key frames whole => cases hserve

/-! ## 2. What the operations do to it -/

theorem Intact.flushed {c c' : Client} (h : Intact c) (hf : Flushed c c') : Intact c' := by
  refine ⟨?_, ?_⟩
  · rw [hf.bytes, hf.queued]
    exact h.bytes
  · rw [hf.isOpen, hf.serveOnly, hf.queued]
    exact h.answered

/-- A flush only moves bytes: what was not intact is not after it. -/
theorem Intact.of_flushed {c c' : Client} (h : Intact c') (hf : Flushed c c') : Intact c := by
  refine ⟨?_, ?_⟩
  · rw [← hf.bytes, ← hf.queued]
    exact h.bytes
  · rw [← hf.isOpen, ← hf.serveOnly, ← hf.queued]
    exact h.answered

theorem Intact.enqueue {c : Client} (h : Intact c) (hopen : c.isOpen = true) {f : Bytes}
    (hf : ServerFrame f) : Intact (c.enqueue f) := by
  refine ⟨?_, h.answered.append hopen hf⟩
  show c.hist.sent ++ (c.out ++ f) = (c.hist.queued ++ [f]).flatten
  rw [← List.append_assoc, h.bytes, List.flatten_append]
  exact congrArg (c.hist.queued.flatten ++ ·) (List.append_nil f).symm

theorem Intact.pong {c : Client} (h : Intact c) (hopen : c.isOpen = true) (maxBacklog : UInt64)
    (payload : Bytes) : Intact (c.pong maxBacklog payload) := by
  have hnoted : Intact { c with hist := { c.hist with pings := c.hist.pings ++ [payload] } } :=
    ⟨h.bytes, h.answered⟩
  unfold Client.pong
  dsimp only
  split
  · exact hnoted.enqueue hopen (serverFrame_pongFrame payload)
  · exact hnoted

theorem Intact.receive {c : Client} (h : Intact c) (bytes : Bytes) : Intact (c.receive bytes) := by
  unfold Client.receive
  dsimp only
  split
  · exact ⟨h.bytes, h.answered⟩
  · exact ⟨h.bytes, h.answered⟩

/-- A response assigned to an `out` that nothing was ever put into. -/
theorem Intact.bytes_respond {c : Client} (h : Intact c) (hopen : c.isOpen = false)
    (hserve : c.serveOnly = false) (resp : Bytes) :
    (c.respond resp).hist.sent ++ (c.respond resp).out = (c.respond resp).hist.queued.flatten ∧
      (c.respond resp).hist.queued = [resp] := by
  have hqueued := h.answered.queued_eq_nil hopen hserve
  have hbytes := h.bytes
  rw [hqueued] at hbytes
  have hsent : c.hist.sent = [] := (List.append_eq_nil_iff.mp hbytes).1
  have hone : (c.respond resp).hist.queued = [resp] := by
    show c.hist.queued ++ [resp] = [resp]
    rw [hqueued, List.nil_append]
  refine ⟨?_, hone⟩
  rw [hone]
  show c.hist.sent ++ resp = resp ++ []
  rw [hsent, List.nil_append, List.append_nil]

/-- The answer to a first request: intact, and flushed. -/
theorem Intact.handshake {c : Client} (h : Intact c) (hopen : c.isOpen = false)
    (hserve : c.serveOnly = false) (s : Shared) (sends : List SendResult) :
    ∃ c', Intact c' ∧ (handshake s c sends).2 = c'.flush sends := by
  rcases handshake_cases s c sends with e | ⟨key, e⟩
  · obtain ⟨hbytes, hqueued⟩ := h.bytes_respond hopen hserve pageResponse
    refine ⟨{ c.respond pageResponse with serveOnly := true }, ⟨hbytes, ?_⟩, by rw [e]⟩
    show Answered c.isOpen true (c.respond pageResponse).hist.queued
    rw [hopen, hqueued]
    exact .page
  · obtain ⟨hbytes, hqueued⟩ := h.bytes_respond hopen hserve (switchingProtocols key)
    refine ⟨{ c.respond (switchingProtocols key) with isOpen := true }, ⟨hbytes, ?_⟩, by rw [e]⟩
    show Answered true c.serveOnly (c.respond (switchingProtocols key)).hist.queued
    rw [hserve, hqueued]
    exact .upgraded key [] nofun

theorem Intact.decodeFrames {c : Client} (h : Intact c) (hopen : c.isOpen = true) (s : Shared) :
    Intact (decodeFrames s c).2 ∧ (decodeFrames s c).2.isOpen = true := by
  have hpong : ∀ (c' : Client) payload, Intact c' ∧ c'.isOpen = true →
      Intact (c'.pong s.maxBacklog payload) ∧ (c'.pong s.maxBacklog payload).isOpen = true :=
    fun c' payload h' => ⟨h'.1.pong h'.2 s.maxBacklog payload,
      (sameConnection_pong s.maxBacklog c' payload).isOpen.trans h'.2⟩
  have hall := handleAll_client (frameReader.scan Frame.isClose c.inBuf).items hpong ⟨h, hopen⟩
  rw [decodeFrames_eq]
  exact ⟨⟨hall.1.bytes, hall.1.answered⟩, hall.2⟩

/-! ## 3. Between two events -/

/-- A connection between two events: intact, and not done with its page. -/
structure Serving (c : Client) : Prop extends Intact c where
  unsent : c.serveOnly = true → c.dead = false → c.out ≠ []

/-- A flush closes a plain connection that it leaves nothing to send. -/
theorem unsent_flush (c : Client) (sends : List SendResult) (hserve : c.serveOnly = true)
    (halive : (c.flush sends).dead = false) : (c.flush sends).out ≠ [] := by
  induction sends generalizing c with
  | nil =>
    rw [Client.flush] at halive ⊢
    split
    · next hempty =>
      rw [if_pos hempty, Client.drained, if_pos hserve] at halive
      cases halive
    · next hempty => exact fun h => hempty (List.isEmpty_iff.mpr h)
  | cons r sends ih =>
    rw [Client.flush.eq_def] at halive ⊢
    dsimp only at halive ⊢
    split
    · next hempty =>
      rw [if_pos hempty, Client.drained, if_pos hserve] at halive
      cases halive
    · next hempty =>
      rw [if_neg hempty] at halive
      cases r with
      | again => exact fun h => hempty (List.isEmpty_iff.mpr h)
      | failed => cases halive
      | accepted n =>
        dsimp only at halive ⊢
        split
        · next hn =>
          rw [if_pos hn] at halive
          cases halive
        · next hn =>
          rw [if_neg hn] at halive
          exact ih (c.take n) hserve halive

theorem Intact.flush {c : Client} (h : Intact c) (sends : List SendResult) :
    Serving (c.flush sends) :=
  ⟨h.flushed (flushed_flush c sends), fun hserve => unsent_flush c sends
    ((flushed_flush c sends).serveOnly ▸ hserve)⟩

theorem Intact.kill {c : Client} (h : Intact c) : Serving c.kill :=
  ⟨h.flushed (flushed_kill c), fun _ halive => nomatch halive⟩

theorem Intact.serving {c : Client} (h : Intact c) (hopen : c.isOpen = true) : Serving c := by
  refine ⟨h, fun hserve => ?_⟩
  rw [h.answered.not_serveOnly hopen] at hserve
  cases hserve

theorem Serving.receive {c : Client} (h : Serving c) (bytes : Bytes) :
    Serving (c.receive bytes) :=
  ⟨h.toIntact.receive bytes, h.unsent⟩

/-! ## 4. A further request -/

/-- The bytes that arrive complete a request, within the limit on its length. -/
def completesRequest (inBuf : Bytes) : List RecvResult → Bool
  | [] => false
  | .eof :: _ => false
  | .data chunk :: recvs =>
    if 16384 < (inBuf ++ chunk.bytes).length then false
    else (find crlfcrlf (inBuf ++ chunk.bytes)).isSome ||
      completesRequest (inBuf ++ chunk.bytes) recvs

/-- A client that is still being sent its page completes a further request in this round. -/
def Round.asksAgain (round : Round) (c : Client) : Bool :=
  !(round.ready c.fd).error && (round.ready c.fd).readable && c.serveOnly &&
    completesRequest c.inBuf (round.recvs c.fd)

theorem completesRequest_of_none {inBuf : Bytes} {b : Chunk}
    (hle : (inBuf ++ b.bytes).length ≤ 16384) (hfind : find crlfcrlf (inBuf ++ b.bytes) = none)
    (recvs : List RecvResult) :
    completesRequest inBuf (.data b :: recvs) = completesRequest (inBuf ++ b.bytes) recvs := by
  rw [completesRequest, if_neg (Nat.not_lt.mpr hle), hfind, Option.isSome_none, Bool.false_or]

theorem completesRequest_of_some {inBuf : Bytes} {b : Chunk}
    (hle : (inBuf ++ b.bytes).length ≤ 16384)
    (hfind : (find crlfcrlf (inBuf ++ b.bytes)).isSome = true) (recvs : List RecvResult) :
    completesRequest inBuf (.data b :: recvs) = true := by
  rw [completesRequest, if_neg (Nat.not_lt.mpr hle), hfind, Bool.true_or]

/-- Before every `recv`: the connection is intact, and no further request is to come. -/
theorem serving_readLoop (maxBacklog : UInt64) (sends : List SendResult) :
    ReadLoop maxBacklog sends
      (fun recvs c => Serving c ∧ (c.serveOnly = true → completesRequest c.inBuf recvs = false))
      Serving where
  drained _ h := h.1
  eof c _ h := h.1.toIntact.kill
  junk c b _ h _ _ := (h.1.receive b.bytes).toIntact.kill
  request c b rs h _ hle hfind := by
    refine ⟨h.1.receive b.bytes, fun hserve => ?_⟩
    have hno := h.2 hserve
    rw [completesRequest_of_none hle hfind] at hno
    exact hno
  answer s c b rs h hopen hle hfind _ := by
    have hserve : (c.receive b.bytes).serveOnly = false := by
      cases hserve : c.serveOnly with
      | false => exact hserve
      | true =>
        have hno := h.2 hserve
        rw [completesRequest_of_some hle hfind] at hno
        cases hno
    obtain ⟨c', hc', e⟩ := (h.1.receive b.bytes).toIntact.handshake hopen hserve s sends
    rw [e]
    exact hc'.flush sends
  overflow c b _ h _ _ := (h.1.receive b.bytes).toIntact.kill
  frames s c b rs h hopen _ _ := by
    obtain ⟨hdecoded, hopen'⟩ := (h.1.receive b.bytes).toIntact.decodeFrames hopen s
    refine ⟨fun _ => hdecoded.serving hopen', fun _ => ⟨hdecoded.serving hopen', fun hserve => ?_⟩⟩
    rw [hdecoded.answered.not_serveOnly hopen'] at hserve
    cases hserve

/-- A response assigned over what is left of another. -/
theorem not_intact_respond {c c' c'' : Client} (hqueued : c.hist.queued = [pageResponse])
    (hsent : c.hist.sent.length < pageResponse.length) (hf : Flushed c' c'') {resp : Bytes}
    (hout : c'.out = resp) (hhist : c'.hist = (c.respond resp).hist) : ¬ Intact c'' := by
  intro h
  have hbytes := (h.of_flushed hf).bytes
  rw [hout, hhist] at hbytes
  have hlen := congrArg List.length hbytes
  have hflat : (c.respond resp).hist.queued.flatten = pageResponse ++ resp := by
    show (c.hist.queued ++ [resp]).flatten = _
    rw [hqueued]
    exact congrArg (pageResponse ++ ·) (List.append_nil resp)
  have hkept : (c.respond resp).hist.sent = c.hist.sent := rfl
  rw [hflat, hkept, List.length_append, List.length_append] at hlen
  exact absurd (Nat.add_right_cancel hlen) (Nat.ne_of_lt hsent)

/-- Before every `recv`: the page is not sent yet, and a further request is to come. -/
theorem not_intact_readLoop (maxBacklog : UInt64) (sends : List SendResult) :
    ReadLoop maxBacklog sends
      (fun recvs c => c.isOpen = false ∧ c.hist.queued = [pageResponse] ∧
        c.hist.sent.length < pageResponse.length ∧ completesRequest c.inBuf recvs = true)
      (fun c => ¬ Intact c) where
  drained c h := absurd h.2.2.2 Bool.false_ne_true
  eof c _ h := absurd h.2.2.2 Bool.false_ne_true
  junk c b rs h _ hlong := by
    have hno : completesRequest c.inBuf (.data b :: rs) = false := by
      rw [completesRequest, if_pos hlong]
    rw [hno] at h
    exact absurd h.2.2.2 Bool.false_ne_true
  request c b rs h hopen hle hfind := by
    have hreceive : (c.receive b.bytes).hist.queued = c.hist.queued ∧
        (c.receive b.bytes).hist.sent = c.hist.sent := by
      unfold Client.receive
      rw [hopen]
      exact ⟨rfl, rfl⟩
    rw [completesRequest_of_none hle hfind] at h
    rw [hreceive.1, hreceive.2]
    exact ⟨hopen, h.2⟩
  answer s c b rs h hopen _ _ _ := by
    have hqueued : (c.receive b.bytes).hist.queued = [pageResponse] := by
      unfold Client.receive
      rw [hopen]
      exact h.2.1
    have hsent : (c.receive b.bytes).hist.sent.length < pageResponse.length := by
      unfold Client.receive
      rw [hopen]
      exact h.2.2.1
    rcases handshake_cases s (c.receive b.bytes) sends with e | ⟨key, e⟩
    · rw [e]
      exact not_intact_respond hqueued hsent (flushed_flush
        { (c.receive b.bytes).respond pageResponse with serveOnly := true } sends) rfl rfl
    · rw [e]
      exact not_intact_respond hqueued hsent (flushed_flush
        { (c.receive b.bytes).respond (switchingProtocols key) with isOpen := true } sends) rfl rfl
  overflow c b _ h hopen _ := by
    rw [h.1] at hopen
    cases hopen
  frames s c b _ h hopen _ _ := by
    rw [h.1] at hopen
    cases hopen

/-! ## 5. Every run -/

/-- **One read keeps a connection intact unless a client that is still being sent its page
    completes a further request.** -/
theorem intact_onReadable_iff {c : Client} (h : Serving c) (halive : c.dead = false) (s : Shared)
    (sends : List SendResult) (recvs : List RecvResult) :
    Intact (onReadable s c sends recvs).2 ↔
      ¬ (c.serveOnly = true ∧ completesRequest c.inBuf recvs = true) := by
  constructor
  · rintro hintact ⟨hserve, hagain⟩
    obtain ⟨hopen, hqueued⟩ := h.answered.queued_eq_page hserve
    have hbytes := congrArg List.length h.bytes
    have hflat : c.hist.queued.flatten = pageResponse := by
      rw [hqueued]
      exact List.append_nil pageResponse
    have hout := List.length_pos_iff.mpr (h.unsent hserve halive)
    rw [hflat, List.length_append] at hbytes
    have hsent : c.hist.sent.length < pageResponse.length := by
      rw [← hbytes]
      exact Nat.lt_add_of_pos_right hout
    exact (not_intact_readLoop s.maxBacklog sends).onReadable rfl ⟨hopen, hqueued, hsent, hagain⟩
      hintact
  · intro hno
    refine Serving.toIntact ((serving_readLoop s.maxBacklog sends).onReadable rfl
      ⟨h, fun hserve => ?_⟩)
    exact Bool.eq_false_iff.mpr fun hagain => hno ⟨hserve, hagain⟩

theorem serving_invariant (maxBacklog : UInt64) :
    ClientInvariant maxBacklog (fun round c => round.asksAgain c = false) Serving where
  fresh _ _ := ⟨⟨rfl, .nothing⟩, nofun⟩
  kill _ h := h.toIntact.kill
  flush _ sends h := h.toIntact.flush sends
  queue c text h _ hopen hfits := by
    have hmax := maxBacklog.toNat_lt
    have hlen := length_encodeText_le text
    exact (h.toIntact.enqueue hopen (serverFrame_encodeText (by omega))).serving hopen
  read round s c h _ hno herror hreadable hs := by
    refine (serving_readLoop maxBacklog _).onReadable hs ⟨h, fun hserve => ?_⟩
    rw [Round.asksAgain, herror, hreadable, hserve] at hno
    exact hno

/-- **What was sent and what is queued are one response, and whole frames after the handshake**,
    for every connection in every state reached by rounds that complete no further request of a
    client which is still being sent its page. -/
theorem intact_of_reachable {σ : Type} {handler : Option (CommandHandler σ)} {maxBacklog : UInt64}
    {st₀ st : σ} {srv : Server}
    (h : Server.Reachable handler maxBacklog st₀
      (fun srv round => ∀ c ∈ srv.clients, round.asksAgain c = false) srv st) :
    ∀ c ∈ srv.clients ++ srv.closed, Intact c := by
  have hok : ∀ (srv : Server) (round : Round), (∀ c ∈ srv.clients, round.asksAgain c = false) →
      ∀ c ∈ (srv.acceptNew round.accepted).clients, round.asksAgain c = false := by
    intro srv round hno c hc
    rcases Server.mem_acceptNew hc with hc | ⟨fd, conn, rfl⟩
    · exact hno c hc
    · rw [Round.asksAgain, Bool.and_false, Bool.false_and]
  obtain ⟨hall, -⟩ := (serving_invariant maxBacklog).reachable hok h
  intro c hc
  rcases List.mem_append.mp hc with hc | hc
  · exact (hall.clients c hc).toIntact
  · exact (hall.closed c hc).toIntact

/-- A client that asks for a WebSocket. -/
theorem intact_upgradedServer : ∃ c ∈ upgradedServer.clients, Intact c := by
  obtain ⟨c, hc, -⟩ := upgradedServer_client
  have hall : ∀ c ∈ upgradedServer.clients ++ upgradedServer.closed, Intact c :=
    intact_of_reachable (.service .start upgradeRound nofun)
  exact ⟨c, hc, hall c (List.mem_append_left _ hc)⟩

/-- A request for the page. -/
def pageRequest : Chunk where
  bytes := ascii "GET / HTTP/1.1\r\n\r\n"
  nonempty := by decide
  length_le := by decide

/-- A round in which the kernel takes one byte of the response to that request. -/
def pageRound (accepted : List Nat) : Round where
  accepted := accepted
  ready _ := { error := false, readable := true, writable := false }
  recvs _ := [.data pageRequest]
  responseSends _ := [.accepted 1]
  pollSends _ := []
  replySends _ := []

/-- A server that a client has asked for the page twice. -/
def twiceServed : Server :=
  let srv := ((Server.start 1048576).service none (pageRound [5]) ()).1
  (srv.service none (pageRound []) ()).1

/-- It was sent the first byte of the page twice. -/
theorem twiceServed_clients :
    twiceServed.clients.map (fun c => (c.serveOnly, c.hist.sent)) = [(true, ascii "HH")] := by
  decide +kernel

/-- **A page asked for twice is cut short**: the second response overwrites the rest of the first. -/
theorem twiceServed_not_intact :
    ¬ ∀ (srv : Server) (st : Unit),
      Server.Reachable none 1048576 () (fun _ _ => True) srv st →
      ∀ c ∈ srv.clients ++ srv.closed, Intact c := by
  intro h
  have hall := h twiceServed ()
    (.service (.service .start (pageRound [5]) trivial) (pageRound []) trivial)
  have hmem : (true, ascii "HH") ∈
      twiceServed.clients.map (fun c => (c.serveOnly, c.hist.sent)) := by
    rw [twiceServed_clients]
    exact List.mem_singleton.mpr rfl
  obtain ⟨c, hc, e⟩ := List.mem_map.mp hmem
  rw [Prod.mk.injEq] at e
  obtain ⟨hserve, hsent⟩ := e
  have hintact := hall c (List.mem_append_left _ hc)
  have hbytes := hintact.bytes
  rw [(hintact.answered.queued_eq_page hserve).2, hsent, List.flatten_singleton] at hbytes
  have hfirst : (ascii "HH" ++ c.out).take 2 = ascii "HH" := rfl
  have hpage : pageResponse.take 2 ≠ ascii "HH" := by decide +kernel
  rw [hbytes] at hfirst
  exact hpage hfirst

end OddsEngine.Ws
