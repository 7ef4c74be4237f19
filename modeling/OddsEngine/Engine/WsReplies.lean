/-
  File:      OddsEngine/Engine/WsReplies.lean
  Subject:   Who the replies of the dashboard server reach (engine/WsServer.hpp).

  A command is queued under the descriptor it came from, and answered after the poll loop; in
  between clients die, and later their descriptors are given to others. A `Client` here also carries
  the number of its connection, which the program does not have, and a command the number of the
  connection it was decoded from.

  * `Orderly` -- the invariant: descriptors and connections are told apart, every command so far was
    answered or is still to be, and what is still to be answered has its sender among the clients;
  * `repliesTo_dispatchOne` -- dispatching a command by descriptor reaches its connection;
  * `replies_of_reachable` -- both, in every round of every run.
-/
import OddsEngine.Engine.WsRuns

namespace OddsEngine.Ws

open Lib

/-! ## 1. What a client is heard saying -/

/-- What the work on one client may do to the server's fields and to who the client is. -/
structure Hears (s : Shared) (c : Client) (s' : Shared) (c' : Client) : Prop where
  fd : c'.fd = c.fd
  conn : c'.conn = c.conn
  isOpen : c.isOpen = true → c'.isOpen = true
  commands : ∃ ps, s'.pending = s.pending ++ ps ∧ s'.decoded = s.decoded ++ ps ∧
    ∀ p ∈ ps, c'.fd = p.fd ∧ c'.conn = p.conn ∧ c'.isOpen = true

/-- Nothing is heard. -/
theorem hears_silent {s s' : Shared} {c c' : Client} (hpending : s'.pending = s.pending)
    (hdecoded : s'.decoded = s.decoded) (hfd : c'.fd = c.fd) (hconn : c'.conn = c.conn)
    (hopen : c.isOpen = true → c'.isOpen = true) : Hears s c s' c' :=
  ⟨hfd, hconn, hopen, [], hpending.trans (List.append_nil _).symm,
    hdecoded.trans (List.append_nil _).symm, nofun⟩

theorem hears_flushed (s : Shared) {c c' : Client} (h : Flushed c c') : Hears s c s c' :=
  hears_silent rfl rfl h.fd h.conn fun hopen => h.isOpen.trans hopen

theorem Hears.trans {s s' s'' : Shared} {c c' c'' : Client} (h : Hears s c s' c')
    (h' : Hears s' c' s'' c'') : Hears s c s'' c'' := by
  obtain ⟨ps, hpending, hdecoded, hps⟩ := h.commands
  obtain ⟨qs, hpending', hdecoded', hqs⟩ := h'.commands
  refine ⟨h'.fd.trans h.fd, h'.conn.trans h.conn, fun hopen => h'.isOpen (h.isOpen hopen),
    ps ++ qs, ?_, ?_, fun p hp => ?_⟩
  · rw [hpending', hpending, List.append_assoc]
  · rw [hdecoded', hdecoded, List.append_assoc]
  · rcases List.mem_append.mp hp with hp | hp
    · obtain ⟨hfd, hconn, hopen⟩ := hps p hp
      exact ⟨h'.fd.trans hfd, h'.conn.trans hconn, h'.isOpen hopen⟩
    · exact hqs p hp

theorem hears_handshake (s : Shared) (c : Client) (sends : List SendResult) :
    Hears s c (handshake s c sends).1 (handshake s c sends).2 := by
  rcases handshake_cases s c sends with e | ⟨key, e⟩
  · have hf := flushed_flush { c.respond pageResponse with serveOnly := true } sends
    rw [e]
    exact hears_silent rfl rfl hf.fd hf.conn fun hopen => hf.isOpen.trans hopen
  · have hf := flushed_flush { c.respond (switchingProtocols key) with isOpen := true } sends
    rw [e]
    exact hears_silent rfl rfl hf.fd hf.conn fun _ => hf.isOpen

/-- The texts decoded are queued as commands of the client they came from. -/
theorem hears_decodeFrames (s : Shared) {c : Client} (hopen : c.isOpen = true) :
    Hears s c (decodeFrames s c).1 (decodeFrames s c).2 := by
  have hsame := sameConnection_handleAll s c (frameReader.scan Frame.isClose c.inBuf).items
  have hqueues := handleAll_queues s c (frameReader.scan Frame.isClose c.inBuf).items
  rw [decodeFrames_eq]
  refine ⟨hsame.fd, hsame.conn, fun h => hsame.isOpen.trans h, _, hqueues.pending,
    hqueues.decoded, fun p hp => ?_⟩
  obtain ⟨text, -, rfl⟩ := List.mem_map.mp hp
  exact ⟨hsame.fd, hsame.conn, hsame.isOpen.trans hopen⟩

theorem hears_onReadable (s : Shared) (c : Client) (sends : List SendResult)
    (recvs : List RecvResult) :
    Hears s c (onReadable s c sends recvs).1 (onReadable s c sends recvs).2 := by
  induction recvs generalizing s c with
  | nil => exact hears_flushed s (Flushed.refl c)
  | cons r recvs ih =>
    cases r with
    | eof => exact hears_flushed s (flushed_kill c)
    | data chunk =>
      have hreceive : Hears s c s (c.receive chunk.bytes) := hears_silent rfl rfl rfl rfl id
      rw [onReadable]
      dsimp only
      split
      · split
        · exact hreceive.trans (hears_flushed s (flushed_kill _))
        · split
          · exact hreceive.trans (hears_handshake s _ sends)
          · exact hreceive.trans (ih s _)
      · next hopen =>
        have hopen' : (c.receive chunk.bytes).isOpen = true := by simpa using hopen
        split
        · exact hreceive.trans (hears_flushed s (flushed_kill _))
        · have hdecode := hreceive.trans (hears_decodeFrames s hopen')
          split
          · exact hdecode
          · exact hdecode.trans (ih _ _)

/-- No frame dropped. -/
theorem Shared.drop_none (s : Shared) : { s with dropped := s.dropped + 0 } = s := by
  rw [UInt64.add_zero]

namespace Server

theorem hears_pollClient (round : Round) (s : Shared) (c : Client) (ready : Ready) :
    Hears s c (pollClient round s c ready).1 (pollClient round s c ready).2 := by
  rw [pollClient_eq]
  split
  · exact hears_flushed s (flushed_kill c)
  · have hread := hears_onReadable s c (round.responseSends c.fd) (round.recvs c.fd)
    dsimp only
    split
    · split
      · exact hread.trans (hears_flushed _ (flushed_flush _ _))
      · exact hread
    · split
      · exact hears_flushed s (flushed_flush c _)
      · exact hears_flushed s (Flushed.refl c)

/-- **The poll loop**: the clients stay who they are, and every command it queues has its sender
    among them, open. -/
theorem hears_pollLoop (round : Round) (s : Shared) (cs : List Client) (rs : List Ready) :
    (pollLoop round s cs rs).2.map (·.fd) = cs.map (·.fd) ∧
    (pollLoop round s cs rs).2.map (·.conn) = cs.map (·.conn) ∧
    ∃ ps, (pollLoop round s cs rs).1.pending = s.pending ++ ps ∧
      (pollLoop round s cs rs).1.decoded = s.decoded ++ ps ∧
      ∀ p ∈ ps, ∃ c ∈ (pollLoop round s cs rs).2,
        c.fd = p.fd ∧ c.conn = p.conn ∧ c.isOpen = true := by
  induction cs generalizing s rs with
  | nil =>
    have hnil : pollLoop round s [] rs = (s, []) := by cases rs <;> rfl
    rw [hnil]
    exact ⟨rfl, rfl, [], (List.append_nil _).symm, (List.append_nil _).symm, nofun⟩
  | cons c cs ih =>
    cases rs with
    | nil =>
      exact ⟨rfl, rfl, [], (List.append_nil _).symm, (List.append_nil _).symm, nofun⟩
    | cons ready rs =>
      have hone := hears_pollClient round s c ready
      obtain ⟨ps, hpending, hdecoded, hps⟩ := hone.commands
      obtain ⟨hfds, hconns, qs, hpending', hdecoded', hqs⟩ :=
        ih (pollClient round s c ready).1 rs
      refine ⟨?_, ?_, ps ++ qs, ?_, ?_, fun p hp => ?_⟩
      · exact congrArg₂ List.cons hone.fd hfds
      · exact congrArg₂ List.cons hone.conn hconns
      · rw [← List.append_assoc, ← hpending]
        exact hpending'
      · rw [← List.append_assoc, ← hdecoded]
        exact hdecoded'
      · rcases List.mem_append.mp hp with hp | hp
        · exact ⟨_, List.mem_cons_self, hps p hp⟩
        · obtain ⟨d, hd, hsender⟩ := hqs p hp
          exact ⟨d, List.mem_cons_of_mem _ hd, hsender⟩

/-! ## 2. The invariant -/

/-- The server with the commands `rest` still to be answered. -/
structure Orderly (rest : List Pending) (srv : Server) : Prop where
  answered : srv.calls.map (·.command) ++ rest = srv.shared.decoded
  fds : (srv.clients.map (·.fd)).Nodup
  conns : ((srv.clients ++ srv.closed).map (·.conn)).Nodup
  numbered : ∀ n ∈ (srv.clients ++ srv.closed).map (·.conn), n < srv.accepted
  senders : ∀ p ∈ rest, ∃ c ∈ srv.clients, c.fd = p.fd ∧ c.conn = p.conn ∧ c.isOpen = true

/-- The kernel gives out a descriptor only where no open connection has it. -/
def FreshFds (srv : Server) (round : Round) : Prop :=
  round.accepted.Nodup ∧ ∀ fd ∈ round.accepted, fd ∉ srv.clients.map (·.fd)

theorem Orderly.acceptNew {srv : Server} {fds : List Nat} (h : Orderly [] srv) (hnodup : fds.Nodup)
    (hfresh : ∀ fd ∈ fds, fd ∉ srv.clients.map (·.fd)) : Orderly [] (srv.acceptNew fds) := by
  induction fds generalizing srv with
  | nil => exact h
  | cons fd fds ih =>
    obtain ⟨hfd, hnodup⟩ := List.nodup_cons.mp hnodup
    let c : Client := { fd := fd, conn := srv.accepted }
    have hperm : List.Perm ((srv.clients ++ [c] ++ srv.closed).map (·.conn))
        (c.conn :: (srv.clients ++ srv.closed).map (·.conn)) := by
      rw [List.append_assoc]
      exact List.perm_middle.map _
    refine @ih { srv with clients := srv.clients ++ [c], accepted := srv.accepted + 1 }
      ⟨h.answered, ?_, ?_, ?_, nofun⟩ hnodup ?_
    · rw [List.map_append]
      refine List.nodup_append.mpr ⟨h.fds, List.nodup_singleton _, ?_⟩
      intro a ha b hb e
      rw [e, List.mem_singleton.mp hb] at ha
      exact hfresh fd List.mem_cons_self ha
    · refine hperm.nodup_iff.mpr (List.nodup_cons.mpr ⟨fun hmem => ?_, h.conns⟩)
      exact Nat.lt_irrefl _ (h.numbered _ hmem)
    · intro n hn
      rcases List.mem_cons.mp (hperm.mem_iff.mp hn) with rfl | hn
      · exact Nat.lt_succ_self _
      · exact Nat.lt_succ_of_lt (h.numbered n hn)
    · intro fd' hfd' hmem
      rw [List.map_append] at hmem
      rcases List.mem_append.mp hmem with hmem | hmem
      · exact hfresh fd' (List.mem_cons_of_mem _ hfd') hmem
      · rw [List.mem_singleton.mp hmem] at hfd'
        exact hfd hfd'

/-- Clients that stay who they are keep the invariant. -/
theorem Orderly.withClients {rest : List Pending} {srv : Server} (h : Orderly rest srv)
    {s : Shared} {cs : List Client} {calls : List Call} {rest' : List Pending}
    (hfds : cs.map (·.fd) = srv.clients.map (·.fd))
    (hconns : cs.map (·.conn) = srv.clients.map (·.conn))
    (hanswered : calls.map (·.command) ++ rest' = s.decoded)
    (hsenders : ∀ p ∈ rest', ∃ c ∈ cs, c.fd = p.fd ∧ c.conn = p.conn ∧ c.isOpen = true) :
    Orderly rest' { srv with shared := s, clients := cs, calls := calls } := by
  have hall : (cs ++ srv.closed).map (·.conn) = (srv.clients ++ srv.closed).map (·.conn) := by
    rw [List.map_append, List.map_append, hconns]
  refine ⟨hanswered, ?_, ?_, ?_, hsenders⟩
  · show (cs.map (·.fd)).Nodup
    rw [hfds]
    exact h.fds
  · show ((cs ++ srv.closed).map (·.conn)).Nodup
    rw [hall]
    exact h.conns
  · show ∀ n ∈ (cs ++ srv.closed).map (·.conn), n < srv.accepted
    rw [hall]
    exact h.numbered

/-- The poll loop leaves the commands it queued to be answered. -/
theorem Orderly.poll {srv : Server} (h : Orderly [] srv) (hpending : srv.shared.pending = [])
    (round : Round) : Orderly (srv.poll round).shared.pending (srv.poll round) := by
  obtain ⟨hfds, hconns, ps, hpending', hdecoded, hps⟩ := hears_pollLoop round srv.shared srv.clients
    ((srv.clients.map fun c => ({ fd := c.fd, pollout := !c.out.isEmpty } : PollFd)).map
      (revents round))
  have hall : (srv.poll round).shared.pending = ps := by
    rw [hpending, List.nil_append] at hpending'
    exact hpending'
  have hanswered := h.answered
  rw [List.append_nil] at hanswered
  rw [hall]
  refine h.withClients hfds hconns ?_ hps
  rw [hdecoded, ← hanswered]

theorem Orderly.reap {srv : Server} (h : Orderly [] srv) : Orderly [] srv.reap := by
  have hperm : List.Perm (srv.reap.clients ++ srv.reap.closed) (srv.clients ++ srv.closed) := by
    have hsplit := List.filter_append_perm (fun c : Client => !c.dead) srv.clients
    simp only [Bool.not_not] at hsplit
    refine (List.perm_append_comm.append_left _).trans ?_
    rw [← List.append_assoc]
    exact hsplit.append_right srv.closed
  refine ⟨h.answered, ?_, ?_, fun n hn => ?_, nofun⟩
  · exact h.fds.sublist (List.filter_sublist.map _)
  · exact (hperm.map _).nodup_iff.mpr h.conns
  · exact h.numbered n ((hperm.map _).mem_iff.mp hn)

/-! ## 3. One reply -/

/-- What becomes of a reply at its connection, and by how much it moves the count of frames
    dropped. -/
inductive Delivery (maxBacklog : UInt64) (reply : Bytes) (sends : List SendResult) (c : Client) :
    Client → UInt64 → Prop where
  | nothing (h : reply = [] ∨ c.dead = true) : Delivery maxBacklog reply sends c c 0
  | dropped (hreply : reply ≠ []) (halive : c.dead = false)
      (hfull : maxBacklog.toNat < c.out.length + (encodeText reply).length) :
      Delivery maxBacklog reply sends c c 1
  | queued (hreply : reply ≠ []) (halive : c.dead = false)
      (hfits : c.out.length + (encodeText reply).length ≤ maxBacklog.toNat) :
      Delivery maxBacklog reply sends c ((c.enqueue (encodeText reply)).flush sends) 0

/-- The call that answers `p`, and its reply: nothing but the connection `p` came from changes, and
    that as the reply is delivered. -/
structure RepliesTo (p : Pending) (reply : Bytes) (sends : List SendResult) (srv srv' : Server) :
    Prop where
  call : srv'.calls = srv.calls ++ [{ command := p, reply := reply }]
  closed : srv'.closed = srv.closed
  accepted : srv'.accepted = srv.accepted
  reply : ∃ before c after c' dropped, srv.clients = before ++ c :: after ∧ c.conn = p.conn ∧
    (∀ d ∈ before ++ after, d.conn ≠ p.conn) ∧
    Delivery srv.shared.maxBacklog reply sends c c' dropped ∧
    srv'.clients = before ++ c' :: after ∧
    srv'.shared = { srv.shared with dropped := srv.shared.dropped + dropped }

theorem Delivery.same {maxBacklog : UInt64} {reply : Bytes} {sends : List SendResult}
    {c c' : Client} {dropped : UInt64} (h : Delivery maxBacklog reply sends c c' dropped) :
    c'.fd = c.fd ∧ c'.conn = c.conn ∧ c'.isOpen = c.isOpen := by
  cases h with
  | nothing => exact ⟨rfl, rfl, rfl⟩
  | dropped => exact ⟨rfl, rfl, rfl⟩
  | queued =>
    have hf := flushed_flush (c.enqueue (encodeText reply)) sends
    exact ⟨hf.fd, hf.conn, hf.isOpen⟩

/-- Clients of other descriptors are passed over. -/
theorem replyTo_append (s : Shared) (fd : Nat) (frame : Bytes) (sends : List SendResult)
    {before : List Client} (h : ∀ d ∈ before, d.fd ≠ fd) (cs : List Client) :
    replyTo s fd frame sends (before ++ cs) =
      ((replyTo s fd frame sends cs).1, before ++ (replyTo s fd frame sends cs).2) := by
  induction before with
  | nil => rfl
  | cons d before ih =>
    rw [List.cons_append, replyTo, if_pos (Or.inl (h d List.mem_cons_self)),
      ih fun d' hd' => h d' (List.mem_cons_of_mem d hd')]
    rfl

/-- With the descriptors told apart, the reply reaches the client of its own. -/
theorem replyTo_sender (s : Shared) {reply : Bytes} (hreply : reply ≠ []) (sends : List SendResult)
    {before after : List Client} {c : Client} (hopen : c.isOpen = true)
    (hothers : ∀ d ∈ before ++ after, d.fd ≠ c.fd) :
    ∃ c' dropped, Delivery s.maxBacklog reply sends c c' dropped ∧
      replyTo s c.fd (encodeText reply) sends (before ++ c :: after) =
        ({ s with dropped := s.dropped + dropped }, before ++ c' :: after) := by
  have hbefore : ∀ d ∈ before, d.fd ≠ c.fd := fun d hd => hothers d (List.mem_append_left _ hd)
  have hafter : ∀ d ∈ after, d.fd ≠ c.fd := fun d hd => hothers d (List.mem_append_right _ hd)
  have hnil : replyTo s c.fd (encodeText reply) sends after = (s, after) := by
    have hall := replyTo_append s c.fd (encodeText reply) sends hafter []
    rw [List.append_nil] at hall
    rw [hall, replyTo, List.append_nil]
  rw [replyTo_append s c.fd (encodeText reply) sends hbefore, replyTo]
  cases hdead : c.dead with
  | true =>
    refine ⟨c, 0, .nothing (Or.inr hdead), ?_⟩
    rw [if_pos (Or.inr (Or.inl rfl)), hnil, Shared.drop_none]
  | false =>
    have hskip : ¬ (c.fd ≠ c.fd ∨ false = true ∨ (!c.isOpen) = true) := by
      rw [hopen]
      simp
    rw [if_neg hskip]
    by_cases hfull : s.maxBacklog.toNat < c.out.length + (encodeText reply).length
    · refine ⟨c, 1, .dropped hreply hdead hfull, ?_⟩
      rw [if_pos hfull]
    · refine ⟨_, 0, .queued hreply hdead (Nat.not_lt.mp hfull), ?_⟩
      rw [if_neg hfull, Shared.drop_none]

/-- A connection is one client of the server. -/
theorem Orderly.split {rest : List Pending} {srv : Server} (h : Orderly rest srv) {c : Client}
    (hc : c ∈ srv.clients) :
    ∃ before after, srv.clients = before ++ c :: after ∧
      (∀ d ∈ before ++ after, d.fd ≠ c.fd) ∧ (∀ d ∈ before ++ after, d.conn ≠ c.conn) := by
  obtain ⟨before, after, e⟩ := List.append_of_mem hc
  have hfds := h.fds
  have hconns := (List.nodup_append.mp (List.map_append ▸ h.conns)).1
  rw [e] at hfds hconns
  rw [(List.perm_middle.map _).nodup_iff, List.map_cons, List.nodup_cons] at hfds hconns
  refine ⟨before, after, e, fun d hd heq => hfds.1 ?_, fun d hd heq => hconns.1 ?_⟩
  · rw [← heq]
    exact List.mem_map_of_mem hd
  · rw [← heq]
    exact List.mem_map_of_mem hd

section Handler

variable {σ : Type} {handler : Option (CommandHandler σ)}

/-- **Dispatching by descriptor reaches the connection the command came from**, and no other. -/
theorem repliesTo_dispatchOne {p : Pending} {rest : List Pending} {srv : Server}
    (h : Orderly (p :: rest) srv) (sends : List SendResult) (st : σ) :
    RepliesTo p (answer handler p.text st).1 sends srv
      (dispatchOne handler sends srv st p).1 := by
  obtain ⟨c, hc, hfd, hconn, hopen⟩ := h.senders p List.mem_cons_self
  obtain ⟨before, after, e, hfds, hconns⟩ := h.split hc
  rw [hconn] at hconns
  unfold dispatchOne
  dsimp only
  split
  · next hempty =>
    exact ⟨rfl, rfl, rfl, before, c, after, c, 0, e, hconn, hconns,
      .nothing (Or.inl (List.isEmpty_iff.mp hempty)), e, (Shared.drop_none _).symm⟩
  · next hreply =>
    have hreply' : (answer handler p.text st).1 ≠ [] := fun hnil => hreply (List.isEmpty_iff.mpr hnil)
    obtain ⟨c', dropped, hdelivery, hto⟩ :=
      replyTo_sender srv.shared hreply' sends hopen hfds
    rw [hfd, ← e] at hto
    rw [hto]
    exact ⟨rfl, rfl, rfl, before, c, after, c', dropped, e, hconn, hconns, hdelivery, rfl, rfl⟩

theorem Orderly.dispatchOne {p : Pending} {rest : List Pending} {srv : Server}
    (h : Orderly (p :: rest) srv) (sends : List SendResult) (st : σ) :
    Orderly rest (dispatchOne handler sends srv st p).1 := by
  have hreplies : RepliesTo p (answer handler p.text st).1 sends srv
      (Server.dispatchOne handler sends srv st p).1 := repliesTo_dispatchOne h sends st
  obtain ⟨hcall, hclosed, haccepted, before, c, after, c', dropped, e, -, -, hdelivery, e', hshared⟩ :=
    hreplies
  obtain ⟨hfd, hconn, hopen⟩ := hdelivery.same
  let call : Call := ⟨p, (answer handler p.text st).1⟩
  have hanswered : (srv.calls ++ [call]).map (·.command) ++ rest = srv.shared.decoded := by
    rw [List.map_append, List.append_assoc]
    exact h.answered
  have hwith : Orderly rest { srv with
      shared := { srv.shared with dropped := srv.shared.dropped + dropped }
      clients := before ++ c' :: after
      calls := srv.calls ++ [call] } := by
    refine h.withClients ?_ ?_ hanswered fun q hq => ?_
    · rw [e, List.map_append, List.map_append, List.map_cons, List.map_cons, hfd]
    · rw [e, List.map_append, List.map_append, List.map_cons, List.map_cons, hconn]
    · obtain ⟨d, hd, hsender⟩ := h.senders q (List.mem_cons_of_mem p hq)
      rw [e] at hd
      rcases List.mem_append.mp hd with hd | hd
      · exact ⟨d, List.mem_append_left _ hd, hsender⟩
      · rcases List.mem_cons.mp hd with rfl | hd
        · exact ⟨c', List.mem_append_right _ List.mem_cons_self, hfd.trans hsender.1,
            hconn.trans hsender.2.1, hopen.trans hsender.2.2⟩
        · exact ⟨d, List.mem_append_right _ (List.mem_cons_of_mem _ hd), hsender⟩
  have heq : (Server.dispatchOne handler sends srv st p).1 = { srv with
      shared := { srv.shared with dropped := srv.shared.dropped + dropped }
      clients := before ++ c' :: after
      calls := srv.calls ++ [call] } := by
    rw [← hshared, ← e', ← hcall, ← hclosed, ← haccepted]
  rw [heq]
  exact hwith

/-- Any number of the commands dispatched leave the others. -/
theorem Orderly.dispatch (round : Round) {before rest : List (Pending × Nat)} {r : Server × σ}
    (h : Orderly ((before ++ rest).map (·.1)) r.1) :
    Orderly (rest.map (·.1)) (before.foldl
      (fun r p => Server.dispatchOne handler (round.replySends p.2) r.1 r.2 p.1) r).1 := by
  induction before generalizing r with
  | nil => exact h
  | cons p before ih => exact ih (Orderly.dispatchOne h _ r.2)

/-! ## 4. Every run -/

/-- Between two events: every command is answered. -/
structure Settled (srv : Server) : Prop where
  orderly : Orderly [] srv
  pending : srv.shared.pending = []

theorem Settled.acceptNew {srv : Server} (h : Settled srv) {round : Round}
    (hfresh : FreshFds srv round) : Settled (srv.acceptNew round.accepted) := by
  refine ⟨h.orderly.acceptNew hfresh.1 hfresh.2, ?_⟩
  rw [(acceptNew_clients srv round.accepted).1]
  exact h.pending

theorem Settled.service {srv : Server} (h : Settled srv) {round : Round}
    (hfresh : FreshFds srv round) (st : σ) : Settled (srv.service handler round st).1 := by
  have haccepted := h.acceptNew hfresh
  have hpolled := haccepted.orderly.poll haccepted.pending round
  unfold Server.service
  dsimp only
  split
  · exact haccepted
  · have hall : Orderly ((((srv.acceptNew round.accepted).poll round).shared.pending.zipIdx ++
        []).map Prod.fst) ((srv.acceptNew round.accepted).poll round) := by
      rw [List.append_nil, List.zipIdx_map_fst]
      exact hpolled
    have hnone := @Orderly.dispatch σ handler round _ [] (_, st) hall
    exact ⟨Orderly.reap ⟨hnone.answered, hnone.fds, hnone.conns, hnone.numbered, nofun⟩, rfl⟩

/-- A broadcast queues no command, and leaves the clients who they are. -/
theorem broadcastLoop_same (frame : Bytes) (sends : Nat → List SendResult) (s : Shared)
    (cs : List Client) :
    (broadcastLoop frame sends s cs).2.map (·.fd) = cs.map (·.fd) ∧
    (broadcastLoop frame sends s cs).2.map (·.conn) = cs.map (·.conn) ∧
    (broadcastLoop frame sends s cs).1.pending = s.pending ∧
    (broadcastLoop frame sends s cs).1.decoded = s.decoded := by
  induction cs generalizing s with
  | nil => exact ⟨rfl, rfl, rfl, rfl⟩
  | cons c cs ih =>
    obtain ⟨hfds, hconns, hpending, hdecoded⟩ := ih (broadcastTo frame (sends c.fd) s c).1
    have hone : (broadcastTo frame (sends c.fd) s c).2.fd = c.fd ∧
        (broadcastTo frame (sends c.fd) s c).2.conn = c.conn ∧
        (broadcastTo frame (sends c.fd) s c).1.pending = s.pending ∧
        (broadcastTo frame (sends c.fd) s c).1.decoded = s.decoded := by
      unfold broadcastTo
      split
      · exact ⟨rfl, rfl, rfl, rfl⟩
      · split
        · exact ⟨rfl, rfl, rfl, rfl⟩
        · have hf := flushed_flush (c.enqueue frame) (sends c.fd)
          exact ⟨hf.fd, hf.conn, rfl, rfl⟩
    exact ⟨congrArg₂ List.cons hone.1 hfds, congrArg₂ List.cons hone.2.1 hconns,
      hpending.trans hone.2.2.1, hdecoded.trans hone.2.2.2⟩

theorem Settled.broadcast {srv : Server} (h : Settled srv) (text : Bytes)
    (sends : Nat → List SendResult) : Settled (srv.broadcast text sends) := by
  unfold Server.broadcast
  split
  · exact h
  · obtain ⟨hfds, hconns, hpending, hdecoded⟩ :=
      broadcastLoop_same (encodeText text) sends srv.shared srv.clients
    have hanswered : srv.calls.map (·.command) ++ [] =
        (broadcastLoop (encodeText text) sends srv.shared srv.clients).1.decoded := by
      rw [hdecoded]
      exact h.orderly.answered
    exact ⟨(h.orderly.withClients hfds hconns hanswered nofun).reap, hpending.trans h.pending⟩

theorem settled_of_reachable {maxBacklog : UInt64} {st₀ st : σ} {srv : Server}
    (h : Reachable handler maxBacklog st₀ FreshFds srv st) : Settled srv := by
  induction h with
  | start => exact ⟨⟨rfl, List.nodup_nil, List.nodup_nil, nofun, nofun⟩, rfl⟩
  | service _ round hfresh ih => exact ih.service hfresh _
  | broadcast _ text sends ih => exact ih.broadcast text sends

end Handler

end Server

/-- **Every command is answered once, and its reply reaches the connection that sent it.** With the
    kernel giving out descriptors that are not open, in every state a server reaches:
    the decoder queues the texts of a client's frames, in order, as its commands; the handler was
    called once for every command decoded, in that order; no two connections have one number; and
    in any further round, each call of the handler changes nothing but the connection its command
    came from, which is queued the reply unless it is dead or has no room for it. -/
theorem replies_of_reachable {σ : Type} {handler : Option (CommandHandler σ)}
    {maxBacklog : UInt64} {st₀ st : σ} {srv : Server}
    (h : Server.Reachable handler maxBacklog st₀ Server.FreshFds srv st) :
    (∀ (s : Shared) (c : Client), Queues c.fd c.conn s (decodeFrames s c).1
      (textsOf (frameReader.scan Frame.isClose c.inBuf).items)) ∧
    srv.calls.map (·.command) = srv.shared.decoded ∧
    ((srv.clients ++ srv.closed).map (·.conn)).Nodup ∧
    ∀ round, Server.FreshFds srv round →
      let polled := (srv.acceptNew round.accepted).poll round
      ∀ before p after, polled.shared.pending.zipIdx = before ++ p :: after →
        let mid := before.foldl (fun r p =>
          Server.dispatchOne handler (round.replySends p.2) r.1 r.2 p.1) (polled, st)
        Server.RepliesTo p.1 (Server.answer handler p.1.text mid.2).1 (round.replySends p.2) mid.1
          (Server.dispatchOne handler (round.replySends p.2) mid.1 mid.2 p.1).1 := by
  have hsettled := Server.settled_of_reachable h
  refine ⟨fun s c => ?_, ?_, hsettled.orderly.conns, fun round hfresh => ?_⟩
  · have hqueues := handleAll_queues s c (frameReader.scan Frame.isClose c.inBuf).items
    rw [decodeFrames_eq]
    exact hqueues
  · rw [← hsettled.orderly.answered, List.append_nil]
  · intro polled before p after e mid
    have haccepted := hsettled.acceptNew hfresh
    have hpolled := haccepted.orderly.poll haccepted.pending round
    have hall : Server.Orderly ((before ++ p :: after).map (·.1)) polled := by
      rw [← e, List.zipIdx_map_fst]
      exact hpolled
    have hmid : Server.Orderly ((p :: after).map (·.1)) mid.1 :=
      Server.Orderly.dispatch round hall
    exact Server.repliesTo_dispatchOne hmid (round.replySends p.2) mid.2

/-- A round in which descriptor 6 is accepted, and descriptor 5 sends the text `hi`. -/
def commandRound : Round where
  accepted := [6]
  ready fd := { error := false, readable := fd == 5, writable := false }
  recvs _ := [.data { bytes := [0x81, 0x82, 0, 0, 0, 0, 104, 105],
                      nonempty := by decide, length_le := by decide }]
  responseSends _ := []
  pollSends _ := []
  replySends _ := []

theorem freshFds_commandRound : Server.FreshFds upgradedServer commandRound := by
  have hfds : upgradedServer.clients.map (·.fd) = [5] := by decide +kernel
  refine ⟨List.nodup_singleton 6, fun fd hfd => ?_⟩
  rw [hfds, List.mem_singleton.mp hfd]
  decide

theorem pending_commandRound :
    ((upgradedServer.acceptNew commandRound.accepted).poll commandRound).shared.pending =
      [⟨5, ascii "hi", 0⟩] := by
  decide +kernel

/-- The reply to `hi` reaches the client on descriptor 5. -/
theorem replies_of_reachable_hi :
    upgradedServer.calls.map (·.command) = upgradedServer.shared.decoded ∧
    Server.RepliesTo ⟨5, ascii "hi", 0⟩ (ascii "\x7b\"ok\":false,\"error\":\"no handler\"\x7d") []
      ((upgradedServer.acceptNew commandRound.accepted).poll commandRound)
      (Server.dispatchOne none []
        ((upgradedServer.acceptNew commandRound.accepted).poll commandRound) ()
        ⟨5, ascii "hi", 0⟩).1 := by
  have hreachable : Server.Reachable none 1048576 () Server.FreshFds upgradedServer () :=
    .service .start upgradeRound ⟨List.nodup_singleton 5, fun _ _ => nofun⟩
  obtain ⟨-, hcalls, -, hreplies⟩ := replies_of_reachable hreachable
  refine ⟨hcalls, hreplies commandRound freshFds_commandRound [] (⟨5, ascii "hi", 0⟩, 0) [] ?_⟩
  rw [pending_commandRound]
  rfl

end OddsEngine.Ws
