/-
  File:      OddsEngine/Engine/WsServer.lean
  Subject:   The dashboard server (class Server, engine/WsServer.hpp).

  The kernel's answers are inputs: which connections wait to be accepted, what `poll` reports of a
  descriptor, what `recv` delivers and how much `send` takes. A `Round` is what one call of
  `service()` meets. Everything else is the program's: `onReadable` and `decodeFrames` read a
  client's bytes, `dispatchPending` answers the commands queued, `flush` sends, `reap` closes.

  A `Client` and a `Server` also keep a history (`hist`, `conn`, `decoded`, `calls`, `accepted`,
  `closed`): what was sent and queued so far, which connection a command came from. It is not part
  of the program, and nothing the program does depends on it.
-/
import OddsEngine.Engine.WsFrame
import OddsEngine.Engine.WsHandshake

namespace OddsEngine.Ws

open Lib

/-! ## 1. What the kernel answers -/

/-- What one `recv` puts into the buffer of 4096 bytes. -/
structure Chunk where
  bytes : Bytes
  nonempty : bytes ≠ []
  length_le : bytes.length ≤ 4096

/-- A `recv` that did not find the socket drained; where a list of these ends, the next one does. -/
inductive RecvResult where
  | data (chunk : Chunk)
  | eof

/-- A `send`; where a list of these ends, the kernel's buffer is full. -/
inductive SendResult where
  /-- So many bytes were taken. -/
  | accepted (n : Nat)
  /-- `EAGAIN` or `EWOULDBLOCK`. -/
  | again
  | failed

/-- What `poll` reports of a descriptor. -/
structure Ready where
  /-- `POLLERR`, `POLLHUP` or `POLLNVAL`. -/
  error : Bool
  readable : Bool
  writable : Bool

/-! ## 2. A connection -/

/-- What a connection has been through. -/
structure History where
  /-- The bytes the kernel took, in order. -/
  sent : Bytes := []
  /-- The responses and frames put into `out`, in order. -/
  queued : List Bytes := []
  /-- The payloads handed to `pong`, in order. -/
  pings : List Bytes := []
  /-- The most bytes `in` ever held before the handshake. -/
  requestPeak : Nat := 0
  /-- The most bytes `in` ever held after it. -/
  framePeak : Nat := 0
  /-- The most bytes `out` ever held. -/
  outPeak : Nat := 0

structure Client where
  fd : Nat
  /-- The number of the connection, in the order of acceptance. -/
  conn : Nat
  /-- Handshake complete. -/
  isOpen : Bool := false
  dead : Bool := false
  /-- Plain HTTP request, not a WebSocket. -/
  serveOnly : Bool := false
  /-- `in`: the request before the handshake, then raw frame bytes. -/
  inBuf : Bytes := []
  out : Bytes := []
  hist : History := {}

namespace Client

def kill (c : Client) : Client := { c with dead := true }

/-- `in.append`. -/
def receive (c : Client) (bytes : Bytes) : Client :=
  let inBuf := c.inBuf ++ bytes
  { c with
    inBuf := inBuf
    hist := if c.isOpen then { c.hist with framePeak := max c.hist.framePeak inBuf.length }
      else { c.hist with requestPeak := max c.hist.requestPeak inBuf.length } }

/-- `out.insert`, at the end. -/
def enqueue (c : Client) (bytes : Bytes) : Client :=
  let out := c.out ++ bytes
  { c with
    out := out
    hist := { c.hist with queued := c.hist.queued ++ [bytes],
                          outPeak := max c.hist.outPeak out.length } }

/-- `out.assign` and `in.clear`. -/
def respond (c : Client) (resp : Bytes) : Client :=
  { c with
    out := resp
    inBuf := []
    hist := { c.hist with queued := c.hist.queued ++ [resp],
                          outPeak := max c.hist.outPeak resp.length } }

/-- The kernel takes the first `n` bytes of `out`. -/
def take (c : Client) (n : Nat) : Client :=
  { c with out := c.out.drop n, hist := { c.hist with sent := c.hist.sent ++ c.out.take n } }

/-- Plain HTTP: one response, then close. -/
def drained (c : Client) : Client := if c.serveOnly then c.kill else c

def flush (c : Client) : List SendResult → Client
  | [] => if c.out.isEmpty then c.drained else c
  | r :: sends =>
    if c.out.isEmpty then c.drained
    else
      match r with
      | .again => c
      | .failed => c.kill
      | .accepted n => if n = 0 then c.kill else (c.take n).flush sends

def pong (maxBacklog : UInt64) (c : Client) (payload : Bytes) : Client :=
  let f := pongFrame payload
  let c := { c with hist := { c.hist with pings := c.hist.pings ++ [payload] } }
  if c.out.length + f.length ≤ maxBacklog.toNat then c.enqueue f else c

end Client

/-! ## 3. Reading a client -/

/-- A command queued: the descriptor it came from, and the connection that then was. -/
structure Pending where
  fd : Nat
  text : Bytes
  conn : Nat
  deriving DecidableEq

/-- The server's own fields, which the handling of one client reads and writes. -/
structure Shared where
  maxBacklog : UInt64
  pending : List Pending := []
  dropped : UInt64 := 0
  pages : UInt64 := 0
  commands : UInt64 := 0
  /-- Every command ever queued, in order. -/
  decoded : List Pending := []

/-- A command is counted and queued. -/
def Shared.queue (s : Shared) (p : Pending) : Shared :=
  { s with commands := s.commands + 1, pending := s.pending ++ [p], decoded := s.decoded ++ [p] }

/-- What a frame that is not a close does: a ping is answered, a text queued, the rest ignored. -/
def handleFrame (s : Shared) (c : Client) (f : Frame) : Shared × Client :=
  if f.opcode = 0x9 then (s, c.pong s.maxBacklog f.payload)
  else if f.opcode = 0x1 then (s.queue { fd := c.fd, text := f.payload, conn := c.conn }, c)
  else (s, c)

@[simp] theorem pong_inBuf (maxBacklog : UInt64) (c : Client) (payload : Bytes) :
    (c.pong maxBacklog payload).inBuf = c.inBuf := by
  unfold Client.pong
  dsimp only
  split
  · rfl
  · rfl

@[simp] theorem handleFrame_inBuf (s : Shared) (c : Client) (f : Frame) :
    (handleFrame s c f).2.inBuf = c.inBuf := by
  unfold handleFrame
  split
  · exact pong_inBuf _ _ _
  · split
    · rfl
    · rfl

/-- Decodes as many whole frames as the buffer holds, and leaves the rest for the next read. -/
def decodeFrames (s : Shared) (c : Client) : Shared × Client :=
  match _h : nextFrame c.inBuf with
  | .more => (s, c)
  | .fail => (s, c.kill)
  | .item f n =>
    let c' := { c with inBuf := c.inBuf.drop n }
    if f.opcode = 0x8 then (s, c'.kill)
    else decodeFrames (handleFrame s c' f).1 (handleFrame s c' f).2
termination_by c.inBuf.length
decreasing_by
  rw [handleFrame_inBuf]
  exact frameReader.length_drop_lt _h

def servePage (s : Shared) (c : Client) (sends : List SendResult) : Shared × Client :=
  ({ s with pages := s.pages + 1 },
    { c.respond pageResponse with serveOnly := true }.flush sends)

def handshake (s : Shared) (c : Client) (sends : List SendResult) : Shared × Client :=
  let key := headerValue c.inBuf (ascii "sec-websocket-key")
  if key.isEmpty then servePage s c sends
  else (s, { c.respond (switchingProtocols key) with isOpen := true }.flush sends)

/-- `sends` is for the response, where a request is answered. -/
def onReadable (s : Shared) (c : Client) (sends : List SendResult) :
    List RecvResult → Shared × Client
  | [] => (s, c)
  | .eof :: _ => (s, c.kill)
  | .data chunk :: recvs =>
    let c := c.receive chunk.bytes
    if !c.isOpen then
      -- junk, not a request
      if 16384 < c.inBuf.length then (s, c.kill)
      else if (find crlfcrlf c.inBuf).isSome then handshake s c sends
      else onReadable s c sends recvs
    else if kMaxFramePayload * 2 < c.inBuf.length then (s, c.kill)
    else
      let (s, c) := decodeFrames s c
      if c.dead then (s, c) else onReadable s c sends recvs

/-! ## 4. The server -/

/-- What one call of `service()` meets, descriptor by descriptor. -/
structure Round where
  /-- The descriptors `accept` returns. -/
  accepted : List Nat
  ready : Nat → Ready
  recvs : Nat → List RecvResult
  /-- For the flush of a response to a request. -/
  responseSends : Nat → List SendResult
  /-- For the flush on `POLLOUT`. -/
  pollSends : Nat → List SendResult
  /-- For the flush of the reply to the k-th command. -/
  replySends : Nat → List SendResult

/-- A handler answers a command; `σ` is the state it works on. -/
abbrev CommandHandler (σ : Type) := Bytes → σ → Bytes × σ

/-- A call of the handler: the command and its reply. -/
structure Call where
  command : Pending
  reply : Bytes
  deriving DecidableEq

structure Server where
  shared : Shared
  clients : List Client := []
  /-- How many connections were ever accepted. -/
  accepted : Nat := 0
  /-- The connections closed, as they were then. -/
  closed : List Client := []
  /-- Every call of the handler, in order. -/
  calls : List Call := []

namespace Server

/-- The server as constructed, listening. -/
def start (maxBacklog : UInt64) : Server := { shared := { maxBacklog := maxBacklog } }

def acceptNew (srv : Server) (fds : List Nat) : Server :=
  fds.foldl (fun srv fd =>
    { srv with clients := srv.clients ++ [{ fd := fd, conn := srv.accepted }],
               accepted := srv.accepted + 1 }) srv

/-- An entry of `pfds_`: `POLLIN` is always asked for. -/
structure PollFd where
  fd : Nat
  pollout : Bool

/-- What `poll` writes into an entry; a `poll` that fails reports nothing ready. -/
def revents (round : Round) (p : PollFd) : Ready :=
  let ready := round.ready p.fd
  { ready with writable := ready.writable && p.pollout }

/-- The poll loop's work on one client. -/
def pollClient (round : Round) (s : Shared) (c : Client) (ready : Ready) : Shared × Client :=
  if ready.error then (s, c.kill)
  else
    let (s, c) :=
      if ready.readable then onReadable s c (round.responseSends c.fd) (round.recvs c.fd)
      else (s, c)
    (s, if ready.writable then c.flush (round.pollSends c.fd) else c)

/-- The poll loop: the clients and the entries of `pfds_`, side by side. -/
def pollLoop (round : Round) (s : Shared) : List Client → List Ready → Shared × List Client
  | c :: cs, ready :: rs =>
    let (s, c) := pollClient round s c ready
    let (s, cs) := pollLoop round s cs rs
    (s, c :: cs)
  | cs, _ => (s, cs)

def poll (round : Round) (srv : Server) : Server :=
  let pfds := srv.clients.map fun c => ({ fd := c.fd, pollout := !c.out.isEmpty } : PollFd)
  let (s, cs) := pollLoop round srv.shared srv.clients (pfds.map (revents round))
  { srv with shared := s, clients := cs }

/-- The reply goes to the first client of the descriptor that is open and not dead. -/
def replyTo (s : Shared) (fd : Nat) (frame : Bytes) (sends : List SendResult) :
    List Client → Shared × List Client
  | [] => (s, [])
  | c :: cs =>
    if c.fd ≠ fd ∨ c.dead ∨ !c.isOpen then
      let (s, cs) := replyTo s fd frame sends cs
      (s, c :: cs)
    else if s.maxBacklog.toNat < c.out.length + frame.length then
      ({ s with dropped := s.dropped + 1 }, c :: cs)
    else (s, (c.enqueue frame).flush sends :: cs)

section Handler

variable {σ : Type} (handler : Option (CommandHandler σ))

/-- The reply to a command, and the handler's state after it. -/
def answer (text : Bytes) (st : σ) : Bytes × σ :=
  match handler with
  | some h => h text st
  | none => (ascii "\x7b\"ok\":false,\"error\":\"no handler\"\x7d", st)

/-- One command dispatched. -/
def dispatchOne (sends : List SendResult) (srv : Server) (st : σ) (p : Pending) : Server × σ :=
  let (reply, st) := answer handler p.text st
  let srv := { srv with calls := srv.calls ++ [{ command := p, reply := reply }] }
  if reply.isEmpty then (srv, st)
  else
    let (s, cs) := replyTo srv.shared p.fd (encodeText reply) sends srv.clients
    ({ srv with shared := s, clients := cs }, st)

def dispatchPending (round : Round) (srv : Server) (st : σ) : Server × σ :=
  let (srv, st) := srv.shared.pending.zipIdx.foldl
    (fun r p => dispatchOne handler (round.replySends p.2) r.1 r.2 p.1) (srv, st)
  ({ srv with shared := { srv.shared with pending := [] } }, st)

def reap (srv : Server) : Server :=
  { srv with clients := srv.clients.filter (!·.dead),
             closed := srv.closed ++ srv.clients.filter (·.dead) }

/-- Accept, read, dispatch commands, flush. -/
def service (round : Round) (srv : Server) (st : σ) : Server × σ :=
  let srv := srv.acceptNew round.accepted
  if srv.clients.isEmpty then (srv, st)
  else
    let (srv, st) := (srv.poll round).dispatchPending handler round st
    (srv.reap, st)

/-- A client whose backlog the frame would exceed goes without it. -/
def broadcastTo (frame : Bytes) (sends : List SendResult) (s : Shared) (c : Client) :
    Shared × Client :=
  if c.dead ∨ !c.isOpen then (s, c)
  else if s.maxBacklog.toNat < c.out.length + frame.length then
    ({ s with dropped := s.dropped + 1 }, c)
  else (s, (c.enqueue frame).flush sends)

def broadcastLoop (frame : Bytes) (sends : Nat → List SendResult) (s : Shared) :
    List Client → Shared × List Client
  | [] => (s, [])
  | c :: cs =>
    let (s, c) := broadcastTo frame (sends c.fd) s c
    let (s, cs) := broadcastLoop frame sends s cs
    (s, c :: cs)

def broadcast (text : Bytes) (sends : Nat → List SendResult) (srv : Server) : Server :=
  if srv.clients.isEmpty then srv
  else
    let (s, cs) := broadcastLoop (encodeText text) sends srv.shared srv.clients
    { srv with shared := s, clients := cs }.reap

def clientCount (srv : Server) : Nat := (srv.clients.filter fun c => c.isOpen && !c.dead).length

/-! ## 5. Runs -/

/-- The states a server reaches whose rounds all meet `ok`, from its construction on. -/
inductive Reachable (maxBacklog : UInt64) (st₀ : σ) (ok : Server → Round → Prop) :
    Server → σ → Prop where
  | start : Reachable maxBacklog st₀ ok (start maxBacklog) st₀
  | service {srv : Server} {st : σ} (h : Reachable maxBacklog st₀ ok srv st) (round : Round)
      (hok : ok srv round) :
      Reachable maxBacklog st₀ ok (srv.service handler round st).1 (srv.service handler round st).2
  | broadcast {srv : Server} {st : σ} (h : Reachable maxBacklog st₀ ok srv st) (text : Bytes)
      (sends : Nat → List SendResult) :
      Reachable maxBacklog st₀ ok (srv.broadcast text sends) st

end Handler

end Server

end OddsEngine.Ws
