/-
  File:      OddsEngine/Tools/WsCmd.lean
  Subject:   The frame reader of the command-line client (tools/ws_cmd.py), against the engine's
             frame writer.

  `read_frame` asks its socket for the two header bytes, the extended length, the mask key and the
  payload, each as often as it takes: a socket may hand out less than it was asked for. Here it is
  the list of the pieces in which the rest of the stream comes in.

  * `need_eq` -- however the stream is cut, `need` returns its next bytes, and leaves the others;
  * `readFrame_encodeText` -- a frame of `encode_text` is read as the text it was made of;
  * `readFrames_encodeText` -- and so are any number of them, one behind the other.
-/
import OddsEngine.Engine.WsFrame

namespace OddsEngine.WsCmd

open Lib
open OddsEngine.Ws

inductive PyError where
  | runtimeError (text : Bytes)
  | overflowError
  deriving DecidableEq

/-- The pieces in which the rest of the stream comes in. Behind them the connection is closed. -/
abbrev Sock := List Bytes

/-- `sock.recv(n)`: what is there of the next piece, `n` bytes at most; nothing when closed. -/
def recv (n : Nat) : Sock → Bytes × Sock
  | [] => ([], [])
  | [] :: pieces => recv n pieces
  | (b :: piece) :: pieces => ((b :: piece).take n, (b :: piece).drop n :: pieces)

theorem recv_append (n : Nat) (sock : Sock) :
    (recv n sock).1 ++ (recv n sock).2.flatten = sock.flatten := by
  fun_induction recv n sock with
  | case1 => rfl
  | case2 pieces ih => simpa using ih
  | case3 b piece pieces => simp [← List.append_assoc]

theorem length_recv_le (n : Nat) (sock : Sock) : (recv n sock).1.length ≤ n := by
  fun_induction recv n sock with
  | case1 => exact Nat.zero_le n
  | case2 pieces ih => exact ih
  | case3 b piece pieces => exact List.length_take_le _ _

/-- Only a closed connection hands out nothing. -/
theorem recv_ne_nil {n : Nat} (hn : 0 < n) {sock : Sock} (h : sock.flatten ≠ []) :
    (recv n sock).1 ≠ [] := by
  fun_induction recv n sock with
  | case1 => exact absurd rfl h
  | case2 pieces ih => exact ih (by simpa using h)
  | case3 b piece pieces =>
    obtain ⟨m, rfl⟩ := Nat.exists_eq_succ_of_ne_zero hn.ne'
    exact List.cons_ne_nil _ _

/-- `need(n)`, with `buf` already there. `recv` takes no number of 2^63 or more. -/
def need (n : Nat) (buf : Bytes) (sock : Sock) : Except PyError (Bytes × Sock) :=
  if buf.length < n then
    if 2 ^ 63 ≤ n - buf.length then .error .overflowError
    else
      match recv (n - buf.length) sock with
      | ([], _) => .error (.runtimeError (ascii "connection closed mid-frame"))
      | (b :: d, sock) => need n (buf ++ b :: d) sock
  else .ok (buf, sock)
termination_by n - buf.length
decreasing_by
  rw [List.length_append, List.length_cons]
  omega

/-- `struct.unpack` of a length: 2 or 8 bytes, highest first. -/
def readLength (len7 : Nat) (sock : Sock) : Except PyError (Nat × Sock) :=
  if len7 = 126 then do
    let (bs, sock) ← need 2 [] sock
    pure (beNat bs, sock)
  else if len7 = 127 then do
    let (bs, sock) ← need 8 [] sock
    pure (beNat bs, sock)
  else pure (len7, sock)

/-- The mask key of a frame, if its header says that it has one. -/
def readMask (masked : Bool) (sock : Sock) : Except PyError (Option Bytes × Sock) :=
  if masked then do
    let (mask, sock) ← need 4 [] sock
    pure (some mask, sock)
  else pure (none, sock)

/-- `read_frame`: the opcode and the payload. -/
def readFrame (sock : Sock) : Except PyError ((UInt8 × Bytes) × Sock) := do
  let (head, sock) ← need 2 [] sock
  let b0 := head.getD 0 0
  let b1 := head.getD 1 0
  let (length, sock) ← readLength (b1 &&& 0x7F).toNat sock
  let (mask, sock) ← readMask (b1 &&& 0x80 != 0) sock
  let (payload, sock) ← need length [] sock
  pure ((b0 &&& 0x0F, mask.elim payload fun m => unmask m payload), sock)

/-- `k` frames, one after the other. -/
def readFrames : Nat → Sock → Except PyError (List (UInt8 × Bytes) × Sock)
  | 0, sock => pure ([], sock)
  | k + 1, sock => do
    let (frame, sock) ← readFrame sock
    let (frames, sock) ← readFrames k sock
    pure (frame :: frames, sock)

/-! ## 1. Pieces do not matter -/

/-- **`need` returns the next bytes**, however the stream is cut, and leaves the rest. -/
theorem need_eq {n : Nat} (hn : n < 2 ^ 63) {buf : Bytes} (hbuf : buf.length ≤ n) {sock : Sock}
    (h : n ≤ buf.length + sock.flatten.length) :
    ∃ sock', need n buf sock = .ok (buf ++ sock.flatten.take (n - buf.length), sock') ∧
      sock'.flatten = sock.flatten.drop (n - buf.length) := by
  induction hk : n - buf.length using Nat.strong_induction_on generalizing buf sock with
  | _ k ih =>
    subst hk
    unfold need
    by_cases hmore : buf.length < n
    · have hne : sock.flatten ≠ [] := fun e => by
        rw [e, List.length_nil] at h
        omega
      have hgot := recv_ne_nil (Nat.sub_pos_of_lt hmore) hne
      have hlen := length_recv_le (n - buf.length) sock
      have hsplit := recv_append (n - buf.length) sock
      rw [if_pos hmore, if_neg (by omega)]
      generalize recv (n - buf.length) sock = r at hgot hlen hsplit
      obtain ⟨_ | ⟨b, d⟩, sock1⟩ := r
      · exact absurd rfl hgot
      · -- some bytes came in; the rest of the loop asks for what is left
        have hlength : (buf ++ b :: d).length = buf.length + (b :: d).length := List.length_append
        have hpos : 0 < (b :: d).length := Nat.succ_pos _
        have hcount : n - buf.length = (b :: d).length + (n - (buf ++ b :: d).length) := by
          dsimp only at hlen
          omega
        have htotal : (b :: d).length + sock1.flatten.length = sock.flatten.length := by
          rw [← hsplit, List.length_append]
        obtain ⟨sock', hneed, hrest⟩ := @ih (n - (buf ++ b :: d).length) (by omega)
          (buf ++ b :: d) (by dsimp only at hlen; omega) sock1 (by omega) rfl
        refine ⟨sock', ?_, ?_⟩
        · dsimp only
          rw [hneed, hcount, ← hsplit, List.take_length_add_append, List.append_assoc]
        · rw [hrest, hcount, ← hsplit, List.drop_length_add_append]
    · have hdone : n - buf.length = 0 := by omega
      rw [if_neg hmore, hdone]
      exact ⟨sock, by rw [List.take_zero, List.append_nil], rfl⟩

/-- `need` at the start of a stream that begins with `bs`. -/
theorem need_of_prefix {bs rest : Bytes} (hlen : bs.length < 2 ^ 63) {sock : Sock}
    (h : sock.flatten = bs ++ rest) :
    ∃ sock', need bs.length [] sock = .ok (bs, sock') ∧ sock'.flatten = rest := by
  obtain ⟨sock', hneed, hrest⟩ := @need_eq bs.length hlen [] (Nat.zero_le _) sock
    (by rw [h, List.length_append, List.length_nil]; omega)
  rw [h, List.length_nil, Nat.sub_zero, List.nil_append, List.take_left] at hneed
  rw [h, List.length_nil, Nat.sub_zero, List.drop_left] at hrest
  exact ⟨sock', hneed, hrest⟩

/-! ## 2. The engine's frames -/

/-- Each form of the length field is read as the length it was made of. -/
theorem readLength_extra {form : LengthForm} {n : Nat} (h : form.Holds n) {rest : Bytes}
    {sock : Sock} (hsock : sock.flatten = form.extra n ++ rest) :
    ∃ sock', readLength (form.len7 n).val sock = .ok (n, sock') ∧ sock'.flatten = rest := by
  cases form with
  | short =>
    have hlt : n < 126 := h
    have hn : (LengthForm.short.len7 n).val = n := Nat.mod_eq_of_lt (hlt.trans (by decide))
    refine ⟨sock, ?_, hsock⟩
    rw [readLength, hn, if_neg (by omega), if_neg (by omega)]
    rfl
  | u16 =>
    have hlen : (beBytes 2 n).length = 2 := beBytes_length 2 n
    have hsmall : (beBytes 2 n).length < 2 ^ 63 := by rw [hlen]; decide
    obtain ⟨sock', hneed, hrest⟩ := need_of_prefix hsmall hsock
    refine ⟨sock', ?_, hrest⟩
    have hbytes : need 2 [] sock = .ok (beBytes 2 n, sock') := hlen ▸ hneed
    show (need 2 [] sock >>= fun r => pure (beNat r.1, r.2)) = _
    rw [hbytes]
    exact congrArg (fun m => Except.ok (m, sock')) (beNat_beBytes h)
  | u64 =>
    have hlen : (beBytes 8 n).length = 8 := beBytes_length 8 n
    have hsmall : (beBytes 8 n).length < 2 ^ 63 := by rw [hlen]; decide
    obtain ⟨sock', hneed, hrest⟩ := need_of_prefix hsmall hsock
    refine ⟨sock', ?_, hrest⟩
    have hbytes : need 8 [] sock = .ok (beBytes 8 n, sock') := hlen ▸ hneed
    show (need 8 [] sock >>= fun r => pure (beNat r.1, r.2)) = _
    rw [hbytes]
    exact congrArg (fun m => Except.ok (m, sock')) (beNat_beBytes h)

/-- **One frame**, with anything behind it. -/
theorem readFrame_encodeText {payload : Bytes} (h : payload.length < 2 ^ 63) {rest : Bytes}
    {sock : Sock} (hsock : sock.flatten = encodeText payload ++ rest) :
    ∃ sock', readFrame sock = .ok ((1, payload), sock') ∧ sock'.flatten = rest := by
  obtain ⟨form, hholds, hencode⟩ := encodeText_form (h.trans (by decide : 2 ^ 63 < 256 ^ 8))
  obtain ⟨hlen7, hmask⟩ := serverLength_bits (form.len7 payload.length)
  generalize hb1 : (form.len7 payload.length).val.toUInt8 = b1 at hencode hlen7 hmask
  have hhead : sock.flatten = [0x81, b1] ++ (form.extra payload.length ++ (payload ++ rest)) := by
    rw [hsock, hencode]
    simp
  obtain ⟨sock1, hneed1, hrest1⟩ := need_of_prefix (by simp : [0x81, b1].length < 2 ^ 63) hhead
  obtain ⟨sock2, hlength, hrest2⟩ := readLength_extra hholds hrest1
  obtain ⟨sock3, hneed3, hrest3⟩ := need_of_prefix h hrest2
  rw [← hlen7] at hlength
  have hfirst : need 2 [] sock = .ok ([0x81, b1], sock1) := hneed1
  have hunmasked : (b1 &&& 0x80 != 0) = false := by rw [hmask]; rfl
  refine ⟨sock3, ?_, hrest3⟩
  unfold readFrame
  rw [hfirst]
  show (readLength (b1 &&& 0x7F).toNat sock1 >>= _) = _
  rw [hlength]
  show (readMask (b1 &&& 0x80 != 0) sock2 >>= _) = _
  rw [hunmasked]
  show (need payload.length [] sock2 >>= _) = _
  have hopcode : (0x81 : UInt8) &&& 0x0F = 1 := by decide
  rw [hneed3]
  show Except.ok (((0x81 : UInt8) &&& 0x0F, payload), sock3) = _
  rw [hopcode]

/-- **The engine's texts come through**: from the frames of any texts, one behind the other and cut
    into pieces anyhow, `read_frame` returns opcode 1 and each text in order, and nothing is left. -/
theorem readFrames_encodeText (payloads : List Bytes) (h : ∀ p ∈ payloads, p.length < 2 ^ 63)
    (sock : Sock) (hsock : sock.flatten = payloads.flatMap encodeText) :
    ∃ sock', readFrames payloads.length sock = .ok (payloads.map fun p => (1, p), sock') ∧
      sock'.flatten = [] := by
  induction payloads generalizing sock with
  | nil => exact ⟨sock, rfl, hsock⟩
  | cons p payloads ih =>
    rw [List.flatMap_cons] at hsock
    obtain ⟨sock1, hframe, hrest⟩ := readFrame_encodeText (h p List.mem_cons_self) hsock
    obtain ⟨sock', hframes, hend⟩ := ih (fun q hq => h q (List.mem_cons_of_mem p hq)) sock1 hrest
    refine ⟨sock', ?_, hend⟩
    rw [List.length_cons, readFrames, hframe]
    show (readFrames payloads.length sock1 >>= _) = _
    rw [hframes]
    rfl

/-- A short text, an empty one and two that need an extended length, arriving byte by byte. -/
theorem readFrames_encodeText_bytewise :
    let texts : List Bytes := [[104, 105], [], List.replicate 200 104, List.replicate 70000 105]
    ∃ sock', readFrames 4 ((texts.flatMap encodeText).map fun b => [b]) =
      .ok (texts.map fun p => (1, p), sock') ∧ sock'.flatten = [] := by
  intro texts
  have hlen : ∀ p ∈ texts, p.length ≤ 70000 := by
    refine List.forall_mem_cons.mpr ⟨Nat.le_add_left 2 69998, List.forall_mem_cons.mpr
      ⟨Nat.zero_le _, List.forall_mem_cons.mpr ⟨?_, List.forall_mem_cons.mpr
        ⟨?_, fun _ h => absurd h List.not_mem_nil⟩⟩⟩⟩
    · rw [List.length_replicate]
      exact Nat.le_add_left 200 69800
    · rw [List.length_replicate]
  refine readFrames_encodeText texts (fun p hp => lt_of_le_of_lt (hlen p hp) (by decide)) _ ?_
  rw [← List.flatMap_def, List.flatMap_singleton']

end OddsEngine.WsCmd
