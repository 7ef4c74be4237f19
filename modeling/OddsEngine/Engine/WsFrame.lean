/-
  File:      OddsEngine/Engine/WsFrame.lean
  Subject:   The frames of the dashboard connection (encode_text, pong and one round of
             decode_frames, engine/WsServer.hpp; the frame writer of tools/ws_cmd.py).

  `nextFrame` looks at the front of a client's buffer, in the order `decode_frames` does: the two
  header bytes, the extended length, the limit, the mask bit, the mask key, the payload.

  * `frameReader` -- neither a frame nor a protocol error found is taken back when more bytes
    arrive, so the frame reader is a `Reader`;
  * `nextFrame_bytes` -- a client frame written as RFC 6455 says is read back with whatever stands
    behind it, or refused for its length;
  * `ServerFrame` -- a whole unmasked frame; `encodeText` and `pongFrame` give one.
-/
import OddsEngine.Engine.Command
import OddsEngine.Lib.BigEndian
import OddsEngine.Lib.Scan

namespace OddsEngine.Ws

open Lib

/-! ## 1. The length field -/

/-- The payload length a header states, and how many of the bytes behind the two header bytes it
    takes; `none` where they have not all arrived. -/
def lengthField (len7 : Nat) (rest : Bytes) : Option (Nat × Nat) :=
  if len7 = 126 then if rest.length < 2 then none else some (beNat (rest.take 2), 2)
  else if len7 = 127 then if rest.length < 8 then none else some (beNat (rest.take 8), 8)
  else some (len7, 0)

theorem lengthField_size {len7 : Nat} {rest : Bytes} {len extra : Nat}
    (h : lengthField len7 rest = some (len, extra)) : extra ≤ rest.length ∧ extra ≤ 8 := by
  unfold lengthField at h
  split at h
  · split at h
    · cases h
    · cases h
      omega
  · split at h
    · split at h
      · cases h
      · cases h
        omega
    · cases h
      omega

/-- The field depends on its own bytes only. -/
theorem lengthField_stable {len7 : Nat} {rest : Bytes} {len extra : Nat}
    (h : lengthField len7 rest = some (len, extra)) {rest' : Bytes}
    (hrest : rest'.take extra = rest.take extra) : lengthField len7 rest' = some (len, extra) := by
  have hlen : min extra rest'.length = min extra rest.length := by
    simpa using congrArg List.length hrest
  have hsize := lengthField_size h
  unfold lengthField at h ⊢
  split at h
  · next h126 =>
    split at h
    · cases h
    · cases h
      rw [if_pos h126, if_neg (by omega), hrest]
  · next h126 =>
    split at h
    · next h127 =>
      split at h
      · cases h
      · cases h
        rw [if_neg h126, if_pos h127, if_neg (by omega), hrest]
    · next h127 =>
      cases h
      rw [if_neg h126, if_neg h127]

/-! ## 2. Frames from a client -/

def kMaxFramePayload : Nat := 64 * 1024

structure Frame where
  opcode : UInt8
  payload : Bytes
  deriving DecidableEq, Repr

/-- `p[i] ^ mask[i % 4]`. -/
def unmask (mask data : Bytes) : Bytes := data.mapIdx fun i b => b ^^^ mask.getD (i % 4) 0

@[simp] theorem length_unmask (mask data : Bytes) : (unmask mask data).length = data.length := by
  simp [unmask]

@[simp] theorem unmask_unmask (mask data : Bytes) : unmask mask (unmask mask data) = data := by
  unfold unmask
  rw [List.mapIdx_mapIdx]
  refine List.ext_getElem (by simp) fun i h1 h2 => ?_
  rw [List.getElem_mapIdx]
  show (data[i] ^^^ _) ^^^ _ = data[i]
  rw [UInt8.xor_assoc, UInt8.xor_self, UInt8.xor_zero]

/-- What one round of `decode_frames` finds at the front of the buffer. -/
def nextFrame : Bytes → Scan Frame
  | b0 :: b1 :: rest =>
    match lengthField (b1 &&& 0x7F).toNat rest with
    | none => .more
    | some (len, extra) =>
      if kMaxFramePayload < len then .fail
      -- client-to-server frames must be masked
      else if b1 &&& 0x80 = 0 then .fail
      else if rest.length < extra + 4 then .more
      else if rest.length < extra + 4 + len then .more
      else
        let mask := (rest.drop extra).take 4
        .item { opcode := b0 &&& 0x0F, payload := unmask mask ((rest.drop (extra + 4)).take len) }
          (extra + 4 + len + 2)
  | _ => .more

/-- Everything a round can find: too few bytes, and then fewer than the largest frame takes; an
    error, from a length over the limit or a missing mask bit; or a frame, all of it there. -/
theorem nextFrame_cases (bs : Bytes) :
    (nextFrame bs = .more ∧ bs.length ≤ kMaxFramePayload + 13) ∨
    (∃ b0 b1 rest len extra, bs = b0 :: b1 :: rest ∧
      lengthField (b1 &&& 0x7F).toNat rest = some (len, extra) ∧
      (kMaxFramePayload < len ∨ b1 &&& 0x80 = 0) ∧ nextFrame bs = .fail) ∨
    (∃ b0 b1 rest len extra, bs = b0 :: b1 :: rest ∧
      lengthField (b1 &&& 0x7F).toNat rest = some (len, extra) ∧
      ¬ kMaxFramePayload < len ∧ ¬ b1 &&& 0x80 = 0 ∧ extra + 4 + len ≤ rest.length ∧
      nextFrame bs = .item
        ⟨b0 &&& 0x0F, unmask ((rest.drop extra).take 4) ((rest.drop (extra + 4)).take len)⟩
        (extra + 4 + len + 2)) := by
  have hkMax : kMaxFramePayload = 65536 := rfl
  rcases bs with _ | ⟨b0, _ | ⟨b1, rest⟩⟩
  · exact Or.inl ⟨rfl, by simp⟩
  · exact Or.inl ⟨rfl, by simp⟩
  cases hl : lengthField (b1 &&& 0x7F).toNat rest with
  | none =>
    refine Or.inl ⟨by rw [nextFrame, hl], ?_⟩
    have hshort : rest.length < 8 := by
      unfold lengthField at hl
      split at hl
      · split at hl
        · omega
        · cases hl
      · split at hl
        · split at hl
          · omega
          · cases hl
        · cases hl
    simp only [List.length_cons]
    omega
  | some field =>
    obtain ⟨len, extra⟩ := field
    have hext := (lengthField_size hl).2
    by_cases hmax : kMaxFramePayload < len
    · refine Or.inr (Or.inl ⟨b0, b1, rest, len, extra, rfl, hl, Or.inl hmax, ?_⟩)
      rw [nextFrame, hl]
      exact if_pos hmax
    by_cases hmask : b1 &&& 0x80 = 0
    · refine Or.inr (Or.inl ⟨b0, b1, rest, len, extra, rfl, hl, Or.inr hmask, ?_⟩)
      rw [nextFrame, hl]
      dsimp only
      rw [if_neg hmax, if_pos hmask]
    by_cases hall : rest.length < extra + 4 + len
    · refine Or.inl ⟨?_, by simp only [List.length_cons]; omega⟩
      rw [nextFrame, hl]
      dsimp only
      rw [if_neg hmax, if_neg hmask, if_pos hall, ite_self]
    · refine Or.inr (Or.inr ⟨b0, b1, rest, len, extra, rfl, hl, hmax, hmask,
        Nat.not_lt.mp hall, ?_⟩)
      rw [nextFrame, hl]
      dsimp only
      rw [if_neg hmax, if_neg hmask, if_neg (by omega), if_neg hall]

theorem nextFrame_item {bs : Bytes} {f : Frame} {n : Nat} (h : nextFrame bs = .item f n) :
    ∃ b0 b1 rest len extra, bs = b0 :: b1 :: rest ∧
      lengthField (b1 &&& 0x7F).toNat rest = some (len, extra) ∧ ¬ kMaxFramePayload < len ∧
      ¬ b1 &&& 0x80 = 0 ∧ extra + 4 + len ≤ rest.length ∧ n = extra + 4 + len + 2 ∧
      f = ⟨b0 &&& 0x0F, unmask ((rest.drop extra).take 4) ((rest.drop (extra + 4)).take len)⟩ := by
  rcases nextFrame_cases bs with ⟨e, -⟩ | ⟨b0, b1, rest, len, extra, -, -, -, e⟩ |
    ⟨b0, b1, rest, len, extra, rfl, hl, hmax, hmask, hall, e⟩
  · rw [e] at h
    cases h
  · rw [e] at h
    cases h
  · rw [e] at h
    cases h
    exact ⟨b0, b1, rest, len, extra, rfl, hl, hmax, hmask, hall, rfl, rfl⟩

theorem nextFrame_fail {bs : Bytes} (h : nextFrame bs = .fail) :
    ∃ b0 b1 rest len extra, bs = b0 :: b1 :: rest ∧
      lengthField (b1 &&& 0x7F).toNat rest = some (len, extra) ∧
      (kMaxFramePayload < len ∨ b1 &&& 0x80 = 0) := by
  rcases nextFrame_cases bs with ⟨e, -⟩ | ⟨b0, b1, rest, len, extra, hbs, hl, hbad, -⟩ |
    ⟨b0, b1, rest, len, extra, -, -, -, -, -, e⟩
  · rw [e] at h
    cases h
  · exact ⟨b0, b1, rest, len, extra, hbs, hl, hbad⟩
  · rw [e] at h
    cases h

/-- Where less than a frame is there, it is less than a frame of the largest kind. -/
theorem nextFrame_more {bs : Bytes} (h : nextFrame bs = .more) :
    bs.length ≤ kMaxFramePayload + 13 := by
  rcases nextFrame_cases bs with ⟨-, hlen⟩ | ⟨b0, b1, rest, len, extra, -, -, -, e⟩ |
    ⟨b0, b1, rest, len, extra, -, -, -, -, -, e⟩
  · exact hlen
  · rw [e] at h
    cases h
  · rw [e] at h
    cases h

/-- **The frame reader**: what it says of a buffer stands when more bytes arrive. -/
def frameReader : Reader UInt8 Frame where
  read := nextFrame
  item_size h := by
    obtain ⟨b0, b1, rest, len, extra, rfl, -, -, -, hall, rfl, -⟩ := nextFrame_item h
    simp only [List.length_cons]
    omega
  item_stable h cs := by
    obtain ⟨b0, b1, rest, len, extra, rfl, hl, hmax, hmask, hall, rfl, rfl⟩ := nextFrame_item h
    have htake : (b0 :: b1 :: rest).take (extra + 4 + len + 2) = b0 :: b1 :: rest.take (extra + 4 + len) :=
      rfl
    have hlen : (rest.take (extra + 4 + len)).length = extra + 4 + len := List.length_take_of_le hall
    have hkeep : ∀ k j, k + j ≤ extra + 4 + len →
        ((rest.take (extra + 4 + len) ++ cs).drop k).take j = (rest.drop k).take j := by
      intro k j hkj
      rw [List.drop_append_of_le_length (by omega), List.take_append_of_le_length
        (by rw [List.length_drop]; omega), List.drop_take, List.take_take]
      congr 1
      omega
    have hl' : lengthField (b1 &&& 0x7F).toNat (rest.take (extra + 4 + len) ++ cs) =
        some (len, extra) := lengthField_stable hl (hkeep 0 extra (by omega))
    rw [htake, List.cons_append, List.cons_append, nextFrame, hl']
    dsimp only
    rw [if_neg hmax, if_neg hmask, if_neg (by rw [List.length_append]; omega),
      if_neg (by rw [List.length_append]; omega), hkeep extra 4 (by omega),
      hkeep (extra + 4) len (by omega)]
  fail_stable h cs := by
    obtain ⟨b0, b1, rest, len, extra, rfl, hl, hbad⟩ := nextFrame_fail h
    have hl' : lengthField (b1 &&& 0x7F).toNat (rest ++ cs) = some (len, extra) :=
      lengthField_stable hl (List.take_append_of_le_length (lengthField_size hl).1)
    rw [List.cons_append, List.cons_append, nextFrame, hl']
    dsimp only
    rcases hbad with hmax | hmask
    · rw [if_pos hmax]
    · by_cases hmax : kMaxFramePayload < len
      · rw [if_pos hmax]
      · rw [if_neg hmax, if_pos hmask]

/-! ## 3. Frames as a client writes them -/

/-- Where a frame states its length: in the header byte, or in 16 or 64 bits behind it. -/
inductive LengthForm where
  | short
  | u16
  | u64
  deriving DecidableEq, Repr

def LengthForm.Holds : LengthForm → Nat → Prop
  | .short, n => n < 126
  | .u16, n => n < 256 ^ 2
  | .u64, n => n < 256 ^ 8

instance (form : LengthForm) (n : Nat) : Decidable (form.Holds n) :=
  match form with
  | .short => inferInstanceAs (Decidable (n < 126))
  | .u16 => inferInstanceAs (Decidable (n < 256 ^ 2))
  | .u64 => inferInstanceAs (Decidable (n < 256 ^ 8))

/-- The seven bits of the header byte. -/
def LengthForm.len7 : LengthForm → Nat → Fin 128
  | .short, n => Fin.ofNat 128 n
  | .u16, _ => 126
  | .u64, _ => 127

/-- The bytes behind the header byte. -/
def LengthForm.extra : LengthForm → Nat → Bytes
  | .short, _ => []
  | .u16, n => beBytes 2 n
  | .u64, n => beBytes 8 n

/-- **Each form is read back**, with anything behind it. -/
theorem lengthField_extra {form : LengthForm} {n : Nat} (h : form.Holds n) (rest : Bytes) :
    lengthField (form.len7 n).val (form.extra n ++ rest) = some (n, (form.extra n).length) := by
  cases form with
  | short =>
    have hn : (LengthForm.short.len7 n).val = n := Nat.mod_eq_of_lt (Nat.lt_trans h (by decide))
    have h126 : n < 126 := h
    rw [lengthField, hn, if_neg (by omega), if_neg (by omega)]
    rfl
  | u16 =>
    have hn : beNat (beBytes 2 n) = n := beNat_beBytes h
    have hlen : (beBytes 2 n).length = 2 := beBytes_length 2 n
    have htake : (beBytes 2 n ++ rest).take 2 = beBytes 2 n := List.take_left' hlen
    show (if (126 : Nat) = 126 then _ else _) = some (n, (beBytes 2 n).length)
    rw [if_pos rfl]
    show (if (beBytes 2 n ++ rest).length < 2 then _ else _) = _
    rw [if_neg (by rw [List.length_append]; omega)]
    show some (beNat ((beBytes 2 n ++ rest).take 2), 2) = _
    rw [htake, hn, hlen]
  | u64 =>
    have hn : beNat (beBytes 8 n) = n := beNat_beBytes h
    have hlen : (beBytes 8 n).length = 8 := beBytes_length 8 n
    have htake : (beBytes 8 n ++ rest).take 8 = beBytes 8 n := List.take_left' hlen
    show (if (127 : Nat) = 126 then _ else if (127 : Nat) = 127 then _ else _) =
      some (n, (beBytes 8 n).length)
    rw [if_neg (by decide), if_pos rfl]
    show (if (beBytes 8 n ++ rest).length < 8 then _ else _) = _
    rw [if_neg (by rw [List.length_append]; omega)]
    show some (beNat ((beBytes 8 n ++ rest).take 8), 8) = _
    rw [htake, hn, hlen]

/-- A masked frame before it is laid out in bytes. -/
structure ClientFrame where
  fin : Bool
  opcode : Fin 16
  mask : Bytes
  form : LengthForm
  payload : Bytes
  mask_length : mask.length = 4
  holds : form.Holds payload.length

namespace ClientFrame

/-- What the server is to make of the frame. -/
def frame (f : ClientFrame) : Frame := { opcode := f.opcode.val.toUInt8, payload := f.payload }

/-- The frame on the wire (RFC 6455, section 5.2). -/
def bytes (f : ClientFrame) : Bytes :=
  ((if f.fin then 0x80 else 0) ||| f.opcode.val.toUInt8) ::
    (0x80 ||| (f.form.len7 f.payload.length).val.toUInt8) ::
      (f.form.extra f.payload.length ++ (f.mask ++ unmask f.mask f.payload))

theorem opcode_bits (fin : Bool) (opcode : Fin 16) :
    ((if fin then 0x80 else 0) ||| opcode.val.toUInt8 : UInt8) &&& 0x0F = opcode.val.toUInt8 := by
  revert fin opcode
  decide

theorem length_bits (len7 : Fin 128) :
    ((0x80 ||| len7.val.toUInt8 : UInt8) &&& 0x7F).toNat = len7.val ∧
      ¬ (0x80 ||| len7.val.toUInt8 : UInt8) &&& 0x80 = 0 := by
  revert len7
  decide

/-- **A frame written is a frame read**, with anything behind it; over the limit, it is refused. -/
theorem nextFrame_bytes (f : ClientFrame) (rest : Bytes) :
    nextFrame (f.bytes ++ rest) =
      if kMaxFramePayload < f.payload.length then .fail else .item f.frame f.bytes.length := by
  have hfield := lengthField_extra f.holds (f.mask ++ unmask f.mask f.payload ++ rest)
  obtain ⟨hlen7, hmask⟩ := length_bits (f.form.len7 f.payload.length)
  have hm := f.mask_length
  have hmask4 : ∀ tail : Bytes,
      ((f.form.extra f.payload.length ++ (f.mask ++ tail)).drop
        (f.form.extra f.payload.length).length).take 4 = f.mask := by
    intro tail
    rw [List.drop_left, List.take_left' hm]
  have hbody : (f.form.extra f.payload.length ++
      (f.mask ++ (unmask f.mask f.payload ++ rest))).drop
        ((f.form.extra f.payload.length).length + 4) = unmask f.mask f.payload ++ rest := by
    rw [← List.drop_drop, List.drop_left, ← hm, List.drop_left]
  have htotal : (f.form.extra f.payload.length ++
      (f.mask ++ (unmask f.mask f.payload ++ rest))).length =
        (f.form.extra f.payload.length).length + 4 + f.payload.length + rest.length := by
    simp only [List.length_append, length_unmask]
    omega
  rw [bytes, List.cons_append, List.cons_append, nextFrame, hlen7, List.append_assoc,
    List.append_assoc, ← List.append_assoc f.mask, hfield]
  dsimp only
  by_cases hmax : kMaxFramePayload < f.payload.length
  · rw [if_pos hmax, if_pos hmax]
  · rw [if_neg hmax, if_neg hmax, if_neg hmask, List.append_assoc f.mask,
      if_neg (by rw [htotal]; omega), if_neg (by rw [htotal]; omega), hmask4, hbody,
      List.take_left' (length_unmask _ _), unmask_unmask, opcode_bits, frame]
    simp only [List.length_cons, List.length_append, length_unmask]
    congr 1
    omega

end ClientFrame

/-! ## 4. Frames as the server writes them -/

/-- `encode_text`: never masked, as section 5.1 has it. -/
def encodeText (payload : Bytes) : Bytes :=
  let n := payload.length
  0x81 :: ((if n < 126 then [n.toUInt8]
    else if n ≤ 0xFFFF then 126 :: beBytes 2 n
    else 127 :: beBytes 8 n) ++ payload)

/-- What `pong` answers with: at most 125 bytes of the ping's payload. -/
def pongFrame (payload : Bytes) : Bytes :=
  0x8A :: (min payload.length 125).toUInt8 :: payload.take (min payload.length 125)

/-- A whole frame, neither masked nor a fragment: its length is the one its header states. -/
def ServerFrame (f : Bytes) : Prop :=
  ∃ b0 b1 rest len extra, f = b0 :: b1 :: rest ∧ b0 &&& 0xF0 = 0x80 ∧ b1 &&& 0x80 = 0 ∧
    lengthField (b1 &&& 0x7F).toNat rest = some (len, extra) ∧ rest.length = extra + len

theorem serverLength_bits (len7 : Fin 128) :
    (len7.val.toUInt8 &&& 0x7F).toNat = len7.val ∧ len7.val.toUInt8 &&& 0x80 = 0 := by
  revert len7
  decide

/-- A header in any of the three forms, and the payload it announces. -/
theorem serverFrame_of_form {b0 : UInt8} {form : LengthForm} {payload : Bytes}
    (hb0 : b0 &&& 0xF0 = 0x80) (h : form.Holds payload.length) :
    ServerFrame (b0 :: (form.len7 payload.length).val.toUInt8 ::
      (form.extra payload.length ++ payload)) := by
  obtain ⟨hlen7, hmask⟩ := serverLength_bits (form.len7 payload.length)
  refine ⟨b0, _, _, payload.length, (form.extra payload.length).length, rfl, hb0, hmask, ?_,
    List.length_append⟩
  rw [hlen7]
  exact lengthField_extra h payload

/-- `encode_text` writes a header in the shortest form that holds the length. -/
theorem encodeText_form {payload : Bytes} (h : payload.length < 256 ^ 8) :
    ∃ form : LengthForm, form.Holds payload.length ∧
      encodeText payload = 0x81 :: (form.len7 payload.length).val.toUInt8 ::
        (form.extra payload.length ++ payload) := by
  unfold encodeText
  dsimp only
  split
  · next hn =>
    have hlen7 : (LengthForm.short.len7 payload.length).val = payload.length :=
      Nat.mod_eq_of_lt (Nat.lt_trans hn (by decide))
    refine ⟨.short, hn, ?_⟩
    rw [hlen7]
    rfl
  · split
    · next hn => exact ⟨.u16, Nat.lt_succ_of_le hn, rfl⟩
    · exact ⟨.u64, h, rfl⟩

/-- **`encode_text` writes one whole frame.** -/
theorem serverFrame_encodeText {payload : Bytes} (h : payload.length < 256 ^ 8) :
    ServerFrame (encodeText payload) := by
  have hb0 : (0x81 : UInt8) &&& 0xF0 = 0x80 := by decide
  obtain ⟨form, hholds, hencode⟩ := encodeText_form h
  rw [hencode]
  exact serverFrame_of_form hb0 hholds

/-- **`pong` writes one whole frame.** -/
theorem serverFrame_pongFrame (payload : Bytes) : ServerFrame (pongFrame payload) := by
  have hlen : (payload.take (min payload.length 125)).length = min payload.length 125 := by
    rw [List.length_take]
    omega
  have hholds : LengthForm.short.Holds (payload.take (min payload.length 125)).length := by
    show (payload.take (min payload.length 125)).length < 126
    omega
  have hlen7 : (LengthForm.short.len7 (payload.take (min payload.length 125)).length).val =
      min payload.length 125 := by
    rw [hlen]
    exact Nat.mod_eq_of_lt (by omega)
  have hb0 : (0x8A : UInt8) &&& 0xF0 = 0x80 := by decide
  have hframe := serverFrame_of_form hb0 hholds
  rw [hlen7] at hframe
  exact hframe

theorem length_encodeText_le (payload : Bytes) :
    payload.length ≤ (encodeText payload).length := by
  unfold encodeText
  simp only [List.length_cons, List.length_append]
  omega

end OddsEngine.Ws
