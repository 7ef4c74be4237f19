/-
  File:      OddsEngine/Engine/WsAcceptKey.lean
  Subject:   The accept key of a handshake against the standards it is made of
             (sha1, base64 and handshake, engine/WsServer.hpp).

  The digest is computed on bytes, with the OR forms of Ch and Maj and an array for the schedule;
  FIPS 180-4 says it on bits. Base64 is computed three bytes at a time; RFC 4648 says it in groups
  of six bits.

  * `byteBits_sha1` -- the digest is SHA-1's, of any byte string;
  * `base64_eq_encode` -- the text is Base64's, of any byte string;
  * `acceptToken_standard` -- so the token of the reply is the one RFC 6455 asks for.
-/
import OddsEngine.Lib.Base64
import OddsEngine.Lib.Sha1
import OddsEngine.Engine.WsServer

namespace OddsEngine.Ws

open Lib

/-! ## 1. Padding and words -/

/-- **The padding**, as bits. -/
theorem byteBits_sha1Padded (input : Bytes) :
    byteBits (sha1Padded input) = Sha1.pad (byteBits input) := by
  have hone : bitsBE 8 (0x80 : UInt8).toNat = true :: List.replicate 7 false := by decide
  have hzeros : Sha1.zeros (byteBits input).length =
      7 + 8 * ((56 + 64 - (input ++ [0x80]).length % 64) % 64) := by
    refine Sha1.zeros_eq ?_ (by omega)
    rw [byteBits_length, List.length_append, List.length_singleton]
    omega
  unfold sha1Padded Sha1.pad
  dsimp only
  rw [hzeros, byteBits_append, byteBits_append, byteBits_append, byteBits_cons, byteBits_nil, hone,
    byteBits_replicate_zero, byteBits_beBytes, byteBits_length, List.replicate_add,
    Nat.mul_comm input.length 8]
  simp

theorem length_sha1Padded (input : Bytes) :
    (Sha1.pad (byteBits input)).length / 512 = (sha1Padded input).length / 64 := by
  rw [← byteBits_sha1Padded, byteBits_length]
  omega

/-- Block `i` of the message. -/
def blockAt (m : Bytes) (i : Nat) : Bytes := (m.drop (i * 64)).take 64

/-- The words of a block, read from bytes and from bits. -/
theorem toBitVec_word (m : Bytes) (i : Nat) {j : Nat} (hj : j < 16) :
    ((beNat (((blockAt m i).drop (j * 4)).take 4)).toUInt32).toBitVec =
      Sha1.wordAt (byteBits m) i j := by
  have hcut : ((blockAt m i).drop (j * 4)).take 4 = (m.drop (64 * i + 4 * j)).take 4 := by
    unfold blockAt
    rw [List.drop_take, List.drop_drop, List.take_take, Nat.min_eq_left (by omega)]
    congr 2
    omega
  have hbits : ((byteBits m).drop (512 * i + 32 * j)).take 32 =
      byteBits ((m.drop (64 * i + 4 * j)).take 4) := by
    have hskip : 512 * i + 32 * j = 8 * (64 * i + 4 * j) := by omega
    rw [byteBits_take, byteBits_drop, hskip]
  unfold Sha1.wordAt
  rw [hcut, hbits, bitsNat_byteBits]
  rfl

/-! ## 2. Schedule and rounds -/

theorem toBitVec_rotl1 (x : UInt32) : (rotl 1 x).toBitVec = Sha1.rotl 1 x.toBitVec := rfl

theorem toBitVec_rotl5 (x : UInt32) : (rotl 5 x).toBitVec = Sha1.rotl 5 x.toBitVec := rfl

theorem toBitVec_rotl30 (x : UInt32) : (rotl 30 x).toBitVec = Sha1.rotl 30 x.toBitVec := rfl

/-- An array whose first words are the schedule's. -/
structure Scheduled (M : Nat → Sha1.Word) (w : Array UInt32) (n : Nat) : Prop where
  size : w.size = n
  word : ∀ t < n, (w.getD t 0).toBitVec = Sha1.W M t

theorem Scheduled.push {M : Nat → Sha1.Word} {w : Array UInt32} {n : Nat} (h : Scheduled M w n)
    {x : UInt32} (hx : x.toBitVec = Sha1.W M n) : Scheduled M (w.push x) (n + 1) where
  size := by rw [Array.size_push, h.size]
  word t ht := by
    by_cases hlt : t < n
    · have hold := h.word t hlt
      have hne : t ≠ w.size := by rw [h.size]; omega
      rw [Array.getD_eq_getD_getElem?, Array.getElem?_push, if_neg hne,
        ← Array.getD_eq_getD_getElem?]
      exact hold
    · have heq : t = n := by omega
      have hend : t = w.size := by rw [h.size, heq]
      rw [Array.getD_eq_getD_getElem?, Array.getElem?_push, if_pos hend, heq]
      exact hx

/-- **The message schedule.** -/
theorem scheduled_sha1Schedule (m : Bytes) (i : Nat) :
    Scheduled (Sha1.wordAt (byteBits m) i) (sha1Schedule (blockAt m i)) 80 := by
  have hstart : Scheduled (Sha1.wordAt (byteBits m) i) (((List.range 16).map fun j =>
      (beNat (((blockAt m i).drop (j * 4)).take 4)).toUInt32).toArray) 16 := by
    refine ⟨by simp, fun t ht => ?_⟩
    rw [Sha1.W_of_lt _ ht, ← toBitVec_word m i ht, Array.getD_eq_getD_getElem?]
    simp [ht]
  have hextend : ∀ n, Scheduled (Sha1.wordAt (byteBits m) i) ((List.range' 16 n).foldl (fun w i =>
      w.push (rotl 1 (w.getD (i - 3) 0 ^^^ w.getD (i - 8) 0 ^^^ w.getD (i - 14) 0 ^^^
        w.getD (i - 16) 0))) (((List.range 16).map fun j =>
      (beNat (((blockAt m i).drop (j * 4)).take 4)).toUInt32).toArray)) (16 + n) := by
    intro n
    induction n with
    | zero => exact hstart
    | succ n ih =>
      rw [List.range'_1_concat, List.foldl_append]
      have hnext := Sha1.W_of_le (Sha1.wordAt (byteBits m) i) (Nat.le_add_right 16 n)
      refine ih.push ?_
      rw [hnext, toBitVec_rotl1, UInt32.toBitVec_xor, UInt32.toBitVec_xor, UInt32.toBitVec_xor,
        ih.word _ (by omega), ih.word _ (by omega), ih.word _ (by omega), ih.word _ (by omega)]
  exact hextend 64

/-- The five words of a state. -/
def Sha1State.words (s : Sha1State) : Sha1.State :=
  { a := s.a.toBitVec, b := s.b.toBitVec, c := s.c.toBitVec, d := s.d.toBitVec, e := s.e.toBitVec }

/-- **One round.** -/
theorem words_sha1Round {M : Nat → Sha1.Word} {w : Array UInt32} {n : Nat} (h : Scheduled M w n)
    (s : Sha1State) {t : Nat} (ht : t < n) :
    (sha1Round w s t).words = Sha1.round M s.words t := by
  have hword := h.word t ht
  unfold sha1Round Sha1.round Sha1.f Sha1.K
  by_cases h20 : t < 20
  · simp only [h20, if_true, Sha1State.words, Sha1.State.mk.injEq, and_true, true_and]
    refine ⟨?_, toBitVec_rotl30 _⟩
    simp only [UInt32.toBitVec_add, UInt32.toBitVec_or, UInt32.toBitVec_and, UInt32.toBitVec_not,
      toBitVec_rotl5, hword, Sha1.Ch_eq_or]
    rfl
  · by_cases h40 : t < 40
    · simp only [h20, h40, if_true, if_false, Sha1State.words, Sha1.State.mk.injEq, and_true, true_and]
      refine ⟨?_, toBitVec_rotl30 _⟩
      simp only [UInt32.toBitVec_add, UInt32.toBitVec_xor, toBitVec_rotl5, hword, Sha1.Parity]
      rfl
    · by_cases h60 : t < 60
      · simp only [h20, h40, h60, if_true, if_false, Sha1State.words, Sha1.State.mk.injEq, and_true,
          true_and]
        refine ⟨?_, toBitVec_rotl30 _⟩
        simp only [UInt32.toBitVec_add, UInt32.toBitVec_or, UInt32.toBitVec_and, toBitVec_rotl5, hword,
          Sha1.Maj_eq_or]
        rfl
      · simp only [h20, h40, h60, if_false, Sha1State.words, Sha1.State.mk.injEq, and_true, true_and]
        refine ⟨?_, toBitVec_rotl30 _⟩
        simp only [UInt32.toBitVec_add, UInt32.toBitVec_xor, toBitVec_rotl5, hword, Sha1.Parity]
        rfl

theorem words_foldl_sha1Round {M : Nat → Sha1.Word} {w : Array UInt32} {n : Nat}
    (h : Scheduled M w n) (ts : List Nat) (hts : ∀ t ∈ ts, t < n) (s : Sha1State) :
    (ts.foldl (sha1Round w) s).words = ts.foldl (Sha1.round M) s.words := by
  induction ts generalizing s with
  | nil => rfl
  | cons t ts ih =>
    rw [List.foldl_cons, List.foldl_cons, ih (fun x hx => hts x (List.mem_cons_of_mem t hx)),
      words_sha1Round h s (hts t List.mem_cons_self)]

/-- **One block.** -/
theorem words_sha1Block (m : Bytes) (i : Nat) (h : Sha1State) :
    (sha1Block h (blockAt m i)).words = Sha1.compress h.words (Sha1.wordAt (byteBits m) i) := by
  have hrounds := words_foldl_sha1Round (scheduled_sha1Schedule m i) (List.range 80)
    (fun t ht => List.mem_range.mp ht) h
  unfold sha1Block Sha1.compress
  dsimp only
  rw [← hrounds]
  simp only [Sha1State.words, UInt32.toBitVec_add, BitVec.add_comm]

/-- The state after all blocks. -/
def sha1State (input : Bytes) : Sha1State :=
  (List.range ((sha1Padded input).length / 64)).foldl
    (fun h i => sha1Block h (blockAt (sha1Padded input) i)) sha1Initial

theorem words_sha1State (input : Bytes) :
    (sha1State input).words = (List.range ((Sha1.pad (byteBits input)).length / 512)).foldl
      (fun H i => Sha1.compress H (Sha1.wordAt (Sha1.pad (byteBits input)) i)) Sha1.initial := by
  have hblocks : ∀ (is : List Nat) (h : Sha1State),
      (is.foldl (fun h i => sha1Block h (blockAt (sha1Padded input) i)) h).words =
        is.foldl (fun H i => Sha1.compress H (Sha1.wordAt (byteBits (sha1Padded input)) i)) h.words := by
    intro is
    induction is with
    | nil => exact fun _ => rfl
    | cons i is ih =>
      intro h
      rw [List.foldl_cons, List.foldl_cons, ih, words_sha1Block]
  rw [length_sha1Padded, ← byteBits_sha1Padded]
  exact hblocks _ sha1Initial

/-- **The digest is SHA-1's.** -/
theorem byteBits_sha1 (input : Bytes) : byteBits (sha1 input) = Sha1.hash (byteBits input) := by
  have hstate : sha1 input = [(sha1State input).a, (sha1State input).b, (sha1State input).c,
      (sha1State input).d, (sha1State input).e].flatMap fun x => beBytes 4 x.toNat := rfl
  have hword : ∀ x : UInt32, byteBits (beBytes 4 x.toNat) = bitsBE 32 x.toBitVec.toNat :=
    fun x => byteBits_beBytes 4 x.toNat
  unfold Sha1.hash
  dsimp only
  rw [hstate, ← words_sha1State]
  simp only [List.flatMap_cons, List.flatMap_nil, byteBits_append, byteBits_nil, hword,
    Sha1State.words]

/-! ## 3. Base64 -/

theorem base64Char_eq (v : Nat) : base64Char v = Base64.character (v % 64) := by
  have hall : ∀ v : Fin 64, base64Alphabet.getD v.val 0 = Base64.character v.val := by
    decide +kernel
  exact hall ⟨v % 64, Nat.mod_lt _ (by decide)⟩

/-- Six bits are one character. -/
theorem digits_bitsBE (n : Nat) (bs : List Bool) :
    Base64.digits (bitsBE 6 n ++ bs) = base64Char n :: Base64.digits bs := by
  have hgroup : Base64.sextets (bitsBE 6 n ++ bs) = bitsBE 6 n :: Base64.sextets bs := by
    simp [bitsBE, Base64.sextets]
  unfold Base64.digits
  rw [hgroup, List.map_cons, bitsNat_bitsBE, base64Char_eq]
  rfl

/-- Bits left over are filled up. -/
theorem digits_filled {bs : List Bool} {n k : Nat} (hfill : bs ++ List.replicate k false = bitsBE 6 n)
    (hne : bs ≠ []) (hk : 0 < k) : Base64.digits bs = [base64Char n] := by
  have hlen := congrArg List.length hfill
  rw [List.length_append, List.length_replicate, bitsBE_length] at hlen
  have hgroup : Base64.sextets bs = [bs ++ List.replicate (6 - bs.length) false] := by
    fun_cases Base64.sextets bs with
    | case1 => simp at hlen; omega
    | case2 => exact absurd rfl hne
    | case3 => rfl
  have hrest : 6 - bs.length = k := by omega
  unfold Base64.digits
  rw [hgroup, hrest, hfill, List.map_singleton, bitsNat_bitsBE, base64Char_eq]
  rfl

/-- The bits of a byte string are those of the number it spells. -/
theorem byteBits_eq_bitsBE (bs : Bytes) : byteBits bs = bitsBE (8 * bs.length) (beNat bs) := by
  rw [← bitsNat_byteBits, ← byteBits_length, bitsBE_bitsNat]

/-- The last bits of a number, filled up with zeros, are those of its multiple. -/
theorem bitsBE_filled (w k n : Nat) :
    bitsBE w n ++ List.replicate k false = bitsBE (w + k) (n * 2 ^ k) := by
  have hhigh : n * 2 ^ k / 2 ^ k = n := Nat.mul_div_cancel n (Nat.two_pow_pos k)
  have hlow : bitsBE k (n * 2 ^ k) = List.replicate k false := by
    rw [← bitsBE_mod, Nat.mul_mod_left, bitsBE_zero]
  rw [bitsBE_add, hhigh, hlow]

/-- The characters of a text are followed by what fills its last four. -/
theorem encode_eq {bs : Bytes} {cs : List UInt8} (h : Base64.digits (byteBits bs) = cs) :
    Base64.encode bs = cs ++ List.replicate ((4 - cs.length % 4) % 4) Base64.pad := by
  unfold Base64.encode
  rw [h]

/-- One byte is two characters, the second filled up with four zeros. -/
theorem digits_one (x : UInt8) : Base64.digits (byteBits [x]) =
    [base64Char (x.toNat / 4), base64Char (x.toNat * 2 ^ 4)] := by
  have hx : beNat [x] = x.toNat := by simp [beNat]
  have hbits : byteBits [x] = bitsBE 6 (x.toNat / 4) ++ bitsBE 2 x.toNat := by
    rw [byteBits_eq_bitsBE, hx]
    exact bitsBE_add 6 2 x.toNat
  rw [hbits, digits_bitsBE, digits_filled (bitsBE_filled 2 4 x.toNat) (by simp [bitsBE]) (by decide)]

/-- Two bytes are three, the third filled up with two. -/
theorem digits_two (x y : UInt8) : Base64.digits (byteBits [x, y]) =
    [base64Char ((x.toNat * 256 + y.toNat) / 2 ^ 4 / 2 ^ 6),
      base64Char ((x.toNat * 256 + y.toNat) / 2 ^ 4),
      base64Char ((x.toNat * 256 + y.toNat) * 2 ^ 2)] := by
  have hxy : beNat [x, y] = x.toNat * 256 + y.toNat := by simp [beNat]
  have hbits : byteBits [x, y] = bitsBE 6 ((x.toNat * 256 + y.toNat) / 2 ^ 4 / 2 ^ 6) ++
      (bitsBE 6 ((x.toNat * 256 + y.toNat) / 2 ^ 4) ++ bitsBE 4 (x.toNat * 256 + y.toNat)) := by
    rw [byteBits_eq_bitsBE, hxy, ← List.append_assoc, ← bitsBE_add, ← bitsBE_add]
    rfl
  rw [hbits, digits_bitsBE, digits_bitsBE,
    digits_filled (bitsBE_filled 4 2 (x.toNat * 256 + y.toNat)) (by simp [bitsBE]) (by decide)]

theorem beNat_three (x y z : UInt8) :
    beNat [x, y, z] = x.toNat * 65536 + y.toNat * 256 + z.toNat := by
  simp [beNat]
  omega

/-- Three bytes are four characters, and what follows begins anew. -/
theorem digits_three (x y z : UInt8) (rest : Bytes) {v : Nat}
    (hv : x.toNat * 65536 + y.toNat * 256 + z.toNat = v) :
    Base64.digits (byteBits (x :: y :: z :: rest)) =
      base64Char (v / 2 ^ 6 / 2 ^ 6 / 2 ^ 6) :: base64Char (v / 2 ^ 6 / 2 ^ 6) ::
        base64Char (v / 2 ^ 6) :: base64Char v :: Base64.digits (byteBits rest) := by
  have hfirst : byteBits [x, y, z] = bitsBE (6 + 6 + 6 + 6) v := by
    rw [byteBits_eq_bitsBE, beNat_three, hv]
    rfl
  have hbits : byteBits (x :: y :: z :: rest) = bitsBE 6 (v / 2 ^ 6 / 2 ^ 6 / 2 ^ 6) ++
      (bitsBE 6 (v / 2 ^ 6 / 2 ^ 6) ++ (bitsBE 6 (v / 2 ^ 6) ++ (bitsBE 6 v ++ byteBits rest))) := by
    show byteBits ([x, y, z] ++ rest) = _
    rw [byteBits_append, hfirst, bitsBE_add, bitsBE_add, bitsBE_add]
    simp only [List.append_assoc]
  rw [hbits, digits_bitsBE, digits_bitsBE, digits_bitsBE, digits_bitsBE]

/-- **The text is Base64's.** -/
theorem base64_eq_encode (bs : Bytes) : base64 bs = Base64.encode bs := by
  induction bs using base64.induct with
  | case1 => rfl
  | case2 x =>
    have h1 : x.toNat * 65536 / 262144 = x.toNat / 4 := by omega
    have h2 : x.toNat * 65536 / 4096 = x.toNat * 2 ^ 4 := by omega
    rw [encode_eq (digits_one x), base64]
    rw [h1, h2]
    rfl
  | case3 x y =>
    have h1 : (x.toNat * 65536 + y.toNat * 256) / 262144 =
        (x.toNat * 256 + y.toNat) / 2 ^ 4 / 2 ^ 6 := by omega
    have h2 : (x.toNat * 65536 + y.toNat * 256) / 4096 = (x.toNat * 256 + y.toNat) / 2 ^ 4 := by omega
    have h3 : (x.toNat * 65536 + y.toNat * 256) / 64 = (x.toNat * 256 + y.toNat) * 2 ^ 2 := by omega
    rw [encode_eq (digits_two x y), base64]
    rw [h1, h2, h3]
    rfl
  | case4 x y z rest ih =>
    generalize hv : x.toNat * 65536 + y.toNat * 256 + z.toNat = v
    have h1 : v / 262144 = v / 2 ^ 6 / 2 ^ 6 / 2 ^ 6 := by omega
    have h2 : v / 4096 = v / 2 ^ 6 / 2 ^ 6 := by omega
    have h3 : v / 64 = v / 2 ^ 6 := by omega
    have hpad : (4 - (Base64.digits (byteBits rest)).length.succ.succ.succ.succ % 4) % 4 =
        (4 - (Base64.digits (byteBits rest)).length % 4) % 4 := by omega
    rw [encode_eq (digits_three x y z rest hv), base64, ih]
    rw [hv, h1, h2, h3]
    unfold Base64.encode
    simp only [List.length_cons, List.cons_append]
    rw [hpad]

/-! ## 4. The token -/

/-- The GUID of RFC 6455, section 1.3. -/
def guid : Bytes := ascii "258EAFA5-E914-47DA-95CA-C5AB0DC85B11"

/-- The token RFC 6455 asks for in the reply to `key`: its SHA-1 with the GUID, in Base64. -/
def standardToken (key : Bytes) : Bytes :=
  Base64.encode (bitBytes (Sha1.hash (byteBits (key ++ guid))))

/-- The reply to a handshake, around its token. -/
def replyWith (token : Bytes) : Bytes :=
  ascii "HTTP/1.1 101 Switching Protocols\r\n" ++ ascii "Upgrade: websocket\r\n" ++
    ascii "Connection: Upgrade\r\n" ++ ascii "Sec-WebSocket-Accept: " ++ token ++ crlfcrlf

theorem acceptKey_eq (key : Bytes) : acceptKey key = standardToken key := by
  unfold acceptKey standardToken guid
  rw [base64_eq_encode, ← byteBits_sha1, bitBytes_byteBits]

theorem switchingProtocols_eq (key : Bytes) :
    switchingProtocols key = replyWith (standardToken key) := by
  unfold switchingProtocols replyWith
  rw [acceptKey_eq]

/-- **The handshake answers with the standard's token**: the digest is SHA-1's and the text Base64's
    on every byte string, decoding gives the bytes back, and the reply to a request with a key has
    the token of that key. -/
theorem acceptToken_standard :
    (∀ input, byteBits (sha1 input) = Sha1.hash (byteBits input)) ∧
      (∀ bs, base64 bs = Base64.encode bs ∧ Base64.decode (base64 bs) = some bs) ∧
      ∀ (s : Shared) (c : Client) (sends : List SendResult),
        handshake s c sends =
          if headerValue c.inBuf (ascii "sec-websocket-key") = [] then servePage s c sends
          else (s, { c.respond (replyWith (standardToken
            (headerValue c.inBuf (ascii "sec-websocket-key")))) with isOpen := true }.flush sends) := by
  refine ⟨byteBits_sha1, fun bs => ⟨base64_eq_encode bs, ?_⟩, fun s c sends => ?_⟩
  · rw [base64_eq_encode]
    exact Base64.decode_encode bs
  · unfold handshake
    dsimp only
    cases headerValue c.inBuf (ascii "sec-websocket-key") with
    | nil => rw [List.isEmpty_nil, if_pos rfl, if_pos rfl]
    | cons b key =>
      rw [List.isEmpty_cons, if_neg Bool.false_ne_true, if_neg (List.cons_ne_nil b key),
        switchingProtocols_eq]

end OddsEngine.Ws
