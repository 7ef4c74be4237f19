/-
  File:      OddsEngine/Engine/WsHandshake.lean
  Subject:   The two answers to an HTTP request (sha1, base64, header_value, kPage and the responses
             of handshake and serve_page, engine/WsServer.hpp).

  A request that names a `Sec-WebSocket-Key` is answered with the accept key of RFC 6455, any other
  with the page.
-/
import OddsEngine.Engine.Command
import OddsEngine.Lib.BigEndian

namespace OddsEngine.Ws

open Lib

/-! ## 1. SHA-1 and Base64 -/

def rotl (n : UInt32) (x : UInt32) : UInt32 := (x <<< n) ||| (x >>> (32 - n))

/-- The message, a one bit, zeros up to 56 modulo 64, and the length in bits. -/
def sha1Padded (input : Bytes) : Bytes :=
  let m := input ++ [0x80]
  m ++ List.replicate ((56 + 64 - m.length % 64) % 64) 0 ++ beBytes 8 (input.length * 8)

/-- The first 16 words are the block's, the others are made of those before them. -/
def sha1Schedule (block : Bytes) : Array UInt32 :=
  let words := ((List.range 16).map fun i => (beNat ((block.drop (i * 4)).take 4)).toUInt32).toArray
  (List.range' 16 64).foldl (fun w i =>
    w.push (rotl 1 (w.getD (i - 3) 0 ^^^ w.getD (i - 8) 0 ^^^ w.getD (i - 14) 0 ^^^
      w.getD (i - 16) 0))) words

structure Sha1State where
  a : UInt32
  b : UInt32
  c : UInt32
  d : UInt32
  e : UInt32

def sha1Initial : Sha1State :=
  { a := 0x67452301, b := 0xEFCDAB89, c := 0x98BADCFE, d := 0x10325476, e := 0xC3D2E1F0 }

def sha1Round (w : Array UInt32) (s : Sha1State) (i : Nat) : Sha1State :=
  let (f, k) : UInt32 × UInt32 :=
    if i < 20 then ((s.b &&& s.c) ||| (~~~s.b &&& s.d), 0x5A827999)
    else if i < 40 then (s.b ^^^ s.c ^^^ s.d, 0x6ED9EBA1)
    else if i < 60 then ((s.b &&& s.c) ||| (s.b &&& s.d) ||| (s.c &&& s.d), 0x8F1BBCDC)
    else (s.b ^^^ s.c ^^^ s.d, 0xCA62C1D6)
  let t := rotl 5 s.a + f + s.e + k + w.getD i 0
  { a := t, b := s.a, c := rotl 30 s.b, d := s.c, e := s.d }

def sha1Block (h : Sha1State) (block : Bytes) : Sha1State :=
  let s := (List.range 80).foldl (sha1Round (sha1Schedule block)) h
  { a := h.a + s.a, b := h.b + s.b, c := h.c + s.c, d := h.d + s.d, e := h.e + s.e }

def sha1 (input : Bytes) : Bytes :=
  let m := sha1Padded input
  let h := (List.range (m.length / 64)).foldl
    (fun h i => sha1Block h ((m.drop (i * 64)).take 64)) sha1Initial
  [h.a, h.b, h.c, h.d, h.e].flatMap fun x => beBytes 4 x.toNat

def base64Alphabet : Bytes :=
  ascii "ABCDEFGHIJKLMNOPQRSTUVWXYZabcdefghijklmnopqrstuvwxyz0123456789+/"

def base64Char (v : Nat) : UInt8 := base64Alphabet.getD (v % 64) 0

/-- Three bytes are four characters; what is missing of the last three is `=`. -/
def base64 : Bytes → Bytes
  | [] => []
  | [x] =>
    let v := x.toNat * 65536
    [base64Char (v / 262144), base64Char (v / 4096), 0x3D, 0x3D]
  | [x, y] =>
    let v := x.toNat * 65536 + y.toNat * 256
    [base64Char (v / 262144), base64Char (v / 4096), base64Char (v / 64), 0x3D]
  | x :: y :: z :: rest =>
    let v := x.toNat * 65536 + y.toNat * 256 + z.toNat
    base64Char (v / 262144) :: base64Char (v / 4096) :: base64Char (v / 64) :: base64Char v ::
      base64 rest

/-! ## 2. The request -/

/-- `s.find(pat)`. -/
def find (pat : Bytes) : Bytes → Option Nat
  | [] => if pat.isEmpty then some 0 else none
  | c :: s => if pat.isPrefixOf (c :: s) then some 0 else (find pat s).map (· + 1)

def crlf : Bytes := ascii "\r\n"

/-- The end of a request's headers. -/
def crlfcrlf : Bytes := ascii "\r\n\r\n"

/-- `tolower` in the C locale. -/
def tolower (c : UInt8) : UInt8 := if 0x41 ≤ c ∧ c ≤ 0x5A then c + 0x20 else c

/-- The value of the header `name`, searched for anywhere in the request; empty where there is
    none, or no line end behind it. -/
def headerValue (req name : Bytes) : Bytes :=
  match find (name ++ [colon]) (req.map tolower) with
  | none => []
  | some k =>
    let value := ((afterFirst [colon] (req.drop k)).getD req).dropWhile
      fun c => c == 0x20 || c == 0x09
    match find crlf value with
    | none => []
    | some e => value.take e

/-! ## 3. The answers -/

def acceptKey (key : Bytes) : Bytes :=
  base64 (sha1 (key ++ ascii "258EAFA5-E914-47DA-95CA-C5AB0DC85B11"))

/-- The reply to a WebSocket handshake. -/
def switchingProtocols (key : Bytes) : Bytes :=
  ascii "HTTP/1.1 101 Switching Protocols\r\n" ++ ascii "Upgrade: websocket\r\n" ++
    ascii "Connection: Upgrade\r\n" ++ ascii "Sec-WebSocket-Accept: " ++ acceptKey key ++ crlfcrlf

theorem length_sha1 (input : Bytes) : (sha1 input).length = 20 := by
  simp [sha1]

theorem length_base64 (bs : Bytes) : (base64 bs).length = (bs.length + 2) / 3 * 4 := by
  induction bs using base64.induct with
  | case1 => rfl
  | case2 x => simp [base64]
  | case3 x y => simp [base64]
  | case4 x y z rest ih =>
    simp only [base64, List.length_cons, ih]
    omega

theorem length_acceptKey (key : Bytes) : (acceptKey key).length = 28 := by
  rw [acceptKey, length_base64, length_sha1]

/-- Every handshake reply is 129 bytes long. -/
theorem length_switchingProtocols (key : Bytes) : (switchingProtocols key).length = 129 := by
  have h1 : (ascii "HTTP/1.1 101 Switching Protocols\r\n").length = 34 := by decide
  have h2 : (ascii "Upgrade: websocket\r\n").length = 20 := by decide
  have h3 : (ascii "Connection: Upgrade\r\n").length = 21 := by decide
  have h4 : (ascii "Sec-WebSocket-Accept: ").length = 22 := by decide
  have h5 : crlfcrlf.length = 4 := by decide
  simp only [switchingProtocols, List.length_append, length_acceptKey, h1, h2, h3, h4, h5]

/-- The test vector of RFC 6455, section 1.3. -/
example : acceptKey (ascii "dGhlIHNhbXBsZSBub25jZQ==") = ascii "s3pPLMBiTxaQ9kYGzzhZRbK+xOo=" := by
  decide +kernel

/-- The page, line by line. -/
def pageLines : List String :=
  [
   "<!doctype html>",
   "<meta charset=utf-8><title>odds-engine</title>",
   "<style>",
   " body\x7bbackground:#12141a;color:#d8dee9;font:13px/1.5 ui-monospace,Menlo,monospace;margin:0;padding:24px\x7d",
   " h1\x7bfont-size:15px;font-weight:600;margin:0 0 2px\x7d",
   " .sub\x7bcolor:#6b7280;margin-bottom:18px\x7d",
   " #s\x7bdisplay:inline-block;padding:2px 8px;border-radius:3px;background:#3b1d1d;color:#f87171\x7d",
   " #s.on\x7bbackground:#16301f;color:#4ade80\x7d",
   " fieldset\x7bborder:1px solid #262a33;border-radius:4px;padding:12px 14px;margin:0 0 18px;max-width:760px\x7d",
   " legend\x7bcolor:#6b7280;padding:0 6px\x7d",
   " label\x7bdisplay:inline-block;margin-right:18px;color:#9ca3af\x7d",
   " input,select\x7bbackground:#1b1e26;color:#d8dee9;border:1px solid #333846;border-radius:3px;",
   "   padding:3px 6px;font:inherit;width:88px\x7d",
   " select\x7bwidth:132px\x7d",
   " #ack\x7bmargin-top:10px;color:#6b7280;min-height:1.5em\x7d",
   " #ack.err\x7bcolor:#f87171\x7d #ack.ok\x7bcolor:#4ade80\x7d",
   " table\x7bborder-collapse:collapse;width:100%;max-width:760px\x7d",
   " th\x7btext-align:left;color:#6b7280;font-weight:500;padding:6px 10px;border-bottom:1px solid #262a33\x7d",
   " td\x7bpadding:5px 10px;border-bottom:1px solid #1b1e26\x7d",
   " .n\x7btext-align:right;font-variant-numeric:tabular-nums\x7d",
   " .bar\x7bheight:4px;background:#2563eb;border-radius:2px;min-width:1px\x7d",
   "</style>",
   "<h1>odds-engine &middot; consensus fair price</h1>",
   "<div class=sub><span id=s>connecting</span> <span id=meta></span></div>",
   "<fieldset><legend>live configuration</legend>",
   " <label>devig <select id=devig>",
   "   <option value=shin>shin</option><option value=power>power</option>",
   "   <option value=multiplicative>multiplicative</option></select></label>",
   " <label>stale-ms <input id=stale type=number min=1 step=100></label>",
   " <label>kelly <input id=kelly type=number min=0.01 max=1 step=0.05></label>",
   " <label>exposure <input id=expo type=number min=0.01 max=1 step=0.01></label>",
   " <div id=ack></div>",
   "</fieldset>",
   "<table><thead><tr><th>market</th><th class=n>home</th><th class=n>draw</th>",
   "<th class=n>away</th><th class=n>books</th><th style=width:180px></th></tr></thead>",
   "<tbody id=b></tbody></table>",
   "<script>",
   "const $=i=>document.getElementById(i);",
   "const s=$('s'),meta=$('meta'),b=$('b'),ack=$('ack');",
   "const ws=new WebSocket('ws://'+location.host+'/');",
   "let touched=false;",
   "ws.onopen=()=>\x7bs.textContent='live';s.className='on'\x7d;",
   "ws.onclose=()=>\x7bs.textContent='closed';s.className=''\x7d;",
   "function send(key,value)\x7btouched=true;ws.send(JSON.stringify(\x7bcmd:'set',key:key,value:value\x7d))\x7d",
   "$('devig').onchange=e=>send('devig',e.target.value);",
   "$('stale').onchange=e=>send('stale-ms',+e.target.value);",
   "$('kelly').onchange=e=>send('kelly-fraction',+e.target.value);",
   "$('expo').onchange =e=>send('max-exposure',+e.target.value);",
   "ws.onmessage=e=>\x7b",
   "  const d=JSON.parse(e.data);",
   "  if(d.ok!==undefined)\x7b",
   "    ack.textContent=d.ok?('applied '+d.key+' = '+d.value):('rejected: '+d.error);",
   "    ack.className=d.ok?'ok':'err';",
   "    return;",
   "  \x7d",
   "  meta.textContent='tick '+d.t+' \\u00b7 '+d.m.length+' markets';",
   "  if(d.c&&!touched)\x7b",
   "    $('devig').value=d.c.devig;$('stale').value=d.c.stale_ms;",
   "    $('kelly').value=d.c.kelly;$('expo').value=d.c.exposure;",
   "  \x7d",
   "  b.innerHTML=d.m.map(m=>\x7b",
   "    const p=m.p,w=Math.round(p[0]*100);",
   "    return '<tr><td>'+m.i+'</td>'+p.map(x=>'<td class=n>'+x.toFixed(4)+'</td>').join('')+",
   "      '<td class=n>'+m.b+'</td><td><div class=bar style=width:'+w+'%></div></td></tr>';",
   "  \x7d).join('');",
   "\x7d;",
   "</script>"]

def kPage : Bytes := [0x0A].intercalate (pageLines.map ascii)

/-- The page and its head. -/
def pageResponse : Bytes :=
  ascii "HTTP/1.1 200 OK\r\n" ++ ascii "Content-Type: text/html; charset=utf-8\r\n" ++
    ascii "Content-Length: " ++ decimal kPage.length ++ ascii "\r\n" ++
    ascii "Connection: close\r\n\r\n" ++ kPage

/-- The bytes of a text of some lines, line ends included. -/
def linesLength (ls : List String) : Nat := ([0x0A].intercalate (ls.map ascii)).length

theorem linesLength_cons {l : List Char} {l' : String} {ls : List String} {n : Nat}
    (h : linesLength (l' :: ls) = n) :
    linesLength (String.ofList l :: l' :: ls) = l.length + (1 + n) := by
  rw [← h]
  simp [linesLength, ascii, List.intercalate_cons_cons]
  omega

theorem linesLength_singleton {l : List Char} : linesLength [String.ofList l] = l.length := by
  simp [linesLength, ascii]

set_option maxRecDepth 4000 in
theorem length_kPage : kPage.length = 3299 := by
  apply Eq.trans
  · -- a literal unifies with the list of its characters; no text is decoded
    show linesLength pageLines = _
    unfold pageLines
    repeat apply linesLength_cons
    exact linesLength_singleton
  · rfl

theorem length_pageResponse : pageResponse.length = 3399 := by
  have h1 : (ascii "HTTP/1.1 200 OK\r\n").length = 17 := by decide
  have h2 : (ascii "Content-Type: text/html; charset=utf-8\r\n").length = 40 := by decide
  have h3 : (ascii "Content-Length: ").length = 16 := by decide
  have h4 : (decimal 3299).length = 4 := by decide
  have h5 : (ascii "\r\n").length = 2 := by decide
  have h6 : (ascii "Connection: close\r\n\r\n").length = 21 := by decide
  simp only [pageResponse, List.length_append, length_kPage, h1, h2, h3, h4, h5, h6]

end OddsEngine.Ws
