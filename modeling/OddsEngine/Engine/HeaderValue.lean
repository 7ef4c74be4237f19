/-
  File:      OddsEngine/Engine/HeaderValue.lean
  Subject:   Which requests are upgraded (header_value and handshake, engine/WsServer.hpp).

  A request is its request line, its header lines and an empty line, each ended by CRLF. For the
  server it is one text: `header_value` looks for the name and a colon anywhere in it, whatever
  stands before them on the line, and hands out the rest of that line.

  * `headerValue_lines` -- what it returns, line by line: the text behind the first mention of the
    name, blanks before it dropped;
  * `findsKey_iff` -- so it finds the header where the first line that mentions the name is that
    header's, and its value is there and ends with no blank; elsewhere only by chance.
-/
import Mathlib.Data.List.DropRight
import OddsEngine.Lib.Occurrence
import OddsEngine.Engine.WsRuns

namespace OddsEngine.Ws

open Lib

/-! ## 1. Searching line by line -/

def cr : UInt8 := 0x0D

def lf : UInt8 := 0x0A

/-- A space or a tab. -/
def isBlank (c : UInt8) : Bool := c == 0x20 || c == 0x09

/-- The name the handshake looks for. -/
def keyName : Bytes := ascii "sec-websocket-key"

/-- The name as it is searched for. -/
def keyPattern : Bytes := keyName ++ [colon]

theorem find_nil {pat : Bytes} (h : pat ≠ []) : find pat [] = none := by
  cases pat with
  | nil => exact absurd rfl h
  | cons p pat => rfl

/-- A search may be cut at a character that is not in the pattern. -/
theorem find_append_cons {pat : Bytes} (hne : pat ≠ []) {c : UInt8} (hc : c ∉ pat) (a s : Bytes) :
    find pat (a ++ c :: s) =
      (find pat a).or ((find pat s).map (· + (a.length + 1))) := by
  induction a with
  | nil =>
    have hno : pat.isPrefixOf (c :: s) = false :=
      (isPrefixOf_append_cons hc [] s).trans (isPrefixOf_nil hne)
    rw [List.nil_append, find_nil hne, find, hno]
    simp
  | cons x a ih =>
    have hsame : pat.isPrefixOf (x :: (a ++ c :: s)) = pat.isPrefixOf (x :: a) :=
      isPrefixOf_append_cons hc (x :: a) s
    rw [List.cons_append, find, find, hsame]
    cases hpre : pat.isPrefixOf (x :: a) with
    | true => simp
    | false =>
      simp only [Bool.false_eq_true, if_false, ih]
      cases find pat a with
      | some k => simp
      | none =>
        simp only [Option.map_none, Option.none_or, Option.map_map, List.length_cons]
        congr 1

/-- What a search finds is an occurrence. -/
theorem drop_of_find {pat s : Bytes} {k : Nat} (h : find pat s = some k) :
    s.drop k = pat ++ s.drop (k + pat.length) := by
  induction s generalizing k with
  | nil =>
    unfold find at h
    split at h
    · next hempty =>
      cases h
      simp [List.isEmpty_iff.mp hempty]
    · cases h
  | cons c s ih =>
    unfold find at h
    split at h
    · next hpre =>
      cases h
      rw [Nat.zero_add]
      exact (List.prefix_iff_eq_append.mp (List.isPrefixOf_iff_prefix.mp hpre)).symm
    · obtain ⟨k', hk', rfl⟩ := Option.map_eq_some_iff.mp h
      have hskip : k' + 1 + pat.length = k' + pat.length + 1 := by omega
      rw [List.drop_succ_cons, hskip, List.drop_succ_cons]
      exact ih hk'

theorem tolower_eq_colon {c : UInt8} (h : tolower c = colon) : c = colon := by
  unfold tolower at h
  split at h
  · next hupper =>
    have hlo := UInt8.le_iff_toNat_le.mp hupper.1
    have hhi := UInt8.le_iff_toNat_le.mp hupper.2
    have hsum := congrArg UInt8.toNat h
    rw [UInt8.toNat_add] at hsum
    have h20 : (0x20 : UInt8).toNat = 32 := rfl
    have h41 : (0x41 : UInt8).toNat = 65 := rfl
    have h5A : (0x5A : UInt8).toNat = 90 := rfl
    have h3A : colon.toNat = 58 := rfl
    omega
  · exact h

/-- The first colon behind a text without one. -/
theorem afterFirst_colon {a : Bytes} (h : colon ∉ a) (s : Bytes) :
    afterFirst [colon] (a ++ colon :: s) = some s :=
  (afterFirst_append h [] _).trans (afterFirst_head colon s)

/-- The text behind the first mention of the key's name, whatever the case of its letters. -/
def behindKey (line : Bytes) : Option Bytes :=
  (find keyPattern (line.map tolower)).map fun k => line.drop (k + keyPattern.length)

/-- Behind a mention the next colon is the mention's own. -/
theorem afterFirst_of_find {s : Bytes} {k : Nat} (h : find keyPattern (s.map tolower) = some k) :
    afterFirst [colon] (s.drop k) = some (s.drop (k + keyPattern.length)) := by
  have hocc := drop_of_find h
  rw [← List.map_drop, ← List.map_drop] at hocc
  have hname : colon ∉ keyName := by decide
  obtain ⟨m, rest, hsplit, hm, hrest⟩ := List.map_eq_append_iff.mp hocc
  have hmname : m.map tolower = keyName ++ [colon] := hm
  obtain ⟨name, last, rfl, hnamelow, hlast⟩ := List.map_eq_append_iff.mp hmname
  obtain ⟨c, rfl, hc⟩ := List.map_eq_singleton_iff.mp hlast
  have hcolon : colon ∉ name := by
    intro hmem
    refine hname ?_
    rw [← hnamelow]
    exact List.mem_map_of_mem hmem
  have hlen : (name ++ [c]).length = keyPattern.length := by
    rw [← hm, List.length_map]
  have htail : s.drop (k + keyPattern.length) = rest := by
    rw [← List.drop_drop, hsplit, ← hlen, List.drop_left]
  rw [htail, hsplit, tolower_eq_colon hc, List.append_assoc]
  exact afterFirst_colon hcolon rest

/-- `header_value` of the key, in terms of the text behind the mention. -/
theorem headerValue_eq (s : Bytes) :
    headerValue s keyName =
      match behindKey s with
      | none => []
      | some rest =>
        match find crlf (rest.dropWhile isBlank) with
        | none => []
        | some e => (rest.dropWhile isBlank).take e := by
  unfold headerValue behindKey
  cases hf : find keyPattern (s.map tolower) with
  | none =>
    have hf' : find (keyName ++ [colon]) (s.map tolower) = none := hf
    rw [hf']
    rfl
  | some k =>
    have hf' : find (keyName ++ [colon]) (s.map tolower) = some k := hf
    rw [hf']
    dsimp only
    rw [afterFirst_of_find hf]
    rfl

/-- Lines, each ended by CRLF. -/
def joinLines (ls : List Bytes) : Bytes := ls.flatMap fun l => l ++ crlf

theorem find_crlf {a : Bytes} (h : lf ∉ a) (s : Bytes) : find crlf (a ++ crlf ++ s) = some a.length := by
  induction a with
  | nil => rfl
  | cons x a ih =>
    have hrest : lf ∉ a := fun hmem => h (List.mem_cons_of_mem x hmem)
    have hno : crlf.isPrefixOf (x :: (a ++ crlf ++ s)) = false := by
      show (cr == x && [lf].isPrefixOf (a ++ crlf ++ s)) = false
      cases a with
      | nil =>
        have hne : lf ≠ cr := by decide
        simp [crlf, ascii, List.isPrefixOf, cr, lf]
      | cons y a =>
        have hy : lf ≠ y := fun e => hrest (e ▸ List.mem_cons_self)
        simp [List.isPrefixOf, hy]
    rw [List.cons_append, List.cons_append, find, hno]
    simp only [Bool.false_eq_true, if_false, ih hrest, Option.map_some, List.length_cons]

/-- A line without a mention is passed over, the line end included. -/
theorem find_line (l s : Bytes) :
    find keyPattern ((l ++ crlf ++ s).map tolower) =
      (find keyPattern (l.map tolower)).or
        ((find keyPattern (s.map tolower)).map (· + (l.length + 2))) := by
  have hne : keyPattern ≠ [] := by decide
  have hcr : cr ∉ keyPattern := by decide
  have hlf : lf ∉ keyPattern := by decide
  have hmap : (l ++ crlf ++ s).map tolower =
      l.map tolower ++ cr :: ([] ++ lf :: s.map tolower) := by simp [crlf, ascii, tolower, cr, lf]
  rw [hmap, find_append_cons hne hcr, find_append_cons hne hlf, find_nil hne]
  simp only [Option.none_or, Option.map_map, List.length_map, List.length_nil]
  congr 2
  funext k
  show k + (0 + 1) + (l.length + 1) = k + (l.length + 2)
  omega

theorem behindKey_line (l s : Bytes) :
    behindKey (l ++ crlf ++ s) =
      ((behindKey l).map fun rest => rest ++ crlf ++ s).or (behindKey s) := by
  unfold behindKey
  rw [find_line]
  cases hl : find keyPattern (l.map tolower) with
  | some k =>
    have hocc := congrArg List.length (drop_of_find hl)
    rw [List.length_append, List.length_drop, List.length_drop, List.length_map] at hocc
    have hpos : 0 < keyPattern.length := by decide
    have hle : k + keyPattern.length ≤ l.length := by omega
    simp only [Option.some_or, Option.map_some]
    rw [List.append_assoc, List.drop_append_of_le_length hle, List.append_assoc]
  | none =>
    simp only [Option.none_or, Option.map_none, Option.map_map]
    congr 1
    funext k
    have hlen : (l ++ crlf).length = l.length + 2 := by simp [crlf, ascii]
    have hskip : k + (l.length + 2) + keyPattern.length = (l ++ crlf).length + (k + keyPattern.length) := by
      omega
    show (l ++ crlf ++ s).drop (k + (l.length + 2) + keyPattern.length) = _
    rw [hskip, List.drop_length_add_append]

/-- **What `header_value` returns**: the text behind the first mention, to the end of its line, less
    the blanks before it. -/
theorem headerValue_lines {ls : List Bytes} (h : ∀ l ∈ ls, lf ∉ l) :
    headerValue (joinLines ls ++ crlf) keyName =
      ((ls.findSome? behindKey).map (List.dropWhile isBlank)).getD [] := by
  rw [headerValue_eq]
  induction ls with
  | nil =>
    have hnone : behindKey (joinLines [] ++ crlf) = none := by decide
    rw [hnone]
    rfl
  | cons l ls ih =>
    have hl : lf ∉ l := h l List.mem_cons_self
    have hcons : joinLines (l :: ls) ++ crlf = l ++ crlf ++ (joinLines ls ++ crlf) := by
      simp [joinLines]
    rw [hcons, behindKey_line, List.findSome?_cons]
    cases hkey : behindKey l with
    | none => exact ih fun x hx => h x (List.mem_cons_of_mem l hx)
    | some rest =>
      have hrest : lf ∉ rest.dropWhile isBlank := by
        obtain ⟨k, -, rfl⟩ := Option.map_eq_some_iff.mp hkey
        exact fun hmem => hl (List.mem_of_mem_drop ((List.dropWhile_sublist _).subset hmem))
      have hdrop : (rest ++ crlf ++ (joinLines ls ++ crlf)).dropWhile isBlank =
          rest.dropWhile isBlank ++ crlf ++ (joinLines ls ++ crlf) := by
        have hcr : isBlank cr = false := by decide
        rw [List.append_assoc, List.append_assoc]
        exact dropWhile_append_cons hcr rest _
      simp only [Option.map_some, Option.some_or, Option.getD_some]
      rw [hdrop, find_crlf hrest]
      dsimp only
      rw [List.append_assoc, List.take_left]

/-! ## 2. Requests -/

/-- A header line: a name, a colon, and the value with the blanks around it. -/
structure HeaderLine where
  name : Bytes
  value : Bytes
  no_colon : colon ∉ name
  name_one_line : lf ∉ name
  value_one_line : lf ∉ value

def HeaderLine.text (h : HeaderLine) : Bytes := h.name ++ colon :: h.value

/-- The header is the key's, whatever the case of its letters. -/
def HeaderLine.IsKey (h : HeaderLine) : Prop := h.name.map tolower = keyName

instance (h : HeaderLine) : Decidable h.IsKey := inferInstanceAs (Decidable (_ = _))

inductive Line where
  | request (text : Bytes)
  | header (h : HeaderLine)

def Line.text : Line → Bytes
  | .request text => text
  | .header h => h.text

/-- An HTTP request without a body. -/
structure Request where
  requestLine : Bytes
  headers : List HeaderLine
  one_line : lf ∉ requestLine

namespace Request

def lines (r : Request) : List Line := .request r.requestLine :: r.headers.map .header

def bytes (r : Request) : Bytes := joinLines (r.lines.map Line.text) ++ crlf

/-- The first header of the key's name. -/
def keyHeader (r : Request) : Option HeaderLine := r.headers.find? fun h => decide h.IsKey

/-- The first line that has the name and a colon anywhere. -/
def firstMention (r : Request) : Option Line := r.lines.find? fun l => (behindKey l.text).isSome

end Request

/-- A value without the blanks around it. -/
def trim (v : Bytes) : Bytes := (v.dropWhile isBlank).rdropWhile isBlank

def AllBlank (v : Bytes) : Prop := ∀ c ∈ v, isBlank c = true

def EndsBlank (v : Bytes) : Prop := ∃ c, v.getLast? = some c ∧ isBlank c = true

/-- What the lookup is for: the value of the first header of the name, empty where there is none,
    and an upgrade for the requests that have one. -/
structure FindsKey (r : Request) : Prop where
  value : headerValue r.bytes keyName = (r.keyHeader.map fun h => trim h.value).getD []
  empty_iff : headerValue r.bytes keyName = [] ↔ r.keyHeader = none
  upgraded_iff : ∀ s c sends, c.inBuf = r.bytes → c.isOpen = false →
    ((handshake s c sends).2.isOpen = true ↔ r.keyHeader ≠ none)

/-- The text `rest`, what another line has behind its mention of the name, is taken for the value, and
    by chance is right: it is spaces and tabs followed by the value of the header so named, trimmed
    and not blank; or, where there is no such header, spaces and tabs only. -/
def ByChance (r : Request) (rest : Bytes) : Prop :=
  match r.keyHeader with
  | none => AllBlank rest
  | some h => ¬ AllBlank h.value ∧ rest.dropWhile isBlank = trim h.value

/-- The first line that mentions the name is the header's own, and its value is there and ends with
    no blank; or it is another line, and the lookup is right by chance. -/
structure KeyInSight (r : Request) : Prop where
  own : ∀ h, r.firstMention = some (.header h) → h.IsKey → ¬ AllBlank h.value ∧ ¬ EndsBlank h.value
  other : ∀ l rest, r.firstMention = some l → (∀ h, l = .header h → ¬ h.IsKey) →
    behindKey l.text = some rest → ByChance r rest

theorem HeaderLine.one_line (h : HeaderLine) : lf ∉ h.text := by
  have hne : lf ≠ colon := by decide
  unfold HeaderLine.text
  rw [List.mem_append, List.mem_cons]
  rintro (hmem | heq | hmem)
  · exact h.name_one_line hmem
  · exact hne heq
  · exact h.value_one_line hmem

theorem Request.lines_one_line (r : Request) : ∀ l ∈ r.lines.map Line.text, lf ∉ l := by
  intro l hl
  obtain ⟨x, hx, rfl⟩ := List.mem_map.mp hl
  rcases List.mem_cons.mp hx with rfl | hmem
  · exact r.one_line
  · obtain ⟨h, -, rfl⟩ := List.mem_map.mp hmem
    exact h.one_line

/-- The key's own line mentions it right at the front. -/
theorem behindKey_of_isKey {h : HeaderLine} (hkey : h.IsKey) : behindKey h.text = some h.value := by
  have hmap : h.text.map tolower = keyPattern ++ h.value.map tolower := by
    have hcolon : tolower colon = colon := by decide
    unfold HeaderLine.text keyPattern
    rw [List.map_append, List.map_cons, hkey, hcolon, List.append_assoc]
    rfl
  have hfind : find keyPattern (h.text.map tolower) = some 0 := by
    have hpre : keyPattern.isPrefixOf (keyPattern ++ h.value.map tolower) = true :=
      List.isPrefixOf_iff_prefix.mpr (List.prefix_append _ _)
    rw [hmap]
    show (if _ then _ else _) = _
    exact if_pos hpre
  have hlen : keyPattern.length = (h.name ++ [colon]).length := by
    have hname := congrArg List.length hkey
    rw [List.length_map] at hname
    rw [List.length_append, hname]
    rfl
  have htext : h.text = h.name ++ [colon] ++ h.value := by simp [HeaderLine.text]
  unfold behindKey
  rw [hfind, Option.map_some, Nat.zero_add, hlen, htext, List.drop_left]

/-- The value found, by the first line with a mention. -/
theorem headerValue_request (r : Request) :
    headerValue r.bytes keyName =
      ((r.firstMention.bind fun l => behindKey l.text).map (List.dropWhile isBlank)).getD [] := by
  have hfirst : ∀ ls : List Line, (ls.map Line.text).findSome? behindKey =
      (ls.find? fun l => (behindKey l.text).isSome).bind fun l => behindKey l.text := by
    intro ls
    induction ls with
    | nil => rfl
    | cons l ls ih =>
      rw [List.map_cons, List.findSome?_cons, List.find?_cons]
      cases hl : behindKey l.text with
      | none => exact ih
      | some rest => exact hl.symm
  unfold Request.bytes
  rw [headerValue_lines r.lines_one_line, hfirst]
  rfl

/-- A request that has the header mentions its name. -/
theorem firstMention_ne_none {r : Request} {h : HeaderLine} (hkey : r.keyHeader = some h) :
    r.firstMention ≠ none := by
  intro hnone
  have hmem : Line.header h ∈ r.lines :=
    List.mem_cons_of_mem _ (List.mem_map_of_mem (List.mem_of_find?_eq_some hkey))
  have hno := List.find?_eq_none.mp hnone _ hmem
  have hyes := List.find?_some hkey
  have hbehind := behindKey_of_isKey (of_decide_eq_true hyes)
  exact hno (by rw [show (Line.header h).text = h.text from rfl, hbehind]; rfl)

/-- Where a header's own line is the first mention, it is the first of its name. -/
theorem keyHeader_of_firstMention {r : Request} {h : HeaderLine}
    (hfirst : r.firstMention = some (.header h)) (hkey : h.IsKey) : r.keyHeader = some h := by
  unfold Request.firstMention Request.lines at hfirst
  rw [List.find?_cons] at hfirst
  split at hfirst
  · cases hfirst
  · obtain ⟨-, before, after, hsplit, hbefore⟩ := List.find?_eq_some_iff_append.mp hfirst
    obtain ⟨hs, hs', hheaders, hmap, hmap'⟩ := List.map_eq_append_iff.mp hsplit
    obtain ⟨h', tail, rfl, hh', -⟩ := List.map_eq_cons_iff.mp hmap'
    cases hh'
    refine List.find?_eq_some_iff_append.mpr ⟨decide_eq_true hkey, hs, tail, hheaders, ?_⟩
    intro x hx
    have hno := hbefore (.header x) (hmap ▸ List.mem_map_of_mem hx)
    by_contra hyes
    have hxkey : x.IsKey := by simpa using hyes
    rw [show (Line.header x).text = x.text from rfl, behindKey_of_isKey hxkey] at hno
    exact absurd hno (by simp)

/-! ## 3. When the header is found -/

theorem dropWhile_eq_nil (v : Bytes) : v.dropWhile isBlank = [] ↔ AllBlank v :=
  List.dropWhile_eq_nil_iff

/-- Nothing is left of a value only where nothing was there. -/
theorem trim_eq_nil (v : Bytes) : trim v = [] ↔ AllBlank v := by
  unfold trim
  rw [List.rdropWhile_eq_nil_iff, ← dropWhile_eq_nil]
  constructor
  · intro hall
    cases hdrop : v.dropWhile isBlank with
    | nil => rfl
    | cons c rest =>
      have hhead := List.head_dropWhile_not isBlank (by rw [hdrop]; exact List.cons_ne_nil _ _)
      have hblank := hall c (by rw [hdrop]; exact List.mem_cons_self)
      simp only [hdrop, List.head_cons] at hhead
      rw [hblank] at hhead
      cases hhead
  · intro hnil
    rw [hnil]
    exact fun c hc => absurd hc List.not_mem_nil

/-- A value with something in it loses nothing at its end unless a blank stands there. -/
theorem dropWhile_eq_trim_iff {v : Bytes} (hv : ¬ AllBlank v) :
    v.dropWhile isBlank = trim v ↔ ¬ EndsBlank v := by
  have hne : v.dropWhile isBlank ≠ [] := fun e => hv ((dropWhile_eq_nil v).mp e)
  have hlast : v.getLast? = (v.dropWhile isBlank).getLast? := by
    conv_lhs => rw [← List.takeWhile_append_dropWhile (p := isBlank) (l := v)]
    rw [List.getLast?_append, List.getLast?_eq_some_getLast hne]
    rfl
  unfold trim EndsBlank
  rw [eq_comm, List.rdropWhile_eq_self_iff, hlast, List.getLast?_eq_some_getLast hne]
  constructor
  · rintro hself ⟨c, hc, hblank⟩
    cases hc
    exact hself hne hblank
  · exact fun hno _ hblank => hno ⟨_, rfl, hblank⟩

/-- The connection is upgraded exactly if a value was found. -/
theorem isOpen_handshake {s : Shared} {c : Client} (hopen : c.isOpen = false)
    (sends : List SendResult) :
    (handshake s c sends).2.isOpen = true ↔ headerValue c.inBuf keyName ≠ [] := by
  have hname : ascii "sec-websocket-key" = keyName := rfl
  unfold handshake
  rw [hname]
  dsimp only
  cases hkey : headerValue c.inBuf keyName with
  | nil =>
    have hpage : (servePage s c sends).2.isOpen = false :=
      (flushed_flush { c.respond pageResponse with serveOnly := true } sends).isOpen.trans hopen
    rw [List.isEmpty_nil, if_pos rfl, hpage]
    simp
  | cons b key =>
    rw [List.isEmpty_cons, if_neg Bool.false_ne_true]
    refine ⟨fun _ => List.cons_ne_nil b key, fun _ => ?_⟩
    exact (flushed_flush { c.respond (switchingProtocols (b :: key)) with isOpen := true } sends).isOpen

/-- The lookup is right if the value is, and if it is empty only for want of a header. -/
theorem findsKey_iff_value (r : Request) :
    FindsKey r ↔ headerValue r.bytes keyName = (r.keyHeader.map fun h => trim h.value).getD [] ∧
      (headerValue r.bytes keyName = [] ↔ r.keyHeader = none) := by
  constructor
  · exact fun h => ⟨h.value, h.empty_iff⟩
  · rintro ⟨hvalue, hempty⟩
    refine ⟨hvalue, hempty, fun s c sends hbuf hopen => ?_⟩
    rw [isOpen_handshake hopen, hbuf, ne_eq, hempty]

/-- A request that nowhere mentions the name is in order. -/
theorem keyInSight_of_none {r : Request} (hfirst : r.firstMention = none) : KeyInSight r := by
  refine ⟨fun h hh => ?_, fun l rest hl => ?_⟩
  · rw [hfirst] at hh
    cases hh
  · rw [hfirst] at hl
    cases hl

/-- On the header's own line it is the value that decides. -/
theorem keyInSight_own {r : Request} {h : HeaderLine} (hfirst : r.firstMention = some (.header h))
    (hkey : h.IsKey) : KeyInSight r ↔ ¬ AllBlank h.value ∧ ¬ EndsBlank h.value := by
  constructor
  · exact fun hsight => hsight.own h hfirst hkey
  · intro hvalue
    refine ⟨fun h' hh' _ => ?_, fun l rest hl hother _ => ?_⟩
    · rw [hfirst] at hh'
      cases hh'
      exact hvalue
    · rw [hfirst] at hl
      cases hl
      exact absurd hkey (hother h rfl)

/-- On another line it is chance. -/
theorem keyInSight_other {r : Request} {l : Line} {rest : Bytes} (hfirst : r.firstMention = some l)
    (hother : ∀ h, l = .header h → ¬ h.IsKey) (hrest : behindKey l.text = some rest) :
    KeyInSight r ↔ ByChance r rest := by
  constructor
  · exact fun hsight => hsight.other l rest hfirst hother hrest
  · intro hchance
    refine ⟨fun h hh hkey => ?_, fun l' rest' hl' _ hrest' => ?_⟩
    · rw [hfirst] at hh
      cases hh
      exact absurd hkey (hother h rfl)
    · rw [hfirst] at hl'
      cases hl'
      rw [hrest] at hrest'
      cases hrest'
      exact hchance

/-- The rest of the header's own line is its value as it should be read. -/
theorem readsValue_iff (v : Bytes) :
    (v.dropWhile isBlank = trim v ∧ v.dropWhile isBlank ≠ []) ↔ ¬ AllBlank v ∧ ¬ EndsBlank v := by
  constructor
  · rintro ⟨htrim, hne⟩
    have hsome : ¬ AllBlank v := fun hall => hne ((dropWhile_eq_nil v).mpr hall)
    exact ⟨hsome, (dropWhile_eq_trim_iff hsome).mp htrim⟩
  · rintro ⟨hsome, hend⟩
    exact ⟨(dropWhile_eq_trim_iff hsome).mpr hend, fun e => hsome ((dropWhile_eq_nil v).mp e)⟩

/-- The rest of another line is right by chance. -/
theorem byChance_iff (r : Request) (rest : Bytes) :
    ByChance r rest ↔ rest.dropWhile isBlank = (r.keyHeader.map fun h => trim h.value).getD [] ∧
      (rest.dropWhile isBlank = [] ↔ r.keyHeader = none) := by
  unfold ByChance
  cases r.keyHeader with
  | none => simp [AllBlank]
  | some h =>
    simp only [Option.map_some, Option.getD_some, reduceCtorEq, iff_false]
    constructor
    · rintro ⟨hsome, htrim⟩
      exact ⟨htrim, fun e => hsome ((trim_eq_nil _).mp (htrim.symm.trans e))⟩
    · rintro ⟨htrim, hne⟩
      exact ⟨fun hall => hne (htrim.trans ((trim_eq_nil _).mpr hall)), htrim⟩

/-- **Which requests are looked up right**: those whose first mention of the name is a header of the
    name with a value that ends with no blank, those that nowhere mention it, and those where
    chance will have it. -/
theorem findsKey_iff (r : Request) : FindsKey r ↔ KeyInSight r := by
  rw [findsKey_iff_value, headerValue_request]
  cases hfirst : r.firstMention with
  | none =>
    have hnone : r.keyHeader = none := by
      cases hkey : r.keyHeader with
      | none => rfl
      | some h => exact absurd hfirst (firstMention_ne_none hkey)
    rw [hnone]
    exact ⟨fun _ => keyInSight_of_none hfirst, fun _ => ⟨rfl, fun _ => rfl, fun _ => rfl⟩⟩
  | some l =>
    obtain ⟨rest, hrest⟩ : ∃ rest, behindKey l.text = some rest := by
      have hsome := List.find?_some hfirst
      exact Option.isSome_iff_exists.mp hsome
    simp only [Option.bind_some, hrest, Option.map_some, Option.getD_some]
    by_cases hown : ∃ h, l = .header h ∧ h.IsKey
    · obtain ⟨h, rfl, hkey⟩ := hown
      have hvalue : behindKey h.text = some rest := hrest
      rw [behindKey_of_isKey hkey] at hvalue
      cases hvalue
      rw [keyInSight_own hfirst hkey, ← readsValue_iff, keyHeader_of_firstMention hfirst hkey]
      simp only [Option.map_some, Option.getD_some, reduceCtorEq, iff_false, ne_eq]
    · have hother : ∀ h, l = .header h → ¬ h.IsKey := fun h hl hkey => hown ⟨h, hl, hkey⟩
      rw [keyInSight_other hfirst hother hrest, byChance_iff]

/-- A request whose only header is one of a longer name. -/
def longerName : Request :=
  { requestLine := ascii "GET / HTTP/1.1"
    headers := [{ name := ascii "X-Sec-WebSocket-Key", value := ascii " a", no_colon := by decide,
                  name_one_line := by decide, value_one_line := by decide }]
    one_line := by decide }

/-- It has no key, and is upgraded with the key `a`. -/
theorem not_findsKey : ¬ ∀ r : Request, FindsKey r := by
  intro h
  have hvalue : headerValue longerName.bytes keyName = ascii "a" := by decide
  have hnone : longerName.keyHeader = none := by decide
  have hempty := (h longerName).empty_iff.mpr hnone
  rw [hvalue] at hempty
  exact absurd hempty (by decide)

end OddsEngine.Ws
