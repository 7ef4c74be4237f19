/-
  File:      OddsEngine/Engine/CommandJson.lean
  Subject:   Commands that are proper JSON (`json_string`, `json_number` of engine/WsServer.hpp,
             `apply_command` of engine/main.cpp).

  The engine does not parse a command. It looks for a quoted field name and reads behind the next
  colon, so a string VALUE that equals a field name is taken for the field, and what is read is the
  value of the member after it (`readAs`). A command has three members, and a string that equals one
  of their names is no command, no key and no value.

  * `fieldStart_members` -- what is found of a field in a well-formed object;
  * `readAs_of_three` -- with three members only the last one's field can be misread, and only where
    the first member's value is its name;
  * `applyMembers_idle` -- such an object changes nothing, however it is read;
  * `applyCommand_reference` -- so a command changes what a parser's reading of it would.
-/
import OddsEngine.Engine.CommandAtomic
import OddsEngine.Lib.Json
import OddsEngine.Lib.Occurrence

namespace OddsEngine

open Lib Json

namespace Ws

/-! ## 1. Searching a text of strings -/

/-- The name as it is searched for. -/
def quoted (name : Bytes) : Bytes := quote :: (name ++ [quote])

theorem not_isWs_quote : ¬ IsWs quote := by decide

theorem not_isWs_colon : ¬ IsWs colon := by decide

/-- Whitespace holds up no search. -/
theorem afterFirst_skips {p : UInt8} (hp : ¬ IsWs p) (pat : Bytes) {bs rest : Bytes}
    (h : Skips bs rest) : afterFirst (p :: pat) bs = afterFirst (p :: pat) rest := by
  obtain ⟨w, rfl, hw⟩ := h.split
  exact afterFirst_append (fun hmem => hp (hw p hmem)) pat rest

theorem afterFirst_cons {p x : UInt8} (h : p ≠ x) (pat s : Bytes) :
    afterFirst (p :: pat) (x :: s) = afterFirst (p :: pat) s :=
  afterFirst_append (fun hmem => h (List.mem_singleton.mp hmem)) pat s

/-- What may stand between two strings: a colon, a comma or the closing brace. -/
def IsSign (c : UInt8) : Prop := c = 0x3A ∨ c = 0x2C ∨ c = 0x7D

/-- The names of a command's fields. -/
def fieldNames : List Bytes := [ascii "cmd", ascii "key", ascii "value"]

/-- Field names have neither quotes nor signs in them. -/
theorem notMem_fieldName {name : Bytes} (h : name ∈ fieldNames) {c : UInt8}
    (hc : c = quote ∨ IsSign c) : c ∉ name := by
  rcases List.mem_cons.mp h with rfl | h
  · rcases hc with rfl | rfl | rfl | rfl <;> decide
  rcases List.mem_cons.mp h with rfl | h
  · rcases hc with rfl | rfl | rfl | rfl <;> decide
  · rw [List.mem_singleton.mp h]
    rcases hc with rfl | rfl | rfl | rfl <;> decide

/-- **A string in the text** is found where it is the name; else the search goes on at the sign
    behind it: between its closing quote and the next opening one there is no name. -/
theorem afterFirst_string {name body t u : Bytes} {c : UInt8} (hname : name ∈ fieldNames)
    (hbody : quote ∉ body) (ht : Skips t (c :: u)) (hc : IsSign c) :
    afterFirst (quoted name) (quote :: (body ++ quote :: t)) =
      if body = name then some t else afterFirst (quoted name) u := by
  have hquote : quote ∉ name := notMem_fieldName hname (Or.inl rfl)
  have hne : quote ≠ c := by
    rcases hc with rfl | rfl | rfl <;> decide
  have hhead : (quoted name).isPrefixOf (quote :: (body ++ quote :: t)) = decide (body = name) := by
    rw [quoted, List.isPrefixOf, beq_self_eq_true, Bool.true_and]
    exact isPrefixOf_delimited hquote hbody t
  by_cases hsame : body = name
  · subst hsame
    rw [if_pos rfl, afterFirst, if_pos (hhead.trans (decide_eq_true rfl))]
    simp [quoted]
  · have hclose : (quoted name).isPrefixOf (quote :: t) = false := by
      obtain ⟨w, rfl, hw⟩ := ht.split
      have hsign : c ∉ name ++ [quote] := by
        intro hmem
        rcases List.mem_append.mp hmem with hmem | hmem
        · exact notMem_fieldName hname (Or.inr hc) hmem
        · exact hne (List.mem_singleton.mp hmem).symm
      rw [quoted, List.isPrefixOf, isPrefixOf_append_cons hsign,
        not_isPrefixOf_of_mem (List.mem_append_right _ (List.mem_singleton.mpr rfl))
          (fun hmem => not_isWs_quote (hw _ hmem)), Bool.and_false]
    rw [if_neg hsame, afterFirst, if_neg (by rw [hhead, decide_eq_true_eq]; exact hsame)]
    have hskip : afterFirst (quoted name) (body ++ quote :: t) =
        afterFirst (quoted name) (quote :: t) := afterFirst_append hbody _ _
    rw [hskip, afterFirst, if_neg (by rw [hclose]; exact Bool.false_ne_true)]
    exact (afterFirst_skips not_isWs_quote _ ht).trans (afterFirst_cons hne _ _)

/-! ## 2. Searching an object -/

/-- A value that is neither an array nor an object, and no string with a backslash. -/
def Scalar : Tree → Prop
  | .string body => 0x5C ∉ body
  | .array _ => False
  | .object _ => False
  | _ => True

/-- The value is the string `name`. -/
def isText (name : Bytes) : Tree → Bool
  | .string body => decide (body = name)
  | _ => false

/-- A text without quotes holds up no search either. -/
theorem afterFirst_plain {text t u : Bytes} {c : UInt8} (name : Bytes) (htext : quote ∉ text)
    (ht : Skips t (c :: u)) (hc : IsSign c) :
    afterFirst (quoted name) (text ++ t) = afterFirst (quoted name) u := by
  have hne : quote ≠ c := by
    rcases hc with rfl | rfl | rfl <;> decide
  exact (afterFirst_append htext _ t).trans
    ((afterFirst_skips not_isWs_quote _ ht).trans (afterFirst_cons hne _ u))

theorem quote_notMem_number {text : Bytes} (h : IsNumber text) : quote ∉ text :=
  fun hmem => absurd (h.char _ hmem) (by decide)

/-- **A value in the text** is found where it is the string `name`. -/
theorem afterFirst_value {bs t u name : Bytes} {v : Tree} {c : UInt8} (hname : name ∈ fieldNames)
    (h : Value bs v t) (hv : Scalar v) (ht : Skips t (c :: u)) (hc : IsSign c) :
    afterFirst (quoted name) bs =
      if isText name v = true then some t else afterFirst (quoted name) u := by
  cases h with
  | null h =>
    rw [h]
    exact afterFirst_plain name (by decide) ht hc
  | @bool _ _ b h =>
    rw [h]
    cases b with
    | true => exact afterFirst_plain name (by decide) ht hc
    | false => exact afterFirst_plain name (by decide) ht hc
  | number htext h =>
    rw [h]
    exact afterFirst_plain name (quote_notMem_number htext) ht hc
  | @string _ body _ h =>
    rw [h.eq]
    have hfound := afterFirst_string hname (h.wellFormed.quote_notMem hv) ht hc
    have htext : isText name (.string body) = true ↔ body = name := decide_eq_true_iff
    by_cases hsame : body = name
    · rw [if_pos (htext.mpr hsame)]
      rwa [if_pos hsame] at hfound
    · rw [if_neg (fun h => hsame (htext.mp h))]
      rwa [if_neg hsame] at hfound
  | emptyArray _ _ => exact absurd hv id
  | array _ _ => exact absurd hv id
  | emptyObject _ _ => exact absurd hv id
  | object _ _ => exact absurd hv id

/-- What is read as the value of field `name`: behind the name of a member its value, behind a string
    that is the name the value of the next member. -/
def readAs (name : Bytes) : List (Bytes × Tree) → Option Tree
  | [] => none
  | (n, v) :: ms =>
    if n = name then some v
    else if isText name v = true then ms.head?.map Prod.snd
    else readAs name ms

theorem isspace_of_startsWith {b : UInt8} {v : Tree} (h : StartsWith b v) : isspace b = false := by
  cases v with
  | null =>
    rw [StartsWith] at h
    rw [h]
    rfl
  | bool x =>
    cases x with
    | true =>
      rw [StartsWith] at h
      rw [h]
      rfl
    | false =>
      rw [StartsWith] at h
      rw [h]
      rfl
  | number text =>
    rcases h with rfl | ⟨hlo, -⟩
    · rfl
    · have hge := UInt8.le_iff_toNat_le.mp hlo
      have h30 : (0x30 : UInt8).toNat = 48 := rfl
      have hne : b ≠ 0x20 := by
        rintro rfl
        exact absurd hlo (by decide)
      have hgt : ¬ b ≤ 0x0D := by
        intro hle
        have hle' := UInt8.le_iff_toNat_le.mp hle
        have h0D : (0x0D : UInt8).toNat = 13 := rfl
        omega
      simp [isspace, hne, hgt]
  | string body | array elements | object members =>
    rw [StartsWith] at h
    rw [h]
    rfl

theorem isspace_of_isWs {c : UInt8} (h : IsWs c) : isspace c = true := by
  rcases h with rfl | rfl | rfl | rfl <;> rfl

/-- `isspace` takes what JSON calls whitespace, and no value starts with it. -/
theorem dropWhile_isspace {bs w t : Bytes} {v : Tree} (h : Skips bs w) (hvalue : Value w v t) :
    bs.dropWhile isspace = w := by
  obtain ⟨gap, rfl, hgap⟩ := h.split
  rw [List.dropWhile_append_of_pos fun c hc => isspace_of_isWs (hgap c hc)]
  cases w with
  | nil => rfl
  | cons b w =>
    rw [List.dropWhile_cons_of_neg]
    rw [isspace_of_startsWith hvalue.startsWith]
    exact Bool.false_ne_true

/-- The value `v` stands behind the next colon of `s`, and `t` behind it. -/
def Behind (s : Bytes) (v : Tree) (t : Bytes) : Prop :=
  ∃ u, afterFirst [colon] s = some u ∧ Value (u.dropWhile isspace) v t

theorem behind_of_skips {s u w t : Bytes} {v : Tree} (hcolon : Skips s (colon :: u))
    (hgap : Skips u w) (h : Value w v t) : Behind s v t := by
  refine ⟨u, ?_, ?_⟩
  · rw [afterFirst_skips not_isWs_colon [] hcolon]
    rfl
  · rwa [dropWhile_isspace hgap h]

/-- Before a member the next colon is the member's own: its name has none. -/
theorem behind_member {bs t n : Bytes} {v : Tree} (hn : n ∈ fieldNames) (h : Member bs (n, v) t) :
    Behind bs v t := by
  cases h with
  | @member _ s t' u w _ _ _ hws hstr hcolon hgap hvalue =>
    obtain ⟨u', hu', hvalue'⟩ := behind_of_skips hcolon hgap hvalue
    have hskip : afterFirst [colon] bs = afterFirst [colon] t' := by
      have hlead : colon ∉ quote :: (n ++ [quote]) := by
        intro hmem
        rcases List.mem_cons.mp hmem with hmem | hmem
        · exact absurd hmem (by decide)
        rcases List.mem_append.mp hmem with hmem | hmem
        · exact notMem_fieldName hn (Or.inr (Or.inl rfl)) hmem
        · exact absurd (List.mem_singleton.mp hmem) (by decide)
      have hsplit : quote :: (n ++ quote :: t') = (quote :: (n ++ [quote])) ++ t' := by simp
      rw [afterFirst_skips not_isWs_colon [] hws, hstr.eq]
      exact (congrArg _ hsplit).trans (afterFirst_append hlead [] t')
    exact ⟨u', hskip.trans hu', hvalue'⟩

/-- **One member**: the search ends at its name, or at its value where that is the string `name`,
    or goes on behind it. -/
theorem afterFirst_member {bs t u n name : Bytes} {v : Tree} {c : UInt8}
    (hname : name ∈ fieldNames) (hn : n ∈ fieldNames) (h : Member bs (n, v) t) (hv : Scalar v)
    (ht : Skips t (c :: u)) (hc : IsSign c) :
    (n = name → ∃ s, afterFirst (quoted name) bs = some s ∧ Behind s v t) ∧
    (n ≠ name → afterFirst (quoted name) bs =
      if isText name v = true then some t else afterFirst (quoted name) u) := by
  cases h with
  | @member _ s t' u' w _ _ _ hws hstr hcolon hgap hvalue =>
    have hfound : afterFirst (quoted name) bs =
        if n = name then some t' else afterFirst (quoted name) u' := by
      rw [quoted, afterFirst_skips not_isWs_quote _ hws, hstr.eq]
      exact afterFirst_string hname (notMem_fieldName hn (Or.inl rfl)) hcolon (Or.inl rfl)
    constructor
    · intro hsame
      rw [if_pos hsame] at hfound
      exact ⟨t', hfound, behind_of_skips hcolon hgap hvalue⟩
    · intro hother
      rw [if_neg hother] at hfound
      rw [hfound, ← afterFirst_value hname hvalue hv ht hc]
      exact afterFirst_skips not_isWs_quote _ hgap

theorem fieldStart_of_behind {bs s t name : Bytes} {v : Tree}
    (hs : afterFirst (quoted name) bs = some s) (h : Behind s v t) :
    ∃ w, fieldStart bs name = some w ∧ Value w v t := by
  obtain ⟨u, hu, hvalue⟩ := h
  refine ⟨u.dropWhile isspace, ?_, hvalue⟩
  have hpat : [quote] ++ name ++ [quote] = quoted name := rfl
  rw [fieldStart, hpat, hs]
  show (afterFirst [colon] s >>= fun s => _) = _
  rw [hu]
  rfl

/-- A member's value is read on to a comma or the closing brace. -/
theorem first_member {bs rest n : Bytes} {v : Tree} {ms : List (Bytes × Tree)}
    (h : Members bs ((n, v) :: ms) rest) :
    ∃ t c u, Member bs (n, v) t ∧ Skips t (c :: u) ∧ IsSign c ∧
      (ms ≠ [] → c = 0x2C ∧ Members u ms rest) := by
  cases h with
  | last h hclose => exact ⟨_, _, _, h, hclose, Or.inr (Or.inr rfl), fun hne => absurd rfl hne⟩
  | more h hcomma hmore =>
    exact ⟨_, _, _, h, hcomma, Or.inr (Or.inl rfl), fun _ => ⟨rfl, hmore⟩⟩

/-- **What is found of a field** in the members of an object. -/
theorem fieldStart_members {name : Bytes} (hname : name ∈ fieldNames) {ms : List (Bytes × Tree)}
    {bs rest : Bytes} (h : Members bs ms rest)
    (hms : ∀ m ∈ ms, m.1 ∈ fieldNames ∧ Scalar m.2) {v : Tree} (hread : readAs name ms = some v) :
    ∃ w t c u, fieldStart bs name = some w ∧ Value w v t ∧ Skips t (c :: u) ∧ IsSign c := by
  induction ms generalizing bs with
  | nil => cases hread
  | cons m ms ih =>
    obtain ⟨n, v'⟩ := m
    obtain ⟨⟨hn, hv'⟩, hms⟩ := List.forall_mem_cons.mp hms
    obtain ⟨t, c, u, hmember, ht, hc, hmore⟩ := first_member h
    obtain ⟨hsame, hother⟩ := afterFirst_member hname hn hmember hv' ht hc
    rw [readAs] at hread
    by_cases hnn : n = name
    · -- the member's own name
      rw [if_pos hnn] at hread
      obtain rfl := Option.some.inj hread
      obtain ⟨s, hs, hbehind⟩ := hsame hnn
      obtain ⟨w, hw, hvalue⟩ := fieldStart_of_behind hs hbehind
      exact ⟨w, t, c, u, hw, hvalue, ht, hc⟩
    · rw [if_neg hnn] at hread
      have hfound := hother hnn
      by_cases htext : isText name v' = true
      · -- a value that is taken for the name: the next colon is the next member's
        rw [if_pos htext] at hread hfound
        cases ms with
        | nil => cases hread
        | cons m ms =>
          obtain ⟨n₂, v₂⟩ := m
          obtain rfl := Option.some.inj hread
          obtain ⟨rfl, hmembers⟩ := hmore (List.cons_ne_nil _ _)
          obtain ⟨⟨hn₂, -⟩, -⟩ := List.forall_mem_cons.mp hms
          obtain ⟨t₂, c₂, u₂, hmember₂, ht₂, hc₂, -⟩ := first_member hmembers
          obtain ⟨u₃, hu₃, hvalue⟩ := behind_member hn₂ hmember₂
          have hbehind : Behind t v₂ t₂ := by
            refine ⟨u₃, ?_, hvalue⟩
            rw [afterFirst_skips not_isWs_colon [] ht, afterFirst_cons (by decide)]
            exact hu₃
          obtain ⟨w, hw, hvalue⟩ := fieldStart_of_behind hfound hbehind
          exact ⟨w, t₂, c₂, u₂, hw, hvalue, ht₂, hc₂⟩
      · rw [if_neg htext] at hread hfound
        have hne : ms ≠ [] := by
          rintro rfl
          cases hread
        obtain ⟨w, t', c', u', hw, hrest⟩ := ih (hmore hne).2 hms hread
        refine ⟨w, t', c', u', ?_, hrest⟩
        rw [← hw]
        have hpat : [quote] ++ name ++ [quote] = quoted name := rfl
        rw [fieldStart, fieldStart, hpat, hfound]

theorem fieldStart_object {name : Bytes} (hname : name ∈ fieldNames) {ms : List (Bytes × Tree)}
    {msg : Bytes} (h : JsonText msg (.object ms))
    (hms : ∀ m ∈ ms, m.1 ∈ fieldNames ∧ Scalar m.2) {v : Tree} (hread : readAs name ms = some v) :
    ∃ w t c u, fieldStart msg name = some w ∧ Value w v t ∧ Skips t (c :: u) ∧ IsSign c := by
  obtain ⟨s, t, hws, hvalue, -⟩ := h
  cases hvalue with
  | emptyObject hopen hclose => cases hread
  | @object _ s' _ _ hopen hmembers =>
    obtain ⟨w, t', c, u, hw, hrest⟩ := fieldStart_members hname hmembers hms hread
    refine ⟨w, t', c, u, ?_, hrest⟩
    have hskip : afterFirst (quoted name) msg = afterFirst (quoted name) s' := by
      rw [quoted, afterFirst_skips not_isWs_quote _ hws, hopen, afterFirst_cons (by decide)]
    rw [← hw]
    have hpat : [quote] ++ name ++ [quote] = quoted name := rfl
    rw [fieldStart, fieldStart, hpat, hskip]

/-! ## 3. Strings and numbers -/

/-- The string a value is. -/
def textOf : Tree → Option Bytes
  | .string body => some body
  | _ => none

/-- The number a value is, as `strtod` reads it. -/
def numberOf (F : Type) [Convert F] : Tree → Option F
  | .number text => some (Convert.strtod text).1
  | _ => none

/-- What `strtod` makes of JSON texts: it reads a number to its end, whatever may stand behind it
    there, and no other value at all. -/
structure ReadsNumbers (F : Type) [Convert F] : Prop where
  number : ∀ text rest, IsNumber text → (∀ c, rest.head? = some c → IsWs c ∨ IsSign c) →
    (Convert.strtod (text ++ rest) : F × Nat) = Convert.strtod text
  reads : ∀ text, IsNumber text → (Convert.strtod text : F × Nat).2 ≠ 0
  other : ∀ text rest, text ∈ [nullText, boolText true, boolText false, [quote]] →
    (Convert.strtod (text ++ rest) : F × Nat).2 = 0

/-- What `json_string` makes of the place it stops at. -/
def stringAt : Bytes → Option Bytes
  | [] => none
  | c :: rest =>
    if c ≠ quote then none
    else if quote ∈ rest then some (rest.takeWhile (· ≠ quote))
    else none

theorem jsonString_eq {s name w : Bytes} (h : fieldStart s name = some w) :
    jsonString s name = stringAt w := by
  rw [jsonString, h]
  cases w with
  | nil => rfl
  | cons c rest => rfl

theorem stringAt_of_ne {c : UInt8} (h : c ≠ quote) (rest : Bytes) : stringAt (c :: rest) = none :=
  if_pos h

theorem stringAt_value {w t : Bytes} {v : Tree} (h : Value w v t) (hv : Scalar v) :
    stringAt w = textOf v := by
  cases h with
  | null hw =>
    rw [hw]
    exact stringAt_of_ne (by decide) _
  | @bool _ _ b hw =>
    rw [hw]
    cases b with
    | true => exact stringAt_of_ne (by decide) _
    | false => exact stringAt_of_ne (by decide) _
  | number htext hw =>
    obtain ⟨d, ds, rfl, hd⟩ := htext.head
    rw [hw]
    refine stringAt_of_ne ?_ _
    rintro rfl
    exact absurd hd (by decide)
  | @string _ body _ hstr =>
    have hbody : quote ∉ body := hstr.wellFormed.quote_notMem hv
    have htake : (body ++ quote :: t).takeWhile (· ≠ quote) = body := by
      rw [List.takeWhile_append_of_pos, List.takeWhile_cons_of_neg (by simp), List.append_nil]
      intro x hx
      exact decide_eq_true fun heq => hbody (heq ▸ hx)
    rw [hstr.eq, stringAt]
    refine (if_neg (fun hne => hne rfl)).trans ((if_pos ?_).trans (congrArg some htake))
    exact List.mem_append_right _ List.mem_cons_self
  | emptyArray _ _ => exact absurd hv id
  | array _ _ => exact absurd hv id
  | emptyObject _ _ => exact absurd hv id
  | object _ _ => exact absurd hv id

/-- What `json_number` makes of it: the text as far as the first NUL goes to `strtod`. -/
def numberAt (F : Type) [Convert F] (w : Bytes) : Option F :=
  if (Convert.strtod (w.takeWhile (· ≠ 0)) : F × Nat).2 = 0 then none
  else some (Convert.strtod (w.takeWhile (· ≠ 0))).1

theorem jsonNumber_eq {F : Type} [Convert F] {s name w : Bytes} (h : fieldStart s name = some w) :
    jsonNumber s name = numberAt F w := by
  rw [jsonNumber, h]
  rfl

/-- A text without NULs goes there whole. -/
theorem takeWhile_text {text : Bytes} (h : 0 ∉ text) (t : Bytes) :
    (text ++ t).takeWhile (· ≠ 0) = text ++ t.takeWhile (· ≠ 0) :=
  List.takeWhile_append_of_pos fun _ hx => decide_eq_true fun heq => h (heq ▸ hx)

theorem numberAt_other {F : Type} [Convert F] (hstrtod : ReadsNumbers F) {text : Bytes}
    (htext : text ∈ [nullText, boolText true, boolText false, [quote]]) (t : Bytes) :
    numberAt F (text ++ t) = none := by
  have hzero : (0 : UInt8) ∉ text := by
    simp only [List.mem_cons, List.not_mem_nil, or_false] at htext
    rcases htext with rfl | rfl | rfl | rfl <;> decide
  rw [numberAt, takeWhile_text hzero]
  exact if_pos (hstrtod.other text _ htext)

/-- Behind a value there is whitespace or a sign, or nothing. -/
theorem head_of_skips {t u : Bytes} {c : UInt8} (ht : Skips t (c :: u)) (hc : IsSign c) :
    ∀ x, (t.takeWhile (· ≠ 0)).head? = some x → IsWs x ∨ IsSign x := by
  intro x hx
  have hhead : t.head? = some x := by
    cases t with
    | nil => exact hx
    | cons b t =>
      by_cases hb : b ≠ 0
      · rwa [List.takeWhile_cons_of_pos (by simpa using hb)] at hx
      · rw [List.takeWhile_cons_of_neg (by simpa using hb)] at hx
        cases hx
  cases ht with
  | none =>
    obtain rfl := Option.some.inj hhead
    exact Or.inr hc
  | cons hws _ =>
    obtain rfl := Option.some.inj hhead
    exact Or.inl hws

theorem numberAt_value {F : Type} [Convert F] (hstrtod : ReadsNumbers F) {w t u : Bytes} {v : Tree}
    {c : UInt8} (h : Value w v t) (hv : Scalar v) (ht : Skips t (c :: u)) (hc : IsSign c) :
    numberAt F w = numberOf F v := by
  cases h with
  | null hw =>
    rw [hw]
    exact numberAt_other hstrtod (by decide) t
  | @bool _ _ b hw =>
    rw [hw]
    cases b with
    | true => exact numberAt_other hstrtod (by decide) t
    | false => exact numberAt_other hstrtod (by decide) t
  | @number _ text _ htext hw =>
    have hzero : (0 : UInt8) ∉ text := fun hmem => absurd (htext.char 0 hmem) (by decide)
    rw [hw, numberAt, takeWhile_text hzero, hstrtod.number text _ htext (head_of_skips ht hc),
      if_neg (hstrtod.reads text htext)]
    rfl
  | @string _ body _ hstr =>
    rw [hstr.eq]
    exact @numberAt_other F _ hstrtod [quote] (by decide) (body ++ quote :: t)
  | emptyArray _ _ => exact absurd hv id
  | array _ _ => exact absurd hv id
  | emptyObject _ _ => exact absurd hv id
  | object _ _ => exact absurd hv id

section Object

variable {name msg : Bytes} {ms : List (Bytes × Tree)} {v : Tree}

/-- **`json_string`** on a proper object. -/
theorem jsonString_object (hname : name ∈ fieldNames) (h : JsonText msg (.object ms))
    (hms : ∀ m ∈ ms, m.1 ∈ fieldNames ∧ Scalar m.2) (hv : Scalar v)
    (hread : readAs name ms = some v) : jsonString msg name = textOf v := by
  obtain ⟨w, t, c, u, hw, hvalue, -, -⟩ := fieldStart_object hname h hms hread
  rw [jsonString_eq hw]
  exact stringAt_value hvalue hv

/-- **`json_number`** on a proper object. -/
theorem jsonNumber_object {F : Type} [Convert F] (hstrtod : ReadsNumbers F)
    (hname : name ∈ fieldNames) (h : JsonText msg (.object ms))
    (hms : ∀ m ∈ ms, m.1 ∈ fieldNames ∧ Scalar m.2) (hv : Scalar v)
    (hread : readAs name ms = some v) : jsonNumber msg name = numberOf F v := by
  obtain ⟨w, t, c, u, hw, hvalue, ht, hc⟩ := fieldStart_object hname h hms hread
  rw [jsonNumber_eq hw]
  exact numberAt_value hstrtod hvalue hv ht hc

end Object

end Ws

/-! ## 4. The command, properly read -/

open Ws

variable {F : Type} [DoubleArith F] [Convert F]

theorem hour_atLeastTwo : Nat.AtLeastTwo 3600000 := inferInstance

attribute [local instance] hour_atLeastTwo in
/-- The field `key` set to a value, of which `text` and `number` are the readings: where the key is
    known, the value is of its type and in its range. -/
def setField (key : Bytes) (text : Option Bytes) (number : Option F) (cfg : LiveConfig F) :
    LiveConfig F :=
  if key = ascii "devig" then
    match text.bind parseDevig with
    | none => cfg
    | some m => { cfg with devigMethod := m, changes := cfg.changes + 1 }
  else
    match number with
    | none => cfg
    | some v =>
      if !Libm.isfinite v then cfg
      else if key = ascii "stale-ms" then
        if v < 1 ∨ 3600000 < v then cfg
        else { cfg with staleMs := Convert.toUInt64 v, changes := cfg.changes + 1 }
      else if key = ascii "kelly-fraction" then
        if ¬ 0 < v ∨ 1 < v then cfg
        else { cfg with kellyFraction := v, changes := cfg.changes + 1 }
      else if key = ascii "max-exposure" then
        if ¬ 0 < v ∨ 1 < v then cfg
        else { cfg with maxExposure := v, changes := cfg.changes + 1 }
      else cfg

/-- A `set` command whose fields read as `look` tells. -/
def applyMembers (look : Bytes → Option Tree) (cfg : LiveConfig F) : LiveConfig F :=
  match (look (ascii "cmd")).bind textOf with
  | none => cfg
  | some cmd =>
    if cmd ≠ ascii "set" then cfg
    else
      match (look (ascii "key")).bind textOf with
      | none => cfg
      | some key => setField key ((look (ascii "value")).bind textOf)
          ((look (ascii "value")).bind (numberOf F)) cfg

/-- What a parser's reading of the object makes of the configuration. -/
def referenceConfig (ms : List (Bytes × Tree)) (cfg : LiveConfig F) : LiveConfig F :=
  applyMembers (fun name => ms.lookup name) cfg

/-- The engine's configuration after a command, by what the two extractions return. -/
theorem applyCommand_snd (msg : Bytes) (cfg : LiveConfig F) :
    (applyCommand msg cfg false).2 =
      match jsonString msg (ascii "cmd") with
      | none => cfg
      | some cmd =>
        if cmd ≠ ascii "set" then cfg
        else
          match jsonString msg (ascii "key") with
          | none => cfg
          | some key => setField key (jsonString msg (ascii "value"))
              (jsonNumber msg (ascii "value")) cfg := by
  rw [applyCommand]
  cases jsonString msg (ascii "cmd") with
  | none => rfl
  | some cmd =>
    dsimp only
    by_cases hset : cmd ≠ ascii "set"
    · rw [if_pos hset, if_pos hset]
    · rw [if_neg hset, if_neg hset]
      cases jsonString msg (ascii "key") with
      | none => rfl
      | some key =>
        dsimp only
        unfold setField
        rw [if_neg Bool.false_ne_true]
        by_cases hdevig : key = ascii "devig"
        · rw [if_pos hdevig, if_pos hdevig]
          cases jsonString msg (ascii "value") with
          | none => rfl
          | some v =>
            rw [Option.bind_some]
            dsimp only
            cases parseDevig v with
            | none => rfl
            | some m => rfl
        · rw [if_neg hdevig, if_neg hdevig]
          cases (jsonNumber msg (ascii "value") : Option F) with
          | none => rfl
          | some v =>
            dsimp only
            simp only [apply_ite Prod.snd, ite_self]

/-- **The engine reads the fields of a proper object as `readAs` tells.** -/
theorem applyCommand_members (hstrtod : ReadsNumbers F) {msg : Bytes} {ms : List (Bytes × Tree)}
    (h : JsonText msg (.object ms)) (hms : ∀ m ∈ ms, m.1 ∈ fieldNames ∧ Scalar m.2)
    (hread : ∀ name ∈ fieldNames, ∃ v, readAs name ms = some v ∧ Scalar v) (cfg : LiveConfig F) :
    (applyCommand msg cfg false).2 = applyMembers (fun name => readAs name ms) cfg := by
  have hstring : ∀ name ∈ fieldNames, jsonString msg name = (readAs name ms).bind textOf := by
    intro name hname
    obtain ⟨v, hv, hscalar⟩ := hread name hname
    rw [jsonString_object hname h hms hscalar hv, hv]
    rfl
  have hnumber : ∀ name ∈ fieldNames, jsonNumber msg name = (readAs name ms).bind (numberOf F) := by
    intro name hname
    obtain ⟨v, hv, hscalar⟩ := hread name hname
    rw [jsonNumber_object hstrtod hname h hms hscalar hv, hv]
    rfl
  rw [applyCommand_snd, hstring (ascii "cmd") (by decide), hstring (ascii "key") (by decide),
    hstring (ascii "value") (by decide), hnumber (ascii "value") (by decide)]
  rfl

omit [DoubleArith F] in
theorem numberOf_of_isText {name : Bytes} {v : Tree} (h : isText name v = true) :
    numberOf F v = none := by
  cases v with
  | string body => rfl
  | null | bool | number | array | object => exact absurd h Bool.false_ne_true

theorem textOf_of_isText {name : Bytes} {v : Tree} (h : isText name v = true) :
    textOf v = some name := by
  cases v with
  | string body => exact congrArg some (of_decide_eq_true h)
  | null | bool | number | array | object => exact absurd h Bool.false_ne_true

/-- No key the engine knows is the name of a field. -/
theorem setField_of_fieldName {key : Bytes} (h : key ∈ fieldNames) (text : Option Bytes)
    (number : Option F) (cfg : LiveConfig F) : setField key text number cfg = cfg := by
  have hdevig : key ≠ ascii "devig" := fun e => absurd (e ▸ h) (by decide)
  have hstale : key ≠ ascii "stale-ms" := fun e => absurd (e ▸ h) (by decide)
  have hkelly : key ≠ ascii "kelly-fraction" := fun e => absurd (e ▸ h) (by decide)
  have hexposure : key ≠ ascii "max-exposure" := fun e => absurd (e ▸ h) (by decide)
  unfold setField
  rw [if_neg hdevig]
  cases number with
  | none => rfl
  | some v => simp only [if_neg hstale, if_neg hkelly, if_neg hexposure, ite_self]

/-- No method is the name of a field, and a string is no number. -/
theorem setField_of_text {text : Bytes} (h : text ∈ fieldNames) (key : Bytes)
    (cfg : LiveConfig F) : setField key (some text) none cfg = cfg := by
  have hmethod : parseDevig text = none := by
    simp only [fieldNames, List.mem_cons, List.not_mem_nil, or_false] at h
    rcases h with rfl | rfl | rfl <;> decide
  unfold setField
  by_cases hdevig : key = ascii "devig"
  · rw [if_pos hdevig, Option.bind_some, hmethod]
  · rw [if_neg hdevig]

/-- **A field whose value is the name of a field leaves nothing to change**, whatever the other two
    are read as. -/
theorem applyMembers_idle {look : Bytes → Option Tree} {name other : Bytes} {v : Tree}
    (hname : name ∈ fieldNames) (hother : other ∈ fieldNames) (hlook : look name = some v)
    (htext : isText other v = true) (cfg : LiveConfig F) : applyMembers look cfg = cfg := by
  have hread : (look name).bind textOf = some other := by
    rw [hlook]
    exact textOf_of_isText htext
  have hnumber : (look name).bind (numberOf F) = none := by
    rw [hlook]
    exact numberOf_of_isText htext
  unfold applyMembers
  rcases List.mem_cons.mp hname with rfl | hname
  · have hset : other ≠ ascii "set" := fun e => absurd (e ▸ hother) (by decide)
    rw [hread]
    exact if_pos hset
  rcases List.mem_cons.mp hname with rfl | hname
  · rw [hread]
    cases (look (ascii "cmd")).bind textOf with
    | none => rfl
    | some cmd =>
      dsimp only
      rw [setField_of_fieldName hother, ite_self]
  · obtain rfl := List.mem_singleton.mp hname
    rw [hread, hnumber]
    cases (look (ascii "cmd")).bind textOf with
    | none => rfl
    | some cmd =>
      dsimp only
      cases (look (ascii "key")).bind textOf with
      | none => exact ite_self _
      | some key =>
        dsimp only
        rw [setField_of_text hother, ite_self]

/-- Where the fields read alike, the same becomes of the configuration. -/
theorem applyMembers_congr {look look' : Bytes → Option Tree}
    (h : ∀ name ∈ fieldNames, look name = look' name) (cfg : LiveConfig F) :
    applyMembers look cfg = applyMembers look' cfg := by
  unfold applyMembers
  rw [h (ascii "cmd") (by decide), h (ascii "key") (by decide), h (ascii "value") (by decide)]

/-! ## 5. Three members -/

section Three

variable {n₁ n₂ n₃ : Bytes} {v₁ v₂ v₃ : Tree}

/-- The first two are read as they are, the third as the second where the first value is its name. -/
theorem readAs_of_three (h : [n₁, n₂, n₃].Nodup) :
    readAs n₁ [(n₁, v₁), (n₂, v₂), (n₃, v₃)] = some v₁ ∧
    readAs n₂ [(n₁, v₁), (n₂, v₂), (n₃, v₃)] = some v₂ ∧
    readAs n₃ [(n₁, v₁), (n₂, v₂), (n₃, v₃)] =
      if isText n₃ v₁ = true then some v₂ else some v₃ := by
  simp only [List.nodup_cons, List.mem_cons, List.not_mem_nil, or_false, not_or] at h
  obtain ⟨⟨h12, h13⟩, h23, -⟩ := h
  refine ⟨?_, ?_, ?_⟩
  · rw [readAs, if_pos rfl]
  · rw [readAs, if_neg h12, readAs, if_pos rfl]
    exact ite_self _
  · rw [readAs, if_neg h13, readAs, if_neg h23, readAs, if_pos rfl]
    by_cases htext : isText n₃ v₁ = true
    · rw [if_pos htext, if_pos htext]
      rfl
    · rw [if_neg htext, if_neg htext]
      exact ite_self _

theorem lookup_of_three (h : [n₁, n₂, n₃].Nodup) :
    [(n₁, v₁), (n₂, v₂), (n₃, v₃)].lookup n₁ = some v₁ ∧
    [(n₁, v₁), (n₂, v₂), (n₃, v₃)].lookup n₂ = some v₂ ∧
    [(n₁, v₁), (n₂, v₂), (n₃, v₃)].lookup n₃ = some v₃ := by
  simp only [List.nodup_cons, List.mem_cons, List.not_mem_nil, or_false, not_or] at h
  obtain ⟨⟨h12, h13⟩, h23, -⟩ := h
  have h21 : (n₂ == n₁) = false := beq_false_of_ne (Ne.symm h12)
  have h31 : (n₃ == n₁) = false := beq_false_of_ne (Ne.symm h13)
  have h32 : (n₃ == n₂) = false := beq_false_of_ne (Ne.symm h23)
  simp [List.lookup_cons, h21, h31, h32]

end Three

/-- **A command that is a proper object of its three fields changes what the object says**, in
    whatever order they stand and whatever their values are: also where a string is taken for a
    field's name. -/
theorem applyCommand_reference (hstrtod : ReadsNumbers F) {msg : Bytes} {ms : List (Bytes × Tree)}
    (h : JsonText msg (.object ms)) (hnames : (ms.map Prod.fst).Perm fieldNames)
    (hscalar : ∀ m ∈ ms, Scalar m.2) (cfg : LiveConfig F) :
    (applyCommand msg cfg false).2 = referenceConfig ms cfg := by
  have hms : ∀ m ∈ ms, m.1 ∈ fieldNames ∧ Scalar m.2 := fun m hm =>
    ⟨hnames.mem_iff.mp (List.mem_map_of_mem hm), hscalar m hm⟩
  have hlen : ms.length = 3 := by
    rw [← List.length_map (f := Prod.fst), hnames.length_eq]
    rfl
  obtain ⟨⟨n₁, v₁⟩, ⟨n₂, v₂⟩, ⟨n₃, v₃⟩, rfl⟩ := List.length_eq_three.mp hlen
  have hnodup : [n₁, n₂, n₃].Nodup := hnames.nodup_iff.mpr (by decide)
  obtain ⟨hread₁, hread₂, hread₃⟩ := @readAs_of_three n₁ n₂ n₃ v₁ v₂ v₃ hnodup
  obtain ⟨hlook₁, hlook₂, hlook₃⟩ := @lookup_of_three n₁ n₂ n₃ v₁ v₂ v₃ hnodup
  have hone : ∀ name ∈ fieldNames, name = n₁ ∨ name = n₂ ∨ name = n₃ := by
    intro name hname
    simpa using hnames.mem_iff.mpr hname
  obtain ⟨⟨hn₁, hv₁⟩, ⟨-, hv₂⟩, ⟨hn₃, hv₃⟩⟩ : (n₁ ∈ fieldNames ∧ Scalar v₁) ∧
      (n₂ ∈ fieldNames ∧ Scalar v₂) ∧ n₃ ∈ fieldNames ∧ Scalar v₃ := by
    simpa using hms
  have hread : ∀ name ∈ fieldNames, ∃ v,
      readAs name [(n₁, v₁), (n₂, v₂), (n₃, v₃)] = some v ∧ Scalar v := by
    intro name hname
    rcases hone name hname with rfl | rfl | rfl
    · exact ⟨v₁, hread₁, hv₁⟩
    · exact ⟨v₂, hread₂, hv₂⟩
    · by_cases htext : isText name v₁ = true
      · exact ⟨v₂, hread₃.trans (if_pos htext), hv₂⟩
      · exact ⟨v₃, hread₃.trans (if_neg htext), hv₃⟩
  rw [applyCommand_members hstrtod h hms hread, referenceConfig]
  by_cases htext : isText n₃ v₁ = true
  · -- the third field is misread, but the first one's value is its name
    rw [applyMembers_idle hn₁ hn₃ hread₁ htext, applyMembers_idle hn₁ hn₃ hlook₁ htext]
  · refine applyMembers_congr (fun name hname => ?_) cfg
    rcases hone name hname with rfl | rfl | rfl
    · rw [hread₁, hlook₁]
    · rw [hread₂, hlook₂]
    · rw [hread₃, if_neg htext, hlook₃]

/-- A `strtod` for numbers that are written in digits. -/
noncomputable def strtodDigits (s : Bytes) : ℝ × Nat :=
  let text := s.takeWhile fun b => decide (IsNumberChar b)
  (((text.foldl (fun n b => 10 * n + (b.toNat - 0x30)) 0 : ℕ) : ℝ), text.length)

@[reducible] noncomputable def convertDigits : Convert ℝ := { instConvertReal with strtod := strtodDigits }

/-- The bytes of a number end where whitespace or a sign comes. -/
theorem takeWhile_number {text rest : Bytes} (h : IsNumber text)
    (hrest : ∀ c, rest.head? = some c → IsWs c ∨ IsSign c) :
    (text ++ rest).takeWhile (fun b => decide (IsNumberChar b)) = text := by
  rw [List.takeWhile_append_of_pos fun b hb => decide_eq_true (h.char b hb)]
  cases rest with
  | nil => exact List.append_nil text
  | cons c rest =>
    have hc : ¬ IsNumberChar c := by
      rcases hrest c rfl with (rfl | rfl | rfl | rfl) | (rfl | rfl | rfl) <;> decide
    rw [List.takeWhile_cons_of_neg (by simpa using hc), List.append_nil]

theorem takeWhile_number_self {text : Bytes} (h : IsNumber text) :
    text.takeWhile (fun b => decide (IsNumberChar b)) = text := by
  have hwhole := @takeWhile_number text [] h fun c hc => nomatch hc
  rwa [List.append_nil] at hwhole

theorem readsNumbers_digits : @ReadsNumbers ℝ convertDigits := by
  refine @ReadsNumbers.mk ℝ convertDigits ?_ ?_ ?_
  · intro text rest h hrest
    show strtodDigits (text ++ rest) = strtodDigits text
    rw [strtodDigits, strtodDigits, takeWhile_number h hrest, takeWhile_number_self h]
  · intro text h
    obtain ⟨d, ds, rfl, -⟩ := h.head
    show ((d :: ds).takeWhile fun b => decide (IsNumberChar b)).length ≠ 0
    rw [takeWhile_number_self h]
    exact Nat.succ_ne_zero _
  · intro text rest h
    show ((text ++ rest).takeWhile fun b => decide (IsNumberChar b)).length = 0
    simp only [List.mem_cons, List.not_mem_nil, or_false] at h
    rcases h with rfl | rfl | rfl | rfl <;> rfl

/-- The members of a command about the stale limit. -/
def stale5000 (cmd : Bytes) : List (Bytes × Tree) :=
  [(ascii "cmd", .string cmd), (ascii "key", .string (ascii "stale-ms")),
    (ascii "value", .number (ascii "5000"))]

theorem jsonText_stale5000 {cmd : Bytes} (hcmd : StringBody cmd) (hplain : (0x5C : UInt8) ∉ cmd) :
    JsonText (ascii "\x7b\"cmd\":\"" ++
        (cmd ++ ascii "\",\"key\":\"stale-ms\",\"value\":5000\x7d"))
      (.object (stale5000 cmd)) ∧ ∀ m ∈ stale5000 cmd, Scalar m.2 := by
  have hname : StringBody (ascii "cmd") := .of_plain (by decide)
  have hkey : StringBody (ascii "key") := .of_plain (by decide)
  have hvalue : StringBody (ascii "value") := .of_plain (by decide)
  have hstale : StringBody (ascii "stale-ms") := .of_plain (by decide)
  have hzeros : ∀ x ∈ ([0x30, 0x30, 0x30] : Bytes), IsDigit x := by
    intro x hx
    have hx0 : x = 0x30 := by simpa using hx
    rw [hx0]
    decide
  have hnumber : IsNumber (ascii "5000") :=
    @IsNumber.number [] (ascii "5000") [] [] (.inl rfl)
      (.digits (by decide) (by decide) hzeros) .none .none
  refine ⟨⟨_, [], .none, .object rfl ?_, .none⟩, ?_⟩
  · refine .more (.compact hname rfl (.string ⟨hcmd, rfl⟩)) .none ?_
    refine .more (.compact hkey rfl (.string ⟨hstale, rfl⟩)) .none ?_
    exact .last (.compact hvalue rfl (.number hnumber rfl)) .none
  · unfold stale5000
    simp only [List.forall_mem_cons]
    have hstale : (0x5C : UInt8) ∉ ascii "stale-ms" := by decide
    exact ⟨hplain, hstale, trivial, fun _ h => absurd h List.not_mem_nil⟩

/-- A stale limit of five seconds is set; and where the command is the name of the last field, which
    is then misread, nothing is. -/
theorem applyCommand_reference_stale5000 :
    ∃ convert : Convert ℝ,
      (@applyCommand ℝ _ convert
        (ascii "\x7b\"cmd\":\"set\",\"key\":\"stale-ms\",\"value\":5000\x7d") wornConfig false).2 =
        @referenceConfig ℝ _ convert (stale5000 (ascii "set")) wornConfig ∧
      (@applyCommand ℝ _ convert
        (ascii "\x7b\"cmd\":\"value\",\"key\":\"stale-ms\",\"value\":5000\x7d") wornConfig false).2 =
        @referenceConfig ℝ _ convert (stale5000 (ascii "value")) wornConfig := by
  obtain ⟨htext, hscalar⟩ := @jsonText_stale5000 (ascii "set") (.of_plain (by decide)) (by decide)
  obtain ⟨htext', hscalar'⟩ := @jsonText_stale5000 (ascii "value") (.of_plain (by decide)) (by decide)
  exact ⟨convertDigits,
    @applyCommand_reference ℝ _ convertDigits readsNumbers_digits _ _ htext (.refl _) hscalar
      wornConfig,
    @applyCommand_reference ℝ _ convertDigits readsNumbers_digits _ _ htext' (.refl _) hscalar'
      wornConfig⟩

end OddsEngine
