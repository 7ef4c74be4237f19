/-
  File:      OddsEngine/Lib/Json.lean
  Subject:   The JSON grammar, over the bytes of a text in UTF-8.

  `Value bs v rest`: the text `bs` starts with the value `v`, and `rest` is what follows it. Strings
  and numbers are kept as they are written. `JsonText bs v`: the whole text is the value `v`.

  Where a value starts tells of which kind it is (`Value.startsWith`), and a string with no quote of
  its own ends at the first one, unless a backslash stands before that (`Str.split`).
-/
import Mathlib.Data.List.Basic

namespace Lib.Json

/-! ## 1. Characters and strings -/

def IsTail (b : UInt8) : Prop := 0x80 ≤ b ∧ b ≤ 0xBF

def IsDigit (b : UInt8) : Prop := 0x30 ≤ b ∧ b ≤ 0x39

def IsHex (b : UInt8) : Prop := IsDigit b ∨ (0x41 ≤ b ∧ b ≤ 0x46) ∨ (0x61 ≤ b ∧ b ≤ 0x66)

instance : DecidablePred IsTail := fun _ => inferInstanceAs (Decidable (_ ∧ _))

instance : DecidablePred IsDigit := fun _ => inferInstanceAs (Decidable (_ ∧ _))

instance : DecidablePred IsHex := fun _ => inferInstanceAs (Decidable (_ ∨ _))

/-- What may follow a backslash: `"` `\` `/` `b` `f` `n` `r` `t`. -/
def escapes : List UInt8 := [0x22, 0x5C, 0x2F, 0x62, 0x66, 0x6E, 0x72, 0x74]

/-- A character that stands for itself and is written in one byte. -/
def IsPlain (b : UInt8) : Prop := 0x20 ≤ b ∧ b < 0x80 ∧ b ≠ 0x22 ∧ b ≠ 0x5C

instance : DecidablePred IsPlain := fun _ => inferInstanceAs (Decidable (_ ∧ _))

/-- One character of a string, as it is written between the quotes. The last three are the UTF-8
    sequences of more than one byte: no overlong form, no surrogate, nothing above U+10FFFF. -/
inductive IsChar : List UInt8 → Prop where
  | plain {b : UInt8} (h : IsPlain b) : IsChar [b]
  | escape {b : UInt8} (h : b ∈ escapes) : IsChar [0x5C, b]
  | unicode {a b c d : UInt8} (ha : IsHex a) (hb : IsHex b) (hc : IsHex c) (hd : IsHex d) :
      IsChar [0x5C, 0x75, a, b, c, d]
  | two {a b : UInt8} (ha : 0xC2 ≤ a ∧ a ≤ 0xDF) (hb : IsTail b) : IsChar [a, b]
  | three {a b c : UInt8}
      (hab : a = 0xE0 ∧ 0xA0 ≤ b ∨ 0xE1 ≤ a ∧ a ≤ 0xEF ∧ a ≠ 0xED ∨ a = 0xED ∧ b ≤ 0x9F)
      (hb : IsTail b) (hc : IsTail c) : IsChar [a, b, c]
  | four {a b c d : UInt8}
      (hab : a = 0xF0 ∧ 0x90 ≤ b ∨ 0xF1 ≤ a ∧ a ≤ 0xF3 ∨ a = 0xF4 ∧ b ≤ 0x8F)
      (hb : IsTail b) (hc : IsTail c) (hd : IsTail d) : IsChar [a, b, c, d]

/-- What may stand between the quotes of a string. -/
inductive StringBody : List UInt8 → Prop where
  | nil : StringBody []
  | cons {c body : List UInt8} (hchar : IsChar c) (hbody : StringBody body) : StringBody (c ++ body)

/-- `bs` starts with the string whose body is `body`. -/
structure Str (bs body rest : List UInt8) : Prop where
  wellFormed : StringBody body
  eq : bs = 0x22 :: (body ++ 0x22 :: rest)

/-! ## 2. Values -/

/-- A value, its strings and numbers as they are written. -/
inductive Tree where
  | null
  | bool (b : Bool)
  | number (text : List UInt8)
  | string (body : List UInt8)
  | array (elements : List Tree)
  | object (members : List (List UInt8 × Tree))

def IsWs (b : UInt8) : Prop := b = 0x20 ∨ b = 0x09 ∨ b = 0x0A ∨ b = 0x0D

instance : DecidablePred IsWs := fun _ => inferInstanceAs (Decidable (_ ∨ _))

/-- `bs` is whitespace, possibly none, and then `rest`. -/
inductive Skips : (bs rest : List UInt8) → Prop where
  | none {bs : List UInt8} : Skips bs bs
  | cons {c : UInt8} {bs rest : List UInt8} (hc : IsWs c) (h : Skips bs rest) : Skips (c :: bs) rest

inductive IsInt : List UInt8 → Prop where
  | zero : IsInt [0x30]
  | digits {d : UInt8} {ds : List UInt8} (hd : IsDigit d) (hzero : d ≠ 0x30)
      (hds : ∀ x ∈ ds, IsDigit x) : IsInt (d :: ds)

inductive IsFraction : List UInt8 → Prop where
  | none : IsFraction []
  | point {d : UInt8} {ds : List UInt8} (hds : ∀ x ∈ d :: ds, IsDigit x) :
      IsFraction (0x2E :: d :: ds)

inductive IsExponent : List UInt8 → Prop where
  | none : IsExponent []
  | exponent {e d : UInt8} {sign ds : List UInt8} (he : e = 0x65 ∨ e = 0x45)
      (hsign : sign = [] ∨ sign = [0x2B] ∨ sign = [0x2D]) (hds : ∀ x ∈ d :: ds, IsDigit x) :
      IsExponent (e :: (sign ++ d :: ds))

inductive IsNumber : List UInt8 → Prop where
  | number {minus int frac exp : List UInt8} (hminus : minus = [] ∨ minus = [0x2D])
      (hint : IsInt int) (hfrac : IsFraction frac) (hexp : IsExponent exp) :
      IsNumber (minus ++ int ++ frac ++ exp)

def nullText : List UInt8 := [0x6E, 0x75, 0x6C, 0x6C]

def boolText : Bool → List UInt8
  | true => [0x74, 0x72, 0x75, 0x65]
  | false => [0x66, 0x61, 0x6C, 0x73, 0x65]

mutual

inductive Value : (bs : List UInt8) → Tree → (rest : List UInt8) → Prop where
  | null {bs rest : List UInt8} (h : bs = nullText ++ rest) : Value bs .null rest
  | bool {bs rest : List UInt8} {b : Bool} (h : bs = boolText b ++ rest) : Value bs (.bool b) rest
  | number {bs text rest : List UInt8} (h : IsNumber text) (heq : bs = text ++ rest) :
      Value bs (.number text) rest
  | string {bs body rest : List UInt8} (h : Str bs body rest) : Value bs (.string body) rest
  | emptyArray {bs s rest : List UInt8} (hopen : bs = 0x5B :: s) (hclose : Skips s (0x5D :: rest)) :
      Value bs (.array []) rest
  | array {bs s rest : List UInt8} {vs : List Tree} (hopen : bs = 0x5B :: s)
      (h : Elements s vs rest) : Value bs (.array vs) rest
  | emptyObject {bs s rest : List UInt8} (hopen : bs = 0x7B :: s)
      (hclose : Skips s (0x7D :: rest)) : Value bs (.object []) rest
  | object {bs s rest : List UInt8} {ms : List (List UInt8 × Tree)} (hopen : bs = 0x7B :: s)
      (h : Members s ms rest) : Value bs (.object ms) rest

/-- Elements, with commas between them, as far as the closing bracket. -/
inductive Elements : (bs : List UInt8) → List Tree → (rest : List UInt8) → Prop where
  | last {bs s t rest : List UInt8} {v : Tree} (hws : Skips bs s) (h : Value s v t)
      (hclose : Skips t (0x5D :: rest)) : Elements bs [v] rest
  | more {bs s t u rest : List UInt8} {v : Tree} {vs : List Tree} (hws : Skips bs s)
      (h : Value s v t) (hcomma : Skips t (0x2C :: u)) (hmore : Elements u vs rest) :
      Elements bs (v :: vs) rest

/-- A name, a colon and a value. -/
inductive Member : (bs : List UInt8) → List UInt8 × Tree → (rest : List UInt8) → Prop where
  | member {bs s t u w rest name : List UInt8} {v : Tree} (hws : Skips bs s)
      (hname : Str s name t) (hcolon : Skips t (0x3A :: u)) (hgap : Skips u w)
      (h : Value w v rest) : Member bs (name, v) rest

/-- Members, with commas between them, as far as the closing brace. -/
inductive Members : (bs : List UInt8) → List (List UInt8 × Tree) → (rest : List UInt8) → Prop where
  | last {bs t rest : List UInt8} {m : List UInt8 × Tree} (h : Member bs m t)
      (hclose : Skips t (0x7D :: rest)) : Members bs [m] rest
  | more {bs t u rest : List UInt8} {m : List UInt8 × Tree} {ms : List (List UInt8 × Tree)}
      (h : Member bs m t) (hcomma : Skips t (0x2C :: u)) (hmore : Members u ms rest) :
      Members bs (m :: ms) rest

end

/-- The text is one value, with whitespace around it. -/
def JsonText (bs : List UInt8) (v : Tree) : Prop :=
  ∃ s t, Skips bs s ∧ Value s v t ∧ Skips t []

/-! ## 3. Whitespace -/

/-- Where the next byte is no whitespace, nothing is skipped. -/
theorem Skips.eq_of_not_ws {c : UInt8} {bs rest : List UInt8} (h : Skips (c :: bs) rest)
    (hc : ¬ IsWs c) : rest = c :: bs := by
  cases h with
  | none => rfl
  | cons hws _ => exact absurd hws hc

theorem Skips.split {bs rest : List UInt8} (h : Skips bs rest) :
    ∃ w, bs = w ++ rest ∧ ∀ c ∈ w, IsWs c := by
  induction h with
  | none => exact ⟨[], rfl, fun _ hc => absurd hc List.not_mem_nil⟩
  | @cons c bs rest hc h ih =>
    obtain ⟨w, rfl, hw⟩ := ih
    exact ⟨c :: w, rfl, List.forall_mem_cons.mpr ⟨hc, hw⟩⟩

/-! ## 4. Strings -/

/-- No character has a quote in it but the escaped one. -/
theorem IsChar.eq_of_quote_mem {c : List UInt8} (h : IsChar c) (hquote : 0x22 ∈ c) :
    c = [0x5C, 0x22] := by
  have hhex : ∀ {b : UInt8}, IsHex b → (0x22 : UInt8) ≠ b := by
    rintro b hb rfl
    exact absurd hb (by decide)
  have htail : ∀ {b : UInt8}, IsTail b → (0x22 : UInt8) ≠ b := by
    rintro b hb rfl
    exact absurd hb (by decide)
  cases h with
  | plain h => exact absurd (List.mem_singleton.mp hquote).symm h.2.2.1
  | escape h =>
    rcases List.mem_cons.mp hquote with h' | h'
    · exact absurd h' (by decide)
    · rw [← List.mem_singleton.mp h']
  | unicode ha hb hc hd =>
    simp only [List.mem_cons, List.not_mem_nil, or_false, hhex ha, hhex hb, hhex hc, hhex hd] at hquote
    exact absurd hquote (by decide)
  | two ha hb =>
    simp only [List.mem_cons, List.not_mem_nil, or_false, htail hb] at hquote
    subst hquote
    exact absurd ha (by decide)
  | three hab hb hc =>
    simp only [List.mem_cons, List.not_mem_nil, or_false, htail hb, htail hc] at hquote
    subst hquote
    revert hab
    simp
  | four hab hb hc hd =>
    simp only [List.mem_cons, List.not_mem_nil, or_false, htail hb, htail hc, htail hd] at hquote
    subst hquote
    revert hab
    simp

/-- A string without a backslash has no quote in it. -/
theorem StringBody.quote_notMem {body : List UInt8} (h : StringBody body) (hslash : 0x5C ∉ body) :
    0x22 ∉ body := by
  induction h with
  | nil => exact List.not_mem_nil
  | @cons c body hchar _ ih =>
    intro hquote
    rcases List.mem_append.mp hquote with hc | hrest
    · rw [hchar.eq_of_quote_mem hc] at hslash
      exact hslash List.mem_cons_self
    · exact ih (fun h => hslash (List.mem_append_right _ h)) hrest

/-- Bytes that all stand for themselves, as a test that computes. -/
theorem StringBody.of_plain {s : List UInt8} (h : s.all (fun b => decide (IsPlain b)) = true) :
    StringBody s := by
  induction s with
  | nil => exact .nil
  | cons b s ih =>
    rw [List.all_cons, Bool.and_eq_true] at h
    have hb := of_decide_eq_true h.1
    exact .cons (.plain hb) (ih h.2)

/-- A string whose first quote is followed by `t`: it ends there, or a backslash is before that
    quote, and it goes on in `t`. -/
theorem StringBody.split {body rest echo t : List UInt8} (h : StringBody body)
    (hecho : 0x22 ∉ echo) (heq : body ++ 0x22 :: rest = echo ++ 0x22 :: t) :
    (body = echo ∧ rest = t) ∨
      ∃ e body', echo = e ++ [0x5C] ∧ StringBody body' ∧ t = body' ++ 0x22 :: rest := by
  induction h generalizing echo with
  | nil =>
    cases echo with
    | nil =>
      injection heq with _ hrest
      exact .inl ⟨rfl, hrest⟩
    | cons b echo =>
      injection heq with hb _
      subst hb
      exact absurd List.mem_cons_self hecho
  | @cons c body hchar hbody ih =>
    rw [List.append_assoc] at heq
    by_cases hquote : 0x22 ∈ c
    · -- an escaped quote: the backslash is the last byte before the first quote
      have hc := hchar.eq_of_quote_mem hquote
      subst hc
      rcases echo with _ | ⟨b, _ | ⟨b', echo⟩⟩
      · injection heq with hb _
        exact absurd hb (by decide)
      · injection heq with hb heq
        injection heq with _ ht
        subst hb
        exact .inr ⟨[], body, rfl, hbody, ht.symm⟩
      · injection heq with _ heq
        injection heq with hb' _
        subst hb'
        exact absurd (List.mem_cons_of_mem _ List.mem_cons_self) hecho
    · -- a character without a quote: it stands before the first one
      rcases List.append_eq_append_iff.mp heq with ⟨e, he, heq'⟩ | ⟨e, hc, heq'⟩
      · subst he
        have he : 0x22 ∉ e := fun hmem => hecho (List.mem_append_right _ hmem)
        rcases ih he heq' with ⟨hbody', hrest⟩ | ⟨e', body', he', hbody', ht⟩
        · subst hbody'
          exact .inl ⟨rfl, hrest⟩
        · subst he'
          exact .inr ⟨c ++ e', body', (List.append_assoc ..).symm, hbody', ht⟩
      · cases e with
        | nil =>
          rw [List.append_nil] at hc
          subst hc
          rcases ih List.not_mem_nil heq'.symm with ⟨hbody', hrest⟩ | ⟨e', _, he', _, _⟩
          · subst hbody'
            exact .inl ⟨List.append_nil _, hrest⟩
          · exact absurd he'.symm (by simp)
        | cons b e =>
          injection heq' with hb _
          subst hb
          subst hc
          exact absurd (List.mem_append_right _ List.mem_cons_self) hquote

/-- Where the text before the first quote does not end in a backslash, the string ends there. -/
theorem Str.eq_of_not_slash {echo t body rest : List UInt8}
    (h : Str (0x22 :: (echo ++ 0x22 :: t)) body rest) (hecho : 0x22 ∉ echo)
    (hslash : echo.getLast? ≠ some 0x5C) : body = echo ∧ rest = t := by
  have heq := List.cons.inj h.eq
  rcases h.wellFormed.split hecho heq.2.symm with hsplit | ⟨e, _, he, _, _⟩
  · exact hsplit
  · subst he
    exact absurd List.getLast?_concat hslash

/-! ## 5. Where a value starts -/

/-- The first byte of a value of this kind. -/
def StartsWith (b : UInt8) : Tree → Prop
  | .null => b = 0x6E
  | .bool true => b = 0x74
  | .bool false => b = 0x66
  | .number _ => b = 0x2D ∨ IsDigit b
  | .string _ => b = 0x22
  | .array _ => b = 0x5B
  | .object _ => b = 0x7B

theorem IsInt.head {text : List UInt8} (h : IsInt text) : ∃ d ds, text = d :: ds ∧ IsDigit d := by
  cases h with
  | zero => exact ⟨_, _, rfl, by decide⟩
  | digits hd _ _ => exact ⟨_, _, rfl, hd⟩

theorem IsNumber.head {text : List UInt8} (h : IsNumber text) :
    ∃ d ds, text = d :: ds ∧ (d = 0x2D ∨ IsDigit d) := by
  cases h with
  | number hminus hint _ _ =>
    obtain ⟨d, ds, rfl, hd⟩ := hint.head
    rcases hminus with rfl | rfl
    · exact ⟨d, _, rfl, .inr hd⟩
    · exact ⟨0x2D, _, rfl, .inl rfl⟩

/-- The bytes of numbers. -/
def IsNumberChar (b : UInt8) : Prop := IsDigit b ∨ b ∈ ([0x2B, 0x2D, 0x2E, 0x45, 0x65] : List UInt8)

instance : DecidablePred IsNumberChar := fun _ => inferInstanceAs (Decidable (_ ∨ _))

theorem IsInt.char {text : List UInt8} (h : IsInt text) : ∀ b ∈ text, IsDigit b := by
  cases h with
  | zero =>
    intro b hb
    rw [List.mem_singleton.mp hb]
    decide
  | digits hd _ hds => exact List.forall_mem_cons.mpr ⟨hd, hds⟩

theorem IsNumber.char {text : List UInt8} (h : IsNumber text) : ∀ b ∈ text, IsNumberChar b := by
  cases h with
  | number hminus hint hfrac hexp =>
    intro b hb
    rcases List.mem_append.mp hb with hb | hb
    · rcases List.mem_append.mp hb with hb | hb
      · rcases List.mem_append.mp hb with hb | hb
        · rcases hminus with rfl | rfl
          · exact absurd hb List.not_mem_nil
          · exact .inr (by rw [List.mem_singleton.mp hb]; decide)
        · exact .inl (hint.char b hb)
      · cases hfrac with
        | none => exact absurd hb List.not_mem_nil
        | point hds =>
          rcases List.mem_cons.mp hb with rfl | hb
          · exact .inr (by decide)
          · exact .inl (hds b hb)
    · cases hexp with
      | none => exact absurd hb List.not_mem_nil
      | exponent he hsign hds =>
        rcases List.mem_cons.mp hb with rfl | hb
        · rcases he with rfl | rfl
          · exact .inr (by decide)
          · exact .inr (by decide)
        · rcases List.mem_append.mp hb with hb | hb
          · rcases hsign with rfl | rfl | rfl
            · exact absurd hb List.not_mem_nil
            · exact .inr (by rw [List.mem_singleton.mp hb]; decide)
            · exact .inr (by rw [List.mem_singleton.mp hb]; decide)
          · exact .inl (hds b hb)

theorem Value.startsWith {b : UInt8} {s rest : List UInt8} {v : Tree} (h : Value (b :: s) v rest) :
    StartsWith b v := by
  cases h with
  | null h => exact (List.cons.inj h).1
  | @bool _ _ b' h =>
    cases b' with
    | true => exact (List.cons.inj h).1
    | false => exact (List.cons.inj h).1
  | number h heq =>
    obtain ⟨d, ds, rfl, hd⟩ := h.head
    rw [(List.cons.inj heq).1]
    exact hd
  | string h => exact (List.cons.inj h.eq).1
  | emptyArray hopen _ => exact (List.cons.inj hopen).1
  | array hopen _ => exact (List.cons.inj hopen).1
  | emptyObject hopen _ => exact (List.cons.inj hopen).1
  | object hopen _ => exact (List.cons.inj hopen).1

theorem Value.of_quote {s rest : List UInt8} {v : Tree} (h : Value (0x22 :: s) v rest) :
    ∃ body, Str (0x22 :: s) body rest := by
  have hstart := h.startsWith
  cases v with
  | string body =>
    cases h with
    | string h => exact ⟨body, h⟩
  | bool b => cases b <;> simp [StartsWith] at hstart
  | null | number | array | object => simp [StartsWith, IsDigit] at hstart

/-- The only value that starts with an `f`. -/
theorem Value.of_f {s rest : List UInt8} {v : Tree} (h : Value (0x66 :: s) v rest) :
    0x66 :: s = boolText false ++ rest := by
  have hstart := h.startsWith
  cases v with
  | bool b =>
    cases b with
    | true => simp [StartsWith] at hstart
    | false =>
      cases h with
      | bool h => exact h
  | null | number | string | array | object => simp [StartsWith, IsDigit] at hstart

theorem Value.of_brace {s rest : List UInt8} {v : Tree} (h : Value (0x7B :: s) v rest) :
    Skips s (0x7D :: rest) ∨ ∃ ms, Members s ms rest := by
  have hstart := h.startsWith
  cases v with
  | object ms =>
    cases h with
    | emptyObject hopen hclose =>
      rw [(List.cons.inj hopen).2]
      exact .inl hclose
    | object hopen h =>
      rw [(List.cons.inj hopen).2]
      exact .inr ⟨ms, h⟩
  | bool b => cases b <;> simp [StartsWith] at hstart
  | null | number | string | array => simp [StartsWith, IsDigit] at hstart

/-! ## 6. Members -/

/-- The first member, and what follows it. -/
theorem Members.first {bs rest : List UInt8} {ms : List (List UInt8 × Tree)}
    (h : Members bs ms rest) :
    ∃ m t, Member bs m t ∧
      (Skips t (0x7D :: rest) ∨ ∃ u ms', Skips t (0x2C :: u) ∧ Members u ms' rest) := by
  cases h with
  | last h hclose => exact ⟨_, _, h, .inl hclose⟩
  | more h hcomma hmore => exact ⟨_, _, h, .inr ⟨_, _, hcomma, hmore⟩⟩

/-- A member written without whitespace, under a name that has no quote and no final backslash. -/
theorem Member.of_compact {name t rest : List UInt8} {c : UInt8} {m : List UInt8 × Tree}
    (h : Member (0x22 :: (name ++ 0x22 :: 0x3A :: c :: t)) m rest) (hname : 0x22 ∉ name)
    (hslash : name.getLast? ≠ some 0x5C) (hc : ¬ IsWs c) : Value (c :: t) m.2 rest := by
  cases h with
  | member hws hstr hcolon hgap hvalue =>
    have hs := hws.eq_of_not_ws (by decide)
    subst hs
    obtain ⟨_, ht⟩ := hstr.eq_of_not_slash hname hslash
    subst ht
    have hu := (List.cons.inj (hcolon.eq_of_not_ws (by decide))).2
    subst hu
    have hw := hgap.eq_of_not_ws hc
    subst hw
    exact hvalue

/-- A member written without whitespace. -/
theorem Member.compact {bs name t rest : List UInt8} {v : Tree} (hname : StringBody name)
    (heq : bs = 0x22 :: (name ++ 0x22 :: 0x3A :: t)) (h : Value t v rest) :
    Member bs (name, v) rest :=
  .member .none ⟨hname, heq⟩ .none .none h

end Lib.Json
