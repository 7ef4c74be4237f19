/-
  File:      OddsEngine/Engine/ReplyJson.lean
  Subject:   When the reply to a command is JSON (`apply_command`, engine/main.cpp; the page's
             `JSON.parse`, engine/WsServer.hpp).

  * `isReply_nack_iff` -- a refusal copies the text it echoes between two quotes, unescaped: it is
    JSON exactly when that text may stand there. A text ending in a backslash would take the quote
    behind it in, but then no comma follows the string;
  * `Change.isReply`   -- the reply to a change applied is always JSON;
  * `isReply_applyCommand_iff` -- so the reply is JSON exactly when what a refusal would echo may
    stand between quotes.

  `jsonString` stops at the first quote, escaped or not, so the text of an escaped quote in a valid
  message is cut behind its backslash (`not_isReply_applyCommand`).
-/
import OddsEngine.Engine.CommandAtomic
import OddsEngine.Lib.Json
import Mathlib.Data.List.TakeWhile

namespace OddsEngine

open Lib Lib.Json

/-! ## 1. Numbers as text -/

theorem decimal_of_lt {n : Nat} (h : n < 10) : decimal n = [(0x30 + n).toUInt8] := by
  have hall : ∀ n < 10, decimal n = [(0x30 + n).toUInt8] := by decide
  exact hall n h

theorem decimal_of_ge {n : Nat} (h : 10 ≤ n) : decimal n = decimal (n / 10) ++ decimal (n % 10) := by
  have hrepr : (toString n).toList = (toString (n / 10)).toList ++ (toString (n % 10)).toList := by
    rw [Nat.toString_eq_repr, Nat.repr_eq_repr_append_repr h, String.toList_append]
    rfl
  unfold decimal ascii
  rw [hrepr, List.map_append]

theorem isDigit_digit {n : Nat} (h : n < 10) : IsDigit (0x30 + n).toUInt8 := by
  have hall : ∀ n < 10, IsDigit (0x30 + n).toUInt8 := by decide
  exact hall n h

/-- No leading zero. -/
theorem decimal_of_pos {n : Nat} (h : 0 < n) :
    ∃ d ds, decimal n = d :: ds ∧ IsDigit d ∧ d ≠ 0x30 ∧ ∀ x ∈ ds, IsDigit x := by
  induction n using Nat.strong_induction_on with
  | _ n ih =>
    by_cases hn : n < 10
    · have hlead : ∀ n < 10, 0 < n → (0x30 + n).toUInt8 ≠ 0x30 := by decide
      exact ⟨_, [], decimal_of_lt hn, isDigit_digit hn, hlead n hn h,
        fun _ hx => absurd hx List.not_mem_nil⟩
    · obtain ⟨d, ds, hdecimal, hd, hlead, hds⟩ := ih (n / 10) (by omega) (by omega)
      have hmod : n % 10 < 10 := Nat.mod_lt n (by omega)
      refine ⟨d, ds ++ [(0x30 + n % 10).toUInt8], ?_, hd, hlead, fun x hx => ?_⟩
      · rw [decimal_of_ge (by omega), hdecimal, decimal_of_lt hmod]
        rfl
      · rcases List.mem_append.mp hx with hx | hx
        · exact hds x hx
        · rw [List.mem_singleton.mp hx]
          exact isDigit_digit hmod

theorem isInt_decimal (n : Nat) : IsInt (decimal n) := by
  rcases Nat.eq_zero_or_pos n with rfl | hn
  · exact .zero
  · obtain ⟨d, ds, hdecimal, hd, hlead, hds⟩ := decimal_of_pos hn
    rw [hdecimal]
    exact .digits hd hlead hds

theorem length_decimal_le {n k : Nat} (hk : 0 < k) (h : n < 10 ^ k) : (decimal n).length ≤ k := by
  unfold decimal ascii
  rw [List.length_map, String.length_toList]
  exact (Nat.length_repr_le_iff hk).mpr h

theorem lowDigits_length (n k : Nat) : (lowDigits n k).length = n := by
  induction n generalizing k with
  | zero => rfl
  | succ n ih =>
    rw [lowDigits, List.length_append, ih]
    rfl

theorem isDigit_lowDigits {n k : Nat} {x : UInt8} (h : x ∈ lowDigits n k) : IsDigit x := by
  induction n generalizing k with
  | zero => exact absurd h List.not_mem_nil
  | succ n ih =>
    rcases List.mem_append.mp h with h | h
    · exact ih h
    · rw [List.mem_singleton.mp h]
      exact isDigit_digit (Nat.mod_lt k (by omega))

theorem roundEven_le {x : ℝ} {m : ℕ} (hx : 0 ≤ x) (h : x ≤ m) : roundEven x ≤ m := by
  have hfloor : ⌊x⌋₊ ≤ m := Nat.floor_le_of_le h
  unfold roundEven
  split
  · exact hfloor
  · next hup =>
    rcases Nat.lt_or_eq_of_le hfloor with hlt | heq
    · exact hlt
    · -- `x` is `m` itself, and is not rounded up
      have hle : (⌊x⌋₊ : ℝ) ≤ x := Nat.floor_le hx
      rw [heq] at hup hle
      exact absurd (.inl (by linarith)) hup

/-- `%.nf` prints what lies in (0, 1] with one digit before the point and `n` behind it. -/
class PrintsUnit (F : Type) [DoubleArith F] [Convert F] : Prop where
  fixed_unit : ∀ (n : Nat) (v : F), Libm.isfinite v = true → 0 < v → ¬ 1 < v →
    ∃ d ds, Convert.fixed (n + 1) v = d :: 0x2E :: ds ∧ IsDigit d ∧ ds.length = n + 1 ∧
      ∀ x ∈ ds, IsDigit x

instance : PrintsUnit ℝ where
  fixed_unit n v _ hpos hle := by
    have hv : v ≤ 1 := not_lt.mp hle
    have hten : (0 : ℝ) < 10 ^ (n + 1) := by positivity
    let q := roundEven (|v| * 10 ^ (n + 1))
    have hq : q ≤ 10 ^ (n + 1) := by
      refine roundEven_le (by positivity) ?_
      rw [abs_of_pos hpos]
      push_cast
      nlinarith
    have hlead : q / 10 ^ (n + 1) < 10 := by
      have hscale : 0 < 10 ^ (n + 1) := by positivity
      rw [Nat.div_lt_iff_lt_mul hscale]
      omega
    refine ⟨_, lowDigits (n + 1) (q % 10 ^ (n + 1)), ?_, isDigit_digit hlead, lowDigits_length _ _,
      fun x hx => isDigit_lowDigits hx⟩
    have hpoint : n + 1 ≠ 0 := Nat.succ_ne_zero n
    show fixedText (n + 1) v = _
    unfold fixedText
    dsimp only
    rw [if_neg (not_lt.mpr hpos.le), if_neg hpoint, decimal_of_lt hlead]
    rfl

/-! ## 3. The replies -/

/-- A JSON object with a boolean member `ok`. -/
def IsReply (reply : Bytes) : Prop :=
  ∃ ms b, JsonText reply (.object ms) ∧ (ascii "ok", .bool b) ∈ ms

theorem nack_eq (key why : Bytes) :
    nack key why = 0x7B :: 0x22 :: (ascii "ok" ++ 0x22 :: 0x3A :: (boolText false ++
      0x2C :: 0x22 :: (ascii "key" ++ 0x22 :: 0x3A :: 0x22 :: (key ++
      0x22 :: 0x2C :: 0x22 :: (ascii "error" ++ 0x22 :: 0x3A :: 0x22 :: (why ++ [0x22, 0x7D])))))) := by
  simp only [nack, List.append_assoc]
  rfl

theorem ack_eq (key value : Bytes) :
    ack key value = 0x7B :: 0x22 :: (ascii "ok" ++ 0x22 :: 0x3A :: (boolText true ++
      0x2C :: 0x22 :: (ascii "key" ++ 0x22 :: 0x3A :: 0x22 :: (key ++
      0x22 :: 0x2C :: 0x22 :: (ascii "value" ++ 0x22 :: 0x3A :: (value ++ [0x7D])))))) := by
  simp only [ack, List.append_assoc]
  rfl

/-- Three members, the first of them `ok`. -/
theorem isReply_of_members {b : Bool} {name third reply s t rest : Bytes} {v : Tree}
    (hname : StringBody name) (hthird : StringBody third) (hvalue : Value t v [0x7D])
    (hrest : rest = 0x22 :: (ascii "key" ++ 0x22 :: 0x3A :: 0x22 :: (name ++ 0x22 :: 0x2C :: s)))
    (hs : s = 0x22 :: (third ++ 0x22 :: 0x3A :: t))
    (hreply : reply = 0x7B :: 0x22 :: (ascii "ok" ++ 0x22 :: 0x3A :: (boolText b ++ 0x2C :: rest))) :
    IsReply reply := by
  have hok : StringBody (ascii "ok") := .of_plain (by decide)
  have hkey : StringBody (ascii "key") := .of_plain (by decide)
  refine ⟨[(ascii "ok", .bool b), (ascii "key", .string name), (third, v)], b, ⟨_, [], .none, ?_, .none⟩,
    List.mem_cons_self⟩
  refine .object hreply (.more (.compact hok rfl (.bool rfl)) .none ?_)
  refine .more (.compact hkey hrest (.string ⟨hname, rfl⟩)) .none ?_
  exact .last (.compact hthird hs hvalue) .none

theorem stringBody_of_mem_reasons {why : Bytes} (h : why ∈ reasons) : StringBody why := by
  have hall : ∀ why ∈ reasons, why.all (fun b => decide (IsPlain b)) = true := by decide
  exact .of_plain (hall why h)

theorem isReply_nack {echo why : Bytes} (hecho : StringBody echo) (hwhy : why ∈ reasons) :
    IsReply (nack echo why) := by
  have herror : StringBody (ascii "error") := .of_plain (by decide)
  have hstr : Str (0x22 :: (why ++ [0x22, 0x7D])) why [0x7D] :=
    ⟨stringBody_of_mem_reasons hwhy, rfl⟩
  exact isReply_of_members hecho herror (.string hstr) rfl rfl (nack_eq echo why)

/-- A refusal that parses at all echoes a text that may stand between quotes. -/
theorem stringBody_of_nack {echo why : Bytes} {v : Tree} (h : JsonText (nack echo why) v)
    (hecho : 0x22 ∉ echo) : StringBody echo := by
  obtain ⟨s, rest, hws, hvalue, -⟩ := h
  rw [nack_eq] at hws
  have hs := hws.eq_of_not_ws (by decide)
  subst hs
  rcases hvalue.of_brace with hclose | ⟨ms, hms⟩
  · exact absurd (List.cons.inj (hclose.eq_of_not_ws (by decide))).1 (by decide)
  -- the first member is `"ok":false`, and a comma follows it
  obtain ⟨m, t, hok, hend⟩ := hms.first
  have hfalse := (hok.of_compact (by decide) (by decide) (by decide)).of_f
  have ht := @List.append_cancel_left _ (boolText false) _ _ hfalse
  subst ht
  rcases hend with hclose | ⟨u, ms', hcomma, hms'⟩
  · exact absurd (List.cons.inj (hclose.eq_of_not_ws (by decide))).1 (by decide)
  have hu := (List.cons.inj (hcomma.eq_of_not_ws (by decide))).2
  subst hu
  -- the second is `"key":` and a string that starts with the echo
  obtain ⟨m', t', hkey, hend'⟩ := hms'.first
  obtain ⟨body, hstr⟩ := (hkey.of_compact (by decide) (by decide) (by decide)).of_quote
  have heq := (List.cons.inj hstr.eq).2
  rcases hstr.wellFormed.split hecho heq.symm with ⟨hbody, -⟩ | ⟨e, body', -, hbody', ht'⟩
  · subst hbody
    exact hstr.wellFormed
  · -- or with its backslash and the quote behind it: then it ends at the next quote, before `error`
    rcases @StringBody.split body' t' [0x2C] _ hbody' (by decide) ht'.symm with
      ⟨-, hafter⟩ | ⟨e, _, he, -, -⟩
    · subst hafter
      rcases hend' with hclose | ⟨_, _, hcomma', -⟩
      · exact absurd (List.cons.inj (hclose.eq_of_not_ws (by decide))).1 (by decide)
      · exact absurd (List.cons.inj (hcomma'.eq_of_not_ws (by decide))).1 (by decide)
    · have hlast := congrArg List.getLast? he
      rw [List.getLast?_concat] at hlast
      exact absurd hlast (by decide)

/-- **A refusal is JSON** exactly when the text it echoes may stand between quotes. -/
theorem isReply_nack_iff {echo why : Bytes} (hecho : 0x22 ∉ echo) (hwhy : why ∈ reasons) :
    IsReply (nack echo why) ↔ StringBody echo := by
  constructor
  · rintro ⟨ms, b, hjson, -⟩
    exact stringBody_of_nack hjson hecho
  · intro hbody
    exact isReply_nack hbody hwhy

theorem isReply_ack {key value : Bytes} {v : Tree} (hkey : StringBody key)
    (hvalue : Value (value ++ [0x7D]) v [0x7D]) : IsReply (ack key value) := by
  have hname : StringBody (ascii "value") := .of_plain (by decide)
  exact isReply_of_members hkey hname hvalue rfl rfl (ack_eq key value)

/-- A number is a value, whatever follows it. -/
theorem value_of_isNumber {text rest : Bytes} (h : IsNumber text) :
    Value (text ++ rest) (.number text) rest :=
  .number h rfl

theorem isNumber_decimal (n : Nat) : IsNumber (decimal n) := by
  have hnumber := IsNumber.number (.inl rfl) (isInt_decimal n) .none .none
  rwa [List.nil_append, List.append_nil, List.append_nil] at hnumber

theorem isNumber_unit {d : UInt8} {ds : Bytes} {n : Nat} (hd : IsDigit d) (hlen : ds.length = n + 1)
    (hds : ∀ x ∈ ds, IsDigit x) : IsNumber (d :: 0x2E :: ds) := by
  have hint : IsInt [d] := by
    by_cases hzero : d = 0x30
    · subst hzero
      exact .zero
    · exact .digits hd hzero fun _ hx => absurd hx List.not_mem_nil
  cases ds with
  | nil => cases hlen
  | cons x ds =>
    have hnumber := IsNumber.number (.inl rfl) hint (.point hds) .none
    rwa [List.nil_append, List.append_nil] at hnumber

/-! ## 4. When the reply is JSON -/

theorem quote_not_mem_jsonString {s name v : Bytes} (h : Ws.jsonString s name = some v) :
    0x22 ∉ v := by
  unfold Ws.jsonString at h
  cases hstart : Ws.fieldStart s name with
  | none =>
    rw [hstart] at h
    cases h
  | some start =>
    rw [hstart] at h
    cases start with
    | nil => cases h
    | cons c rest =>
      dsimp only [Option.bind_eq_bind, Option.bind_some] at h
      split at h
      · cases h
      · split at h
        · injection h with h
          subst h
          intro hmem
          exact absurd (List.mem_takeWhile_imp hmem) (by decide)
        · cases h

theorem quote_not_mem_echoed (msg : Bytes) : 0x22 ∉ echoed msg := by
  unfold echoed
  cases hcmd : Ws.jsonString msg (ascii "cmd") with
  | none => exact List.not_mem_nil
  | some cmd =>
    dsimp only
    split
    · exact quote_not_mem_jsonString hcmd
    · cases hkey : Ws.jsonString msg (ascii "key") with
      | none => exact List.not_mem_nil
      | some key => exact quote_not_mem_jsonString hkey

variable {F : Type} [DoubleArith F] [Convert F]

omit [DoubleArith F] [Convert F] in
/-- What a message sets `devig` to is the name of a method. -/
theorem stringBody_of_parseDevig {v : Bytes} {m : DevigMethod} (h : parseDevig v = some m) :
    StringBody v := by
  unfold parseDevig at h
  split at h
  · next hv =>
    subst hv
    exact .of_plain (by decide)
  · split at h
    · next hv =>
      subst hv
      exact .of_plain (by decide)
    · split at h
      · next hv =>
        subst hv
        exact .of_plain (by decide)
      · cases h

theorem snprintf_ack {key value : Bytes} (hkey : key.length ≤ 14) (hvalue : value.length ≤ 20) :
    snprintf 128 (ack key value) = ack key value := by
  refine List.take_of_length_le ?_
  rw [ack_eq]
  simp only [List.length_cons, List.length_append, List.length_nil]
  have hnames : (ascii "ok").length = 2 ∧ (ascii "key").length = 3 ∧ (ascii "value").length = 5 ∧
      (boolText true).length = 4 := by decide
  omega

/-- A change of a fraction is answered with its text to four places. -/
theorem isReply_fixed [PrintsUnit F] {key : Bytes} {v : F} (hkey : StringBody key)
    (hlen : key.length ≤ 14) (hfinite : Libm.isfinite v = true) (hmin : 0 < v) (hmax : ¬ 1 < v) :
    IsReply (snprintf 128 (ack key (Convert.fixed 4 v))) := by
  obtain ⟨d, ds, hfixed, hd, hds, hdigits⟩ := PrintsUnit.fixed_unit 3 v hfinite hmin hmax
  have hvalue : (Convert.fixed 4 v : Bytes).length ≤ 20 := by
    rw [hfixed, List.length_cons, List.length_cons, hds]
    omega
  rw [snprintf_ack hlen hvalue, hfixed]
  exact isReply_ack hkey (value_of_isNumber (isNumber_unit hd hds hdigits))

/-- The reply to a change applied is JSON, and so would be a refusal that names its key. -/
theorem Change.isReply [PrintsUnit F] {msg key reply : Bytes} {cfg cfg' : LiveConfig F}
    (h : Change msg cfg key reply cfg') : IsReply reply ∧ StringBody key := by
  cases h with
  | @devig v m hvalue hmethod =>
    have hkey : StringBody (ascii "devig") := .of_plain (by decide)
    have hstr : Str ([Ws.quote] ++ v ++ [Ws.quote] ++ [0x7D]) v [0x7D] := by
      refine ⟨stringBody_of_parseDevig hmethod, ?_⟩
      simp only [List.append_assoc]
      rfl
    exact ⟨isReply_ack hkey (.string hstr), hkey⟩
  | @staleMs v hvalue hfinite hmin hmax =>
    have hkey : StringBody (ascii "stale-ms") := .of_plain (by decide)
    have hlen : (decimal (Convert.toUInt64 v).toNat).length ≤ 20 := by
      refine length_decimal_le (by omega) ?_
      have hlt := UInt64.toNat_lt (Convert.toUInt64 v)
      omega
    rw [snprintf_ack (by decide) hlen]
    exact ⟨isReply_ack hkey (value_of_isNumber (isNumber_decimal _)), hkey⟩
  | kellyFraction hvalue hfinite hmin hmax =>
    have hkey : StringBody (ascii "kelly-fraction") := .of_plain (by decide)
    exact ⟨isReply_fixed hkey (by decide) hfinite hmin hmax, hkey⟩
  | maxExposure hvalue hfinite hmin hmax =>
    have hkey : StringBody (ascii "max-exposure") := .of_plain (by decide)
    exact ⟨isReply_fixed hkey (by decide) hfinite hmin hmax, hkey⟩

theorem Answer.isReply_iff [PrintsUnit F] {msg reply : Bytes} {cfg cfg' : LiveConfig F}
    {hashMode : Bool} (h : Answer msg cfg hashMode reply cfg') :
    IsReply reply ↔ StringBody (echoed msg) := by
  cases h with
  | refused hwhy => exact isReply_nack_iff (quote_not_mem_echoed msg) hwhy
  | applied hmode hcmd hkey h =>
    rw [echoed_of_key hcmd hkey]
    exact iff_of_true h.isReply.1 h.isReply.2

/-- **A reply is JSON exactly when what a refusal would echo may stand between quotes.** For every
    message, under every configuration, in and out of hash mode. -/
theorem isReply_applyCommand_iff [PrintsUnit F] (msg : Bytes) (cfg : LiveConfig F)
    (hashMode : Bool) :
    IsReply (applyCommand msg cfg hashMode).1 ↔ StringBody (echoed msg) :=
  (applyCommand_answer msg cfg hashMode).isReply_iff

/-- A method is set, and the reply is JSON. -/
theorem isReply_applyCommand_power :
    IsReply (applyCommand (ascii "\x7b\"cmd\":\"set\",\"key\":\"devig\",\"value\":\"power\"\x7d")
      wornConfig false).1 := by
  have hecho : echoed (ascii "\x7b\"cmd\":\"set\",\"key\":\"devig\",\"value\":\"power\"\x7d") =
      ascii "devig" := by decide
  refine (isReply_applyCommand_iff _ _ _).mpr ?_
  rw [hecho]
  exact .of_plain (by decide)

theorem not_stringBody_slash : ¬ StringBody [0x5C] := by
  intro h
  generalize heq : ([0x5C] : Bytes) = s at h
  cases h with
  | nil => cases heq
  | cons hchar hbody =>
    cases hchar with
    | plain h => exact absurd (List.cons.inj heq).1.symm h.2.2.2
    | escape | unicode | two | three | four => cases (List.cons.inj heq).2

/-- Not every reply is JSON: the command `"x`, escaped as JSON wants it, is echoed as a backslash. -/
theorem not_isReply_applyCommand :
    ¬ ∀ (msg : Bytes) (cfg : LiveConfig ℝ) (hashMode : Bool),
      IsReply (applyCommand msg cfg hashMode).1 := by
  intro h
  let msg := ascii "\x7b\"cmd\":\"\\\"x\"\x7d"
  have hcmd : Ws.jsonString msg (ascii "cmd") = some [0x5C] := by decide
  have hreply : (applyCommand msg wornConfig false).1 = nack [0x5C] (ascii "unknown command") := by
    unfold applyCommand
    rw [hcmd]
    dsimp only
    rw [if_pos (by decide)]
  have hmsg := h msg wornConfig false
  rw [hreply] at hmsg
  exact not_stringBody_slash ((isReply_nack_iff (by decide) (by decide)).mp hmsg)

end OddsEngine
