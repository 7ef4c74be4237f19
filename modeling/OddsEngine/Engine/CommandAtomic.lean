/-
  File:      OddsEngine/Engine/CommandAtomic.lean
  Subject:   A command changes one field, or nothing (`apply_command`, engine/main.cpp).

  * `applyCommand_answer` -- the spec lemma: a command is refused, with a reason of the program's
    own, and leaves the configuration alone; or it is applied, and sets the one field its key names
    to a value in range. Everything else about commands is read off it;
  * `applyCommand_atomic` -- the same, told from the reply alone, and over any sequence of commands.

  `changes` is a 64-bit counter. It grows by one with every change applied, and from 2^64 - 1 to 0
  (`not_changes_succ`).
-/
import OddsEngine.Engine.Command

namespace OddsEngine

open Lib

/-! ## 1. The answer to a command -/

/-- What a refusal names: the command where it is not `set`, else the key, else nothing. -/
def echoed (msg : Bytes) : Bytes :=
  match Ws.jsonString msg (ascii "cmd") with
  | none => []
  | some cmd => if cmd ≠ ascii "set" then cmd else (Ws.jsonString msg (ascii "key")).getD []

/-- The reasons for a refusal. -/
def reasons : List Bytes :=
  [ascii "malformed command", ascii "unknown command", ascii "missing key",
   ascii "configuration is locked in --hash mode", ascii "value must be a string",
   ascii "expected multiplicative, power, or shin", ascii "value must be a number",
   ascii "value must be finite", ascii "expected 1 to 3600000", ascii "expected 0 < value <= 1",
   ascii "immutable mid-run: belongs to the feed, not the engine", ascii "unknown key"]

variable {F : Type} [DoubleArith F] [Convert F]

/-- A change of the field `key` to the value the message states, where that is in range, and the
    reply to it. -/
inductive Change (msg : Bytes) (cfg : LiveConfig F) : (key reply : Bytes) → LiveConfig F → Prop where
  | devig {v : Bytes} {m : DevigMethod} (hvalue : Ws.jsonString msg (ascii "value") = some v)
      (hmethod : parseDevig v = some m) :
      Change msg cfg (ascii "devig") (ack (ascii "devig") ([Ws.quote] ++ v ++ [Ws.quote]))
        { cfg with devigMethod := m, changes := cfg.changes + 1 }
  | staleMs {v : F} (hvalue : Ws.jsonNumber msg (ascii "value") = some v)
      (hfinite : Libm.isfinite v = true) (hmin : ¬ v < 1) (hmax : ¬ 3600000 < v) :
      Change msg cfg (ascii "stale-ms")
        (snprintf 128 (ack (ascii "stale-ms") (decimal (Convert.toUInt64 v).toNat)))
        { cfg with staleMs := Convert.toUInt64 v, changes := cfg.changes + 1 }
  | kellyFraction {v : F} (hvalue : Ws.jsonNumber msg (ascii "value") = some v)
      (hfinite : Libm.isfinite v = true) (hmin : 0 < v) (hmax : ¬ 1 < v) :
      Change msg cfg (ascii "kelly-fraction")
        (snprintf 128 (ack (ascii "kelly-fraction") (Convert.fixed 4 v)))
        { cfg with kellyFraction := v, changes := cfg.changes + 1 }
  | maxExposure {v : F} (hvalue : Ws.jsonNumber msg (ascii "value") = some v)
      (hfinite : Libm.isfinite v = true) (hmin : 0 < v) (hmax : ¬ 1 < v) :
      Change msg cfg (ascii "max-exposure")
        (snprintf 128 (ack (ascii "max-exposure") (Convert.fixed 4 v)))
        { cfg with maxExposure := v, changes := cfg.changes + 1 }

/-- The reply to a command, and the configuration after it. -/
inductive Answer (msg : Bytes) (cfg : LiveConfig F) (hashMode : Bool) :
    Bytes → LiveConfig F → Prop where
  | refused {why : Bytes} (hwhy : why ∈ reasons) : Answer msg cfg hashMode (nack (echoed msg) why) cfg
  | applied {key reply : Bytes} {cfg' : LiveConfig F} (hmode : hashMode = false)
      (hcmd : Ws.jsonString msg (ascii "cmd") = some (ascii "set"))
      (hkey : Ws.jsonString msg (ascii "key") = some key) (h : Change msg cfg key reply cfg') :
      Answer msg cfg hashMode reply cfg'

omit [DoubleArith F] [Convert F] in
theorem echoed_of_key {msg key : Bytes} (hcmd : Ws.jsonString msg (ascii "cmd") = some (ascii "set"))
    (hkey : Ws.jsonString msg (ascii "key") = some key) : echoed msg = key := by
  unfold echoed
  rw [hcmd, hkey]
  rfl

theorem Answer.refused_as {msg echo why : Bytes} {cfg : LiveConfig F} {hashMode : Bool}
    (hecho : echoed msg = echo) (hwhy : why ∈ reasons) :
    Answer msg cfg hashMode (nack echo why) cfg := by
  subst hecho
  exact .refused hwhy

/-- `devig` takes the name of a method. -/
theorem answer_devig {msg : Bytes} (cfg : LiveConfig F)
    (hcmd : Ws.jsonString msg (ascii "cmd") = some (ascii "set"))
    (hkey : Ws.jsonString msg (ascii "key") = some (ascii "devig")) :
    Answer msg cfg false (applyCommand msg cfg false).1 (applyCommand msg cfg false).2 := by
  have hecho := echoed_of_key hcmd hkey
  rw [applyCommand, hcmd]
  dsimp only
  rw [if_neg (fun h => h rfl), hkey]
  dsimp only
  rw [if_neg Bool.false_ne_true, if_pos rfl]
  cases hvalue : Ws.jsonString msg (ascii "value") with
  | none => exact .refused_as hecho (by decide)
  | some v =>
    dsimp only
    cases hmethod : parseDevig v with
    | none => exact .refused_as hecho (by decide)
    | some m => exact .applied rfl hcmd hkey (.devig hvalue hmethod)

/-- Every other key takes a finite number in its range, or no value at all. -/
theorem answer_number {msg key : Bytes} (cfg : LiveConfig F)
    (hcmd : Ws.jsonString msg (ascii "cmd") = some (ascii "set"))
    (hkey : Ws.jsonString msg (ascii "key") = some key) (hdevig : key ≠ ascii "devig") :
    Answer msg cfg false (applyCommand msg cfg false).1 (applyCommand msg cfg false).2 := by
  have hecho := echoed_of_key hcmd hkey
  rw [applyCommand, hcmd]
  dsimp only
  rw [if_neg (fun h => h rfl), hkey]
  dsimp only
  rw [if_neg Bool.false_ne_true, if_neg hdevig]
  cases hvalue : (Ws.jsonNumber msg (ascii "value") : Option F) with
  | none => exact .refused_as hecho (by decide)
  | some v =>
    dsimp only
    cases hfinite : Libm.isfinite v with
    | false => exact .refused_as hecho (by decide)
    | true =>
      rw [Bool.not_true, if_neg Bool.false_ne_true]
      split
      · next hstale =>
        subst hstale
        split
        · exact .refused_as hecho (by decide)
        · next hrange =>
          exact .applied rfl hcmd hkey (.staleMs hvalue hfinite
            (fun h => hrange (Or.inl h)) (fun h => hrange (Or.inr h)))
      · split
        · next hkelly =>
          subst hkelly
          split
          · exact .refused_as hecho (by decide)
          · next hrange =>
            exact .applied rfl hcmd hkey (.kellyFraction hvalue hfinite
              (not_not.mp fun h => hrange (Or.inl h)) (fun h => hrange (Or.inr h)))
        · split
          · next hexposure =>
            subst hexposure
            split
            · exact .refused_as hecho (by decide)
            · next hrange =>
              exact .applied rfl hcmd hkey (.maxExposure hvalue hfinite
                (not_not.mp fun h => hrange (Or.inl h)) (fun h => hrange (Or.inr h)))
          · split
            · exact .refused_as hecho (by decide)
            · exact .refused_as hecho (by decide)

/-- **The spec of `apply_command`.** -/
theorem applyCommand_answer (msg : Bytes) (cfg : LiveConfig F) (hashMode : Bool) :
    Answer msg cfg hashMode (applyCommand msg cfg hashMode).1 (applyCommand msg cfg hashMode).2 := by
  cases hcmd : Ws.jsonString msg (ascii "cmd") with
  | none =>
    have hecho : echoed msg = [] := by
      unfold echoed
      rw [hcmd]
    rw [applyCommand, hcmd]
    exact .refused_as hecho (by decide)
  | some cmd =>
    by_cases hset : cmd = ascii "set"
    · subst hset
      cases hkey : Ws.jsonString msg (ascii "key") with
      | none =>
        have hecho : echoed msg = [] := by
          unfold echoed
          rw [hcmd, hkey]
          rfl
        rw [applyCommand, hcmd]
        dsimp only
        rw [if_neg (fun h => h rfl), hkey]
        exact .refused_as hecho (by decide)
      | some key =>
        cases hashMode with
        | true =>
          rw [applyCommand, hcmd]
          dsimp only
          rw [if_neg (fun h => h rfl), hkey]
          exact .refused_as (echoed_of_key hcmd hkey) (by decide)
        | false =>
          by_cases hdevig : key = ascii "devig"
          · subst hdevig
            exact answer_devig cfg hcmd hkey
          · exact answer_number cfg hcmd hkey hdevig
    · have hecho : echoed msg = cmd := by
        unfold echoed
        rw [hcmd]
        exact if_pos hset
      rw [applyCommand, hcmd]
      dsimp only
      rw [if_pos hset]
      exact .refused_as hecho (by decide)

/-! ## 2. What the reply tells -/

/-- A reply with `"ok":true`. -/
def saysOk (reply : Bytes) : Bool := (ascii "\x7b\"ok\":true,").isPrefixOf reply

/-- A reply with `"ok":false`. -/
def saysNotOk (reply : Bytes) : Bool := (ascii "\x7b\"ok\":false,").isPrefixOf reply

theorem saysOk_nack (key why : Bytes) :
    saysOk (nack key why) = false ∧ saysNotOk (nack key why) = true := ⟨rfl, rfl⟩

theorem saysOk_ack (key value : Bytes) :
    saysOk (ack key value) = true ∧ saysNotOk (ack key value) = false := ⟨rfl, rfl⟩

/-- No key is so long that the buffer would cut its reply off before the value of `ok`. -/
theorem saysOk_snprintf_ack (key value : Bytes) :
    saysOk (snprintf 128 (ack key value)) = true ∧
      saysNotOk (snprintf 128 (ack key value)) = false := ⟨rfl, rfl⟩

theorem Change.saysOk {msg key reply : Bytes} {cfg cfg' : LiveConfig F}
    (h : Change msg cfg key reply cfg') : saysOk reply = true ∧ saysNotOk reply = false := by
  cases h with
  | devig => exact saysOk_ack _ _
  | staleMs => exact saysOk_snprintf_ack _ _
  | kellyFraction => exact saysOk_snprintf_ack _ _
  | maxExposure => exact saysOk_snprintf_ack _ _

theorem Change.changes {msg key reply : Bytes} {cfg cfg' : LiveConfig F}
    (h : Change msg cfg key reply cfg') : cfg'.changes = cfg.changes + 1 := by
  cases h with
  | devig => rfl
  | staleMs => rfl
  | kellyFraction => rfl
  | maxExposure => rfl

/-- A command is applied as a whole or not at all, and its reply says which. -/
structure Atomic (msg : Bytes) (cfg : LiveConfig F) (hashMode : Bool) (reply : Bytes)
    (cfg' : LiveConfig F) : Prop where
  told : saysNotOk reply = !saysOk reply
  refused : saysNotOk reply = true → cfg' = cfg
  applied : saysOk reply = true → hashMode = false ∧
    ∃ key, Ws.jsonString msg (ascii "key") = some key ∧ Change msg cfg key reply cfg'

theorem Answer.atomic {msg reply : Bytes} {cfg cfg' : LiveConfig F} {hashMode : Bool}
    (h : Answer msg cfg hashMode reply cfg') : Atomic msg cfg hashMode reply cfg' := by
  cases h with
  | refused hwhy =>
    obtain ⟨hok, hnot⟩ := saysOk_nack (echoed msg) _
    refine ⟨by rw [hok, hnot]; rfl, fun _ => rfl, fun hsays => ?_⟩
    rw [hok] at hsays
    cases hsays
  | applied hmode hcmd hkey h =>
    obtain ⟨hok, hnot⟩ := h.saysOk
    refine ⟨by rw [hok, hnot]; rfl, fun hsays => ?_, fun _ => ⟨hmode, _, hkey, h⟩⟩
    rw [hnot] at hsays
    cases hsays

/-! ## 3. Sequences of commands -/

/-- The replies to some commands, one after the other. -/
def replies (texts : List Bytes) (cfg : LiveConfig F) (hashMode : Bool) : List Bytes :=
  match texts with
  | [] => []
  | msg :: texts =>
    let r := applyCommand msg cfg hashMode
    r.1 :: replies texts r.2 hashMode

/-- How many of them were applied. -/
def okReplies (texts : List Bytes) (cfg : LiveConfig F) (hashMode : Bool) : Nat :=
  (replies texts cfg hashMode).countP saysOk

/-- One command moves `changes` by one where its reply says `ok`, and else not at all. -/
theorem changes_applyCommand (msg : Bytes) (cfg : LiveConfig F) (hashMode : Bool) :
    (applyCommand msg cfg hashMode).2.changes =
      cfg.changes + if saysOk (applyCommand msg cfg hashMode).1 then 1 else 0 := by
  have hatomic := (applyCommand_answer msg cfg hashMode).atomic
  cases hok : saysOk (applyCommand msg cfg hashMode).1 with
  | true =>
    obtain ⟨-, key, -, hchange⟩ := hatomic.applied hok
    rw [if_pos rfl, hchange.changes]
  | false =>
    have hnot := hatomic.told
    rw [hok] at hnot
    rw [hatomic.refused hnot, if_neg Bool.false_ne_true, UInt64.add_zero]

/-- Over any sequence of commands, `changes` counts the replies that say `ok`. -/
theorem changes_dispatchPending (texts : List Bytes) (cfg : LiveConfig F) (hashMode : Bool) :
    (dispatchPending texts cfg hashMode).changes =
      cfg.changes + UInt64.ofNat (okReplies texts cfg hashMode) := by
  induction texts generalizing cfg with
  | nil => exact (UInt64.add_zero _).symm
  | cons msg texts ih =>
    have hstep : dispatchPending (msg :: texts) cfg hashMode =
        dispatchPending texts (applyCommand msg cfg hashMode).2 hashMode := rfl
    have hcount : okReplies (msg :: texts) cfg hashMode =
        okReplies texts (applyCommand msg cfg hashMode).2 hashMode +
          if saysOk (applyCommand msg cfg hashMode).1 then 1 else 0 :=
      List.countP_cons
    have hone : (if saysOk (applyCommand msg cfg hashMode).1 then 1 else 0 : UInt64) =
        UInt64.ofNat (if saysOk (applyCommand msg cfg hashMode).1 then 1 else 0) := by
      split
      · rfl
      · rfl
    rw [hstep, ih, changes_applyCommand, hcount, hone, UInt64.ofNat_add, UInt64.add_assoc,
      UInt64.add_comm (UInt64.ofNat (okReplies _ _ _))]

/-- No command gets past the lock. -/
theorem dispatchPending_hashMode (texts : List Bytes) (cfg : LiveConfig F) :
    dispatchPending texts cfg true = cfg := by
  induction texts generalizing cfg with
  | nil => rfl
  | cons msg texts ih =>
    have hone : (applyCommand msg cfg true).2 = cfg := by
      have hatomic := (applyCommand_answer msg cfg true).atomic
      cases hok : saysOk (applyCommand msg cfg true).1 with
      | true => exact absurd (hatomic.applied hok).1 Bool.noConfusion
      | false =>
        have hnot := hatomic.told
        rw [hok] at hnot
        exact hatomic.refused hnot
    have hstep : dispatchPending (msg :: texts) cfg true =
        dispatchPending texts (applyCommand msg cfg true).2 true := rfl
    rw [hstep, hone, ih]

/-- **Commands are atomic.** Every message, under every configuration, in and out of hash mode, is
    applied as a whole or not at all, and its reply says which; over any sequence of messages
    `changes` moves, as a 64-bit counter, by the number of replies that say `ok`; and in hash mode
    no sequence of messages changes anything. -/
theorem applyCommand_atomic :
    (∀ (msg : Bytes) (cfg : LiveConfig F) (hashMode : Bool),
      Atomic msg cfg hashMode (applyCommand msg cfg hashMode).1 (applyCommand msg cfg hashMode).2 ∧
      (saysOk (applyCommand msg cfg hashMode).1 = true →
        (applyCommand msg cfg hashMode).2.changes = cfg.changes + 1)) ∧
    (∀ (texts : List Bytes) (cfg : LiveConfig F) (hashMode : Bool),
      (dispatchPending texts cfg hashMode).changes.toNat =
        (cfg.changes.toNat + okReplies texts cfg hashMode) % 2 ^ 64) ∧
    (∀ (texts : List Bytes) (cfg : LiveConfig F), dispatchPending texts cfg true = cfg) := by
  refine ⟨fun msg cfg hashMode => ⟨(applyCommand_answer msg cfg hashMode).atomic, fun hok => ?_⟩,
    fun texts cfg hashMode => ?_, dispatchPending_hashMode⟩
  · rw [changes_applyCommand, if_pos hok]
  · rw [changes_dispatchPending, UInt64.toNat_add, UInt64.toNat_ofNat', Nat.add_mod_mod]

/-- A configuration whose counter is at its largest value. -/
def wornConfig : LiveConfig ℝ :=
  { staleMs := 3000, kellyFraction := 0, maxExposure := 0, devigMethod := .power,
    changes := 18446744073709551615 }

/-- The counter wraps: a change applied takes it from 2^64 - 1 to 0. -/
theorem not_changes_succ :
    ¬ ∀ (msg : Bytes) (cfg : LiveConfig ℝ) (hashMode : Bool),
      saysOk (applyCommand msg cfg hashMode).1 = true →
      (applyCommand msg cfg hashMode).2.changes.toNat = cfg.changes.toNat + 1 := by
  intro h
  let msg := ascii "\x7b\"cmd\":\"set\",\"key\":\"devig\",\"value\":\"shin\"\x7d"
  have hcmd : Ws.jsonString msg (ascii "cmd") = some (ascii "set") := by decide
  have hkey : Ws.jsonString msg (ascii "key") = some (ascii "devig") := by decide
  have hvalue : Ws.jsonString msg (ascii "value") = some (ascii "shin") := by decide
  have hmethod : parseDevig (ascii "shin") = some .shin := by decide
  have happlied : applyCommand msg wornConfig false =
      (ack (ascii "devig") ([Ws.quote] ++ ascii "shin" ++ [Ws.quote]),
        { wornConfig with devigMethod := .shin, changes := wornConfig.changes + 1 }) := by
    unfold applyCommand
    rw [hcmd, hkey, hvalue]
    dsimp only
    rw [if_neg (fun h => h rfl), if_neg Bool.false_ne_true, if_pos rfl, hmethod]
  have hworn := h msg wornConfig false (by rw [happlied]; exact (saysOk_ack _ _).1)
  rw [happlied] at hworn
  exact absurd hworn (by decide)

end OddsEngine
