import PicoDrone.Model.TlsClient

/-!
# The CO2 setpoint in the replies of the server

`extract_co2_setpoint` finds the closed quoted string behind the first key of a reply
(`extract_of_isCommand`, `extract_of_none`) and hands it to `atoi`, which makes a number of any
string. So the setpoint follows the commands exactly as long as no other string begins with a
number that is new and not negative, where one without a number counts as zero
(`setpoint_follows_iff`).
-/

set_option autoImplicit false

namespace PicoDrone.Analysis

open PicoDrone.Library PicoDrone.Model

/-! ## Commands -/

/-- The closed quoted string behind the first key of a reply, with no NUL before the key. -/
def IsCommand (payload command : List Byte) : Prop :=
  ∃ before after, payload = before ++ (commandKey ++ (command ++ quote :: after)) ∧
    0#8 ∉ before ∧ quote ∉ command ∧ ∀ i < before.length, ¬ commandKey <+: payload.drop i

/-- The string is in full a decimal integer that is not negative and that `int` holds. -/
def IsSetpoint (command : List Byte) : Prop :=
  command ≠ [] ∧ (∀ b ∈ command, isDigit b = true) ∧ FitsInt (decimalValue command)

/-- A reply with a setpoint in its command sets it, and every other reply leaves it. -/
def Follows (payload : List Byte) (old new : ℤ) : Prop :=
  (∀ command, IsCommand payload command → IsSetpoint command → new = decimalValue command) ∧
    ((∀ command, IsCommand payload command → ¬ IsSetpoint command) → new = old)

theorem commandKey_nul : 0#8 ∉ commandKey := by decide

theorem IsCommand.unique {payload command command' : List Byte} (h : IsCommand payload command)
    (h' : IsCommand payload command') : command = command' := by
  obtain ⟨before, after, hpayload, -, hquote, hfirst⟩ := h
  obtain ⟨before', after', hpayload', -, hquote', hfirst'⟩ := h'
  have hle : before.length ≤ before'.length := by
    by_contra hlt
    apply hfirst before'.length (by omega)
    rw [hpayload', List.drop_left]
    exact List.prefix_append _ _
  have hge : before'.length ≤ before.length := by
    by_contra hlt
    apply hfirst' before.length (by omega)
    rw [hpayload, List.drop_left]
    exact List.prefix_append _ _
  have hrest := (List.append_inj (hpayload.symm.trans hpayload') (by omega)).2
  have hstring : command ++ quote :: after = command' ++ quote :: after' :=
    List.append_cancel_left hrest
  have hlen : some command.length = some command'.length :=
    (memchr_eq_some_iff.mpr ⟨command, after, rfl, hquote, rfl⟩).symm.trans
      (memchr_eq_some_iff.mpr ⟨command', after', hstring, hquote', rfl⟩)
  exact (List.append_inj hstring (Option.some.inj hlen)).1

/-! ## The extraction -/

/-- INTERNAL: once the first key is found, the first quote behind it decides.
SOURCE: ipstack/tls_common.c:38-48 -/
theorem extract_of_key (overflow : ℤ → ℤ) {payload before rest : List Byte}
    (hpayload : payload = before ++ (commandKey ++ rest)) (hnul : 0#8 ∉ before)
    (hfirst : ∀ i < before.length, ¬ commandKey <+: payload.drop i) :
    extractCo2Setpoint overflow (payload ++ [0#8]) payload.length =
      match memchr quote rest with
      | some cmdEnd => atoi overflow ((rest ++ [0#8]).set cmdEnd 0#8)
      | none => -1 := by
  have hfound : strstr commandKey (payload.takeWhile (· ≠ 0#8)) =
      some (commandKey ++ rest.takeWhile (· ≠ 0#8)) :=
    (strstr_text_iff commandKey_nul).mpr ⟨before, rest, hpayload, hnul, hfirst, rfl⟩
  have hstart : (payload.takeWhile (· ≠ 0#8)).length -
      (commandKey ++ rest.takeWhile (· ≠ 0#8)).length + commandKey.length =
        (before ++ commandKey).length := by
    rw [hpayload, takeWhile_ne_append hnul, takeWhile_ne_append commandKey_nul,
      List.length_append, Nat.add_sub_cancel, List.length_append]
  have hdrop : ∀ tail : List Byte,
      (before ++ (commandKey ++ tail)).drop (before ++ commandKey).length = tail := by
    intro tail
    rw [← List.append_assoc, List.drop_left]
  have hslice : ((payload ++ [0#8]).drop (before ++ commandKey).length).take
      (payload.length - (before ++ commandKey).length) = rest := by
    have hlen : payload.length - (before ++ commandKey).length = rest.length := by
      rw [hpayload, ← List.append_assoc, List.length_append, Nat.add_sub_cancel_left]
    rw [hlen, hpayload, List.append_assoc, List.append_assoc, hdrop, List.take_left]
  simp only [extractCo2Setpoint]
  rw [text_terminated, hfound]
  simp only []
  rw [hstart, hslice]
  cases memchr quote rest with
  | none => rfl
  | some cmdEnd =>
    simp only []
    rw [hpayload, List.append_assoc, List.append_assoc, ← List.append_assoc before,
      List.set_append_right _ _ (by omega), Nat.add_sub_cancel_left, List.drop_left]

/-- INTERNAL: the integer of a command is that of the string up to the quote.
SOURCE: ipstack/tls_common.c:35-49 -/
theorem extract_of_isCommand (overflow : ℤ → ℤ) {payload command : List Byte}
    (h : IsCommand payload command) :
    extractCo2Setpoint overflow (payload ++ [0#8]) payload.length = atoi overflow command := by
  obtain ⟨before, after, hpayload, hnul, hquote, hfirst⟩ := h
  rw [extract_of_key overflow hpayload hnul hfirst,
    memchr_eq_some_iff.mpr ⟨command, after, rfl, hquote, rfl⟩]
  simp only []
  rw [List.append_assoc, List.set_append_right _ _ le_rfl, Nat.sub_self, List.cons_append,
    List.set_cons_zero, atoi, scanInt_append_stop (by decide), ← atoi]

/-- INTERNAL: without a command there is no setpoint.
SOURCE: ipstack/tls_common.c:35-49 -/
theorem extract_of_none (overflow : ℤ → ℤ) {payload : List Byte}
    (h : ∀ command, ¬ IsCommand payload command) :
    extractCo2Setpoint overflow (payload ++ [0#8]) payload.length = -1 := by
  cases hfound : strstr commandKey (payload.takeWhile (· ≠ 0#8)) with
  | none =>
    simp only [extractCo2Setpoint]
    rw [text_terminated, hfound]
  | some found =>
    obtain ⟨before, rest, hpayload, hnul, hfirst, -⟩ :=
      (strstr_text_iff commandKey_nul).mp hfound
    rw [extract_of_key overflow hpayload hnul hfirst]
    cases hend : memchr quote rest with
    | none => rfl
    | some cmdEnd =>
      obtain ⟨command, after, hrest, hquote, -⟩ := memchr_eq_some_iff.mp hend
      exact absurd ⟨before, after, by rw [hpayload, hrest], hnul, hquote, hfirst⟩ (h command)

/-! ## The setpoint -/

/-- The integer that a string begins with, and zero where it begins with none. -/
def leadingInt (command : List Byte) : ℤ := (scanInt command).getD 0

theorem atoi_eq (overflow : ℤ → ℤ) (command : List Byte) :
    atoi overflow command = toInt overflow (leadingInt command) := by
  unfold atoi leadingInt
  cases scanInt command with
  | none => rfl
  | some v => rfl

theorem leadingInt_of_isSetpoint {command : List Byte} (h : IsSetpoint command) :
    leadingInt command = decimalValue command := by
  rw [leadingInt, scanInt_digits h.1 h.2.1, Option.getD_some]

/-- INTERNAL: the setpoint after a reply.
SOURCE: ipstack/tls_common.c:103-136 -/
theorem recv_setpoint (overflow : ℤ → ℤ) (closeErr : Err) (payload : List Byte) (s : TlsClient) :
    (s.recv overflow closeErr (some payload)).2.co2SetPoint =
      if 0 ≤ extractCo2Setpoint overflow (payload ++ [0#8]) payload.length then
        extractCo2Setpoint overflow (payload ++ [0#8]) payload.length
      else s.co2SetPoint := by
  cases payload with
  | nil => rfl
  | cons b payload =>
    simp only [TlsClient.recv, TlsClient.print]
    rw [if_pos (by simp)]
    simp only [apply_ite TlsClient.co2SetPoint]

/-- INTERNAL: an integer leaves the setpoint, whatever the library makes of it, if it is one of
`int` and negative or the setpoint itself. -/
theorem keeps_iff {v old : ℤ} :
    (∀ overflow, (if 0 ≤ toInt overflow v then toInt overflow v else old) = old) ↔
      FitsInt v ∧ (v < 0 ∨ v = old) := by
  constructor
  · intro h
    by_cases hfits : FitsInt v
    · have hnow := h id
      rw [toInt_of_fits id hfits] at hnow
      refine ⟨hfits, ?_⟩
      split at hnow
      · exact Or.inr hnow
      · exact Or.inl (by omega)
    · -- the library may make anything of it
      have hnow := h fun _ => (old.natAbs : ℤ) + 1
      rw [toInt, if_neg hfits, if_pos (by omega)] at hnow
      omega
  · rintro ⟨hfits, hold⟩ overflow
    rw [toInt_of_fits overflow hfits]
    split <;> omega

/-- CONTRACT: whatever `atoi` makes of integers outside of `int`, the setpoint follows the
commands exactly if the string of the command is a setpoint, or begins with an integer of `int`
that is negative or the setpoint already, where no integer counts as zero.
SOURCE: ipstack/tls_common.c:35-49 103-136 -/
theorem setpoint_follows_iff (closeErr : Err) (payload : List Byte) (s : TlsClient) :
    (∀ overflow, Follows payload s.co2SetPoint
      (s.recv overflow closeErr (some payload)).2.co2SetPoint) ↔
      ∀ command, IsCommand payload command → IsSetpoint command ∨
        FitsInt (leadingInt command) ∧
          (leadingInt command < 0 ∨ leadingInt command = s.co2SetPoint) := by
  simp only [recv_setpoint]
  by_cases hcommand : ∃ command, IsCommand payload command
  · obtain ⟨command, hcommand⟩ := hcommand
    simp only [extract_of_isCommand _ hcommand, atoi_eq]
    constructor
    · intro h command' hcommand'
      obtain rfl := hcommand.unique hcommand'
      by_cases hset : IsSetpoint command
      · exact Or.inl hset
      · exact Or.inr (keeps_iff.mp fun overflow =>
          (h overflow).2 fun other hother => hcommand.unique hother ▸ hset)
    · intro h overflow
      obtain hset | hold := h command hcommand
      · have hlead := leadingInt_of_isSetpoint hset
        rw [hlead, toInt_of_fits overflow hset.2.2, if_pos (by omega)]
        refine ⟨fun other hother _ => ?_, fun hnone => absurd hset (hnone command hcommand)⟩
        rw [hcommand.unique hother]
      · rw [keeps_iff.mpr hold overflow]
        refine ⟨fun other hother hset => ?_, fun _ => rfl⟩
        obtain rfl := hcommand.unique hother
        have hlead := leadingInt_of_isSetpoint hset
        omega
  · rw [not_exists] at hcommand
    constructor
    · intro _ command h
      exact absurd h (hcommand command)
    · intro _ overflow
      rw [extract_of_none overflow hcommand, if_neg (by decide)]
      exact ⟨fun command h => absurd h (hcommand command), fun _ => rfl⟩

/-- A command of three letters resets a setpoint of 800. -/
theorem letters_reset_setpoint :
    ¬ ∀ (overflow : ℤ → ℤ) (closeErr : Err) (payload : List Byte) (s : TlsClient),
      Follows payload s.co2SetPoint (s.recv overflow closeErr (some payload)).2.co2SetPoint := by
  intro h
  have hcommand : IsCommand (ascii "\x7b\"command_string\":\"off\"\x7d") (ascii "off") :=
    ⟨ascii "\x7b", ascii "\x7d", by decide, by decide, by decide, by decide⟩
  have hold := (h id errOk (ascii "\x7b\"command_string\":\"off\"\x7d") ⟨800, false, true, 0, []⟩).2
    fun command hother hset => by
      rw [hother.unique hcommand] at hset
      exact absurd (hset.2.1 0x6F#8 (by decide)) (by decide)
  rw [recv_setpoint, extract_of_isCommand id hcommand] at hold
  exact absurd hold (by decide)

end PicoDrone.Analysis
