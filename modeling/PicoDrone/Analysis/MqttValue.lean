import PicoDrone.Model.MqttWifiManager

/-!
# The value in the messages of the broker

`messageArrivedCallback` takes the number behind the first `"pressure":`, or else the first
`"speed":`, and stores what `sscanf` leaves in a local variable (`messageArrived_value`). The
result of `sscanf` is not looked at, so the value is the one of the message, or the previous one,
exactly if the chosen key is missing or an integer of `int` follows it (`value_of_message_iff`).
-/

set_option autoImplicit false

namespace PicoDrone.Analysis

open PicoDrone.Library PicoDrone.Model

/-- What is behind the key that counts in a text: the first `"pressure":`, or the first `"speed":`
where there is none. -/
def chosenField (text : List Byte) : Option (List Byte) :=
  match strstr pressureKey text with
  | some found => some (found.drop pressureKey.length)
  | none => (strstr speedKey text).map fun found => found.drop speedKey.length

/-- The payload up to a NUL. -/
def payloadText (message : Message) : List Byte := message.payload.takeWhile (· ≠ 0#8)

/-- The value that a message asks for: the integer behind the key if `int` holds it, and otherwise
the previous value. -/
def requestedValue (message : Message) (old : ℤ) : ℤ :=
  match (chosenField (payloadText message)).bind scanInt with
  | some v => if FitsInt v then v else old
  | none => old

/-- INTERNAL: what is stored for a text.
SOURCE: MqttWifiManager.cpp:53-71 -/
theorem setValue_mqttValue (overflow : ℤ → ℤ) (junk : ℤ) (text : List Byte)
    (m : MqttWifiManager) :
    (m.setValue overflow junk text).mqttValue =
      match chosenField text with
      | some tail => sscanfInt overflow tail junk
      | none => m.mqttValue := by
  unfold MqttWifiManager.setValue chosenField
  cases strstr pressureKey text with
  | some found => rfl
  | none =>
    cases strstr speedKey text with
    | some found => rfl
    | none => rfl

/-- INTERNAL: what a message stores.
SOURCE: MqttWifiManager.cpp:29-74 -/
theorem messageArrived_value (overflow : ℤ → ℤ) (junk : ℤ) (message : Message)
    (m : MqttWifiManager) :
    (m.messageArrivedCallback overflow junk message).mqttValue =
      match chosenField (payloadText message) with
      | some tail => sscanfInt overflow tail junk
      | none => m.mqttValue := by
  simp only [MqttWifiManager.messageArrivedCallback, text_terminated, setValue_mqttValue,
    MqttWifiManager.setAutomatic_mqttValue, MqttWifiManager.print_mqttValue, payloadText]

/-- CONTRACT: whatever the local variable holds and whatever `sscanf` makes of integers outside of
`int`, the value after a message is the one it asks for exactly if it has no key, or an integer of
`int` follows the key that counts.
SOURCE: MqttWifiManager.cpp:29-74 -/
theorem value_of_message_iff (message : Message) (m : MqttWifiManager) :
    (∀ overflow junk, (m.messageArrivedCallback overflow junk message).mqttValue =
      requestedValue message m.mqttValue) ↔
      ∀ tail, chosenField (payloadText message) = some tail →
        ∃ v, scanInt tail = some v ∧ FitsInt v := by
  simp only [messageArrived_value]
  cases hfield : chosenField (payloadText message) with
  | none =>
    simp only [requestedValue, hfield, Option.bind_none]
    constructor
    · intro _ tail htail
      cases htail
    · intro _ _ _
      trivial
  | some tail =>
    simp only [requestedValue, hfield, Option.bind_some, sscanfInt]
    cases hscan : scanInt tail with
    | none =>
      constructor
      · intro h
        -- the local variable may hold anything
        have hnext := h id (m.mqttValue + 1)
        simp only [] at hnext
        omega
      · intro h
        obtain ⟨v, hv, -⟩ := h tail rfl
        rw [hscan] at hv
        cases hv
    | some v =>
      simp only []
      constructor
      · intro h other hother
        obtain rfl := Option.some.inj hother
        exact ⟨v, hscan, (fits_of_toInt fun overflow => h overflow 0).1⟩
      · intro h overflow junk
        obtain ⟨v', hv', hfits⟩ := h tail rfl
        obtain rfl := Option.some.inj (hscan.symm.trans hv')
        rw [toInt_of_fits overflow hfits, if_pos hfits]

/-- A pressure that is no number: the value is what the local variable holds. -/
theorem junk_reaches_value :
    ¬ ∀ (message : Message) (m : MqttWifiManager) (overflow : ℤ → ℤ) (junk : ℤ),
      (m.messageArrivedCallback overflow junk message).mqttValue =
        requestedValue message m.mqttValue := by
  intro h
  have hjunk := h ⟨0, 0, 0, 1, ascii "\x7b\"pressure\":high\x7d"⟩ MqttWifiManager.start id 37
  exact absurd hjunk (by decide)

end PicoDrone.Analysis
