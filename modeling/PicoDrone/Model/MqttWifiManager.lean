import PicoDrone.Library.CString
import PicoDrone.Library.Decimal
import PicoDrone.Model.Word

/-!
# Messages of the MQTT broker

`MqttWifiManager::messageArrivedCallback` and what it stores. It passes `sscanf` a local variable
that has no value yet: `junk` stands for what is in it, and `overflow` for what `sscanf` makes of
an integer that `int` cannot hold.
-/

set_option autoImplicit false

namespace PicoDrone.Model

open PicoDrone.Library

/-- `MQTT::Message`. -/
structure Message where
  qos : ℤ
  retained : ℤ
  dup : ℤ
  id : ℤ
  payload : List Byte
  deriving DecidableEq, Repr

/-- The static members of `MqttWifiManager`, and what has been printed. -/
structure MqttWifiManager where
  automatic : Bool
  notification : Bool
  mqttValue : ℤ
  printed : List (List Byte)
  deriving DecidableEq, Repr

/-- SOURCE: MqttWifiManager.cpp:54-55 -/
def pressureKey : List Byte := ascii "\"pressure\":"

def speedKey : List Byte := ascii "\"speed\":"

namespace MqttWifiManager

/-- The static members at boot.
SOURCE: MqttWifiManager.cpp:6-9 -/
def start : MqttWifiManager := ⟨false, false, 0, []⟩

def print (m : MqttWifiManager) (line : List Byte) : MqttWifiManager :=
  { m with printed := m.printed ++ [line] }

/-- `"true"` or `"false"` in the payload.
SOURCE: MqttWifiManager.cpp:42-51 -/
def setAutomatic (m : MqttWifiManager) (payloadStr : List Byte) : MqttWifiManager :=
  if (strstr (ascii "true") payloadStr).isSome then
    { m with automatic := true }.print (ascii "Automatic: true\n")
  else if (strstr (ascii "false") payloadStr).isSome then
    { m with automatic := false }.print (ascii "Automatic: false\n")
  else m.print (ascii "Payload does not contain 'true' or 'false'\n")

@[simp] theorem print_mqttValue (m : MqttWifiManager) (line : List Byte) :
    (m.print line).mqttValue = m.mqttValue := rfl

@[simp] theorem setAutomatic_mqttValue (m : MqttWifiManager) (payloadStr : List Byte) :
    (m.setAutomatic payloadStr).mqttValue = m.mqttValue := by
  unfold setAutomatic
  split
  · rfl
  · split <;> rfl

/-- The number behind the key of a field, scanned into a local variable that holds `junk`.
SOURCE: MqttWifiManager.cpp:60-63 65-68 -/
def setField (overflow : ℤ → ℤ) (junk : ℤ) (name : String) (tail : List Byte)
    (m : MqttWifiManager) : MqttWifiManager :=
  let value := sscanfInt overflow tail junk
  { m.print (ascii s!"{name}: {value}\n") with mqttValue := value }

/-- The pressure of the payload, or else the speed.
SOURCE: MqttWifiManager.cpp:53-71 -/
def setValue (overflow : ℤ → ℤ) (junk : ℤ) (payloadStr : List Byte) (m : MqttWifiManager) :
    MqttWifiManager :=
  match strstr pressureKey payloadStr, strstr speedKey payloadStr with
  | some pressurePos, _ => m.setField overflow junk "Pressure" (pressurePos.drop pressureKey.length)
  | none, some speedPos => m.setField overflow junk "Speed" (speedPos.drop speedKey.length)
  | none, none => m.print (ascii "Payload does not contain 'pressure' field\n")

/-- `messageArrivedCallback`.
SOURCE: MqttWifiManager.cpp:29-74 -/
def messageArrivedCallback (overflow : ℤ → ℤ) (junk : ℤ) (message : Message)
    (m : MqttWifiManager) : MqttWifiManager :=
  let payloadStr := (message.payload ++ [0#8]).takeWhile (· ≠ 0#8)
  let arrived := s!"Message arrived: qos {message.qos}, retained {message.retained}, " ++
    s!"dup {message.dup}, packetid {message.id}\n"
  let m := (m.print (ascii arrived)).print (ascii "Payload: " ++ payloadStr ++ ascii "\n")
  let m := (m.setAutomatic payloadStr).setValue overflow junk payloadStr
  { m with notification := true }

end MqttWifiManager

end PicoDrone.Model
