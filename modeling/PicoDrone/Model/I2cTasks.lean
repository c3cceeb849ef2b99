import PicoDrone.Library.GuardedCalls
import PicoDrone.Model.I2cClients

/-!
# Tasks that share the two clients

The methods of `EEPROM` and `RTC` cut into the steps that tasks may interleave: taking the
mutex of the object, each transaction on the bus, each `vTaskDelay`, giving the mutex. All
transfers succeed. What a device answers is arbitrary; it depends on its own state alone.
-/

set_option autoImplicit false

namespace PicoDrone.Model

open PicoDrone.Library

/-! ## The bus -/

/-- The devices of a bus: a transfer takes the bytes sent and the number of bytes wanted. -/
structure Devices (δ : Type) where
  transfer : Byte → List Byte → ℕ → δ → List Byte × δ
  transfer_length : ∀ addr sent length d, (transfer addr sent length d).1.length = length

/-- A transfer of a method: the address, the bytes to send, the number of bytes wanted. -/
structure Transfer where
  addr : Byte
  sent : List Byte
  length : ℕ

section Devices

variable {δ : Type} (D : Devices δ)

/-- A transfer changes the device it addresses.
SOURCE: i2c/PicoI2C.cpp:134-169 -/
def Devices.exec (i : Transfer) (s : Byte → δ) : List Byte × (Byte → δ) :=
  let r := D.transfer i.addr i.sent i.length (s i.addr)
  (r.1, Function.update s i.addr r.2)

/-- The bus as a port on which every transfer succeeds. -/
def Devices.port : I2cPort (Byte → δ) where
  transaction addr sent length s :=
    let r := D.exec ⟨addr, sent, length⟩ s
    ((sent.length + length, r.1), r.2)
  received_le addr sent length s := (D.transfer_length addr sent length (s addr)).le
  received_full addr sent length s _ := D.transfer_length addr sent length (s addr)

end Devices

/-! ## The methods -/

/-- A method with transfers as actions and the result of the call. -/
abbrev Method := Prog Transfer (List Byte) ClientResult

/-- The object whose mutex a method takes. -/
inductive Client where
  | eeprom
  | rtc
  deriving DecidableEq

/-- The bytes that `writeToMemory` sends, if it stays in its buffer.
SOURCE: eeprom/EEPROM.cpp:41-51 -/
def stagedWrite (buffer : Region 64 Byte) (memoryAddress : BitVec 16) (data : ℕ → Byte)
    (length : ℕ) : Option (List Byte) := do
  let crc := crc16 (bytesAt data length)
  let buffer ← buffer.store 0 (highByte memoryAddress)
  let buffer ← buffer.store 1 (lowByte memoryAddress)
  let buffer ← buffer.copyIn 2 (bytesAt data length)
  let buffer ← buffer.store (u32 (length + 2)) (highByte crc)
  let buffer ← buffer.store (u32 (length + 3)) (lowByte crc)
  buffer.copyOut 0 (u32 (length + 4))

/-- What `readFromMemory` makes of the received bytes, if it stays in its buffer.
SOURCE: eeprom/EEPROM.cpp:78-87 -/
def stagedRead (buffer : Region 64 Byte) (data : ℕ → Byte) (length : ℕ)
    (received : List Byte) : Option (ℕ → Byte) := do
  let buffer ← buffer.copyIn 0 received
  let high ← buffer.load length
  let low ← buffer.load (u32 (length + 1))
  let calculated ← buffer.copyOut 0 length
  if high.setWidth 16 <<< 8 ||| low.setWidth 16 ≠ crc16 calculated then
    some (copyTo data (List.replicate length 0#8))
  else do
    let valid ← buffer.copyOut 0 length
    some (copyTo data valid)

/-- What `get_time` makes of the received bytes.
SOURCE: RTC/RTC.cpp:73-78 -/
def stagedTime (buffer : Region 7 Byte) (received : List Byte) : Option ClockTime := do
  let buffer ← buffer.copyIn 0 received
  let seconds ← buffer.load 0
  let minutes ← buffer.load 1
  let hours ← buffer.load 2
  let day ← buffer.load 4
  let month ← buffer.load 5
  let year ← buffer.load 6
  some
    { seconds := bcdToDec (seconds &&& 0x7F#8)
      minutes := bcdToDec minutes
      hours := bcdToDec hours
      day := bcdToDec (day &&& 0x3F#8)
      month := bcdToDec (month &&& 0x1F#8)
      year := bcdToDec year }

/-- A result, or no behaviour. -/
def finish (result : Option ClientResult) : Method :=
  match result with
  | some r => .done r
  | none => .fault

/-- The addresses of the two objects. The chip of the `EEPROM` object shares its address with
none that the `RTC` object uses. -/
structure Wiring where
  eepromAddress : BitVec 16
  rtcAddress : BitVec 16
  apart : eepromAddress.setWidth 8 ≠ rtcAddress.setWidth 8
  apart_fixed : eepromAddress.setWidth 8 ≠ mcp79410Addr

/-- `i2c->write(this->device_address, …)` of the `EEPROM` object. -/
def Wiring.eepromWrite (W : Wiring) (sent : List Byte) : Transfer :=
  ⟨W.eepromAddress.setWidth 8, sent, 0⟩

/-- `i2c->write(this->device_address, …)` of the `RTC` object. -/
def Wiring.rtcWrite (W : Wiring) (sent : List Byte) : Transfer :=
  ⟨W.rtcAddress.setWidth 8, sent, 0⟩

/-- The mutex a call takes; a length that the guard rejects returns before it.
SOURCE: eeprom/EEPROM.cpp:36-41, eeprom/EEPROM.cpp:62-67 -/
def clientLock : ClientCall → Option Client
  | .eeprom (.write _ _ _ length) => if u32 (length + 2) > 64 then none else some .eeprom
  | .eeprom (.read _ _ _ _ length) => if u32 (length + 2) > 64 then none else some .eeprom
  | .rtc _ => some .rtc

/-- The methods.
SOURCE: eeprom/EEPROM.cpp:35-93, RTC/RTC.cpp:14-128 -/
def clientBody (W : Wiring) : ClientCall → Method
  | .eeprom (.write buffer memoryAddress data length) =>
    if u32 (length + 2) > 64 then .done .done
    else
      match stagedWrite buffer memoryAddress data length with
      | some sent => .act (W.eepromWrite sent) fun _ => .delay (.done .done)
      | none => .fault
  | .eeprom (.read buffer _ memoryAddress data length) =>
    if u32 (length + 2) > 64 then .done (.data data)
    else
      .act (W.eepromWrite [highByte memoryAddress, lowByte memoryAddress]) fun _ =>
        .act ⟨W.eepromAddress.setWidth 8, [], u32 (length + 2)⟩ fun received =>
          finish ((stagedRead buffer data length received).map .data)
  | .rtc .init =>
    .act (W.rtcWrite [rtcSec, 0x80#8]) fun _ =>
      .delay (.act (W.rtcWrite [rtcWkday, 0x08#8]) fun _ => .done .done)
  | .rtc (.setTime t) =>
    .act (W.rtcWrite [rtcSec, decToBcd t.seconds ||| 0x80#8, decToBcd t.minutes,
      decToBcd t.hours, 0x08#8 ||| 0x01#8, decToBcd t.day, decToBcd t.month, decToBcd t.year])
      fun _ => .delay (.done .done)
  | .rtc (.getTime buffer _) =>
    .act ⟨mcp79410Addr, [rtcSec], 7⟩ fun received =>
      finish ((stagedTime buffer received).map .time)
  | .rtc (.setAlarm seconds minutes hours day date) =>
    .act (W.rtcWrite [0x0A#8, decToBcd seconds ||| 0x80#8, decToBcd minutes, decToBcd hours,
      decToBcd day, decToBcd date]) fun _ => .delay (.done .done)
  | .rtc .clearAlarm => .act (W.rtcWrite [controlReg, 0x00#8]) fun _ => .delay (.done .done)

end PicoDrone.Model
