import PicoDrone.Model.Rtc

/-!
# The two clients of the I2C driver

An `EEPROM` object and an `RTC` object built on the same `PicoI2C`, and what a call of one
of their methods returns. Both mutexes are always obtained, as they are with a timeout of
`portMAX_DELAY`.
-/

set_option autoImplicit false

namespace PicoDrone.Model

open PicoDrone.Library

/-- The two objects, the bus they share and what they have printed. -/
structure Clients (β : Type) where
  eepromAddress : BitVec 16
  rtcAddress : BitVec 16
  bus : β
  printed : List String

/-- A call of a method of one of the two objects. -/
inductive ClientCall where
  | eeprom (call : StoreCall)
  | rtc (call : RtcCall)

/-- What a caller gets: nothing, the memory behind `data`, or the time. -/
inductive ClientResult where
  | done
  | data (memory : ℕ → Byte)
  | time (t : ClockTime)

section Clients

variable {β : Type} (P : I2cPort β)

/-- The `EEPROM` object. -/
def Clients.eeprom (s : Clients β) : Eeprom β := ⟨s.eepromAddress, s.bus, s.printed⟩

/-- The `RTC` object. -/
def Clients.rtc (s : Clients β) : Rtc β := ⟨s.rtcAddress, s.bus, s.printed⟩

/-- The two objects after a call of the first one. -/
def Clients.afterEeprom (s : Clients β) (e : Eeprom β) : Clients β :=
  { s with bus := e.bus, printed := e.printed }

/-- The two objects after a call of the second one. -/
def Clients.afterRtc (s : Clients β) (r : Rtc β) : Clients β :=
  { s with bus := r.bus, printed := r.printed }

/-- A call, with its result. -/
def Clients.call (s : Clients β) : ClientCall → Option (ClientResult × Clients β)
  | .eeprom (.write buffer memoryAddress data length) =>
    (writeToMemory P.toBus true buffer memoryAddress data length s.eeprom).map fun e =>
      (.done, s.afterEeprom e)
  | .eeprom (.read buffer addressBuffer memoryAddress data length) =>
    (readFromMemory P.toBus true buffer addressBuffer memoryAddress data length s.eeprom).map
      fun r => (.data r.2, s.afterEeprom r.1)
  | .rtc .init => some (.done, s.afterRtc (s.rtc.init P true))
  | .rtc (.setTime t) => some (.done, s.afterRtc (s.rtc.setTime P true t))
  | .rtc (.getTime buffer out) =>
    (s.rtc.getTime P true buffer out).map fun r => (.time r.2, s.afterRtc r.1)
  | .rtc (.setAlarm seconds minutes hours day date) =>
    some (.done, s.afterRtc (s.rtc.setAlarm P true seconds minutes hours day date))
  | .rtc .clearAlarm => some (.done, s.afterRtc (s.rtc.clearAlarm P true))

/-- The results of some calls, one after the other. -/
def Clients.results (s : Clients β) : List ClientCall → Option (List ClientResult)
  | [] => some []
  | c :: cs => do
    let r ← s.call P c
    let rest ← Clients.results r.2 cs
    some (r.1 :: rest)

/-- The runs of the two objects, one call after the other. -/
def clientMachine : Machine (Clients β) ClientCall where
  step s call := (s.call P call).map Prod.snd

end Clients

end PicoDrone.Model
