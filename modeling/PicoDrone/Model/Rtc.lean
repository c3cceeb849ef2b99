import PicoDrone.Model.Eeprom

/-!
# The real-time clock

The class `RTC` of `RTC/RTC.cpp` over an I2C port, and the MCP79410 it talks to. A port
gives the result of `PicoI2C::transaction` and the bytes it has stored in the caller's
buffer, which may be fewer than asked for; neither `RTC` nor `EEPROM` looks at the result.

The clock chip is not part of the repository: a register file behind an address pointer
that moves on with every byte. Its oscillator is stopped here.
-/

set_option autoImplicit false

namespace PicoDrone.Model

open PicoDrone.Library

/-! ## The port -/

/-- `PicoI2C::transaction` as its callers see it: the count it returns, and the bytes that the
transfer has put into the read buffer. A full count means that all of them are there. -/
structure I2cPort (β : Type) where
  transaction : Byte → List Byte → ℕ → β → (ℕ × List Byte) × β
  received_le : ∀ addr sent length s, (transaction addr sent length s).1.2.length ≤ length
  received_full : ∀ addr sent length s,
    (transaction addr sent length s).1.1 = sent.length + length →
      (transaction addr sent length s).1.2.length = length

/-- `PicoI2C::write` and `PicoI2C::read`, without the count.
SOURCE: i2c/PicoI2C.cpp:124-131 -/
def I2cPort.toBus {β : Type} (P : I2cPort β) : I2cBus β where
  write addr sent s := (P.transaction addr sent 0 s).2
  read addr length s := let t := P.transaction addr [] length s; (t.1.2, t.2)

/-! ## The registers -/

def mcp79410Addr : Byte := 0x6F#8

def rtcSec : Byte := 0x00#8

def rtcWkday : Byte := 0x03#8

def controlReg : Byte := 0x07#8

/-! ## The driver -/

/-- An `RTC` object, the bus behind it and what it has printed. -/
structure Rtc (β : Type) where
  deviceAddress : BitVec 16
  bus : β
  printed : List String

/-- The arguments of `set_time`, and what the pointers of `get_time` point to. -/
structure ClockTime where
  seconds : Byte
  minutes : Byte
  hours : Byte
  day : Byte
  month : Byte
  year : Byte
  deriving DecidableEq, Repr

/-- SOURCE: RTC/RTC.cpp:35-37 -/
def decToBcd (dec : Byte) : Byte := (dec / 10#8) <<< 4 ||| dec % 10#8

/-- SOURCE: RTC/RTC.cpp:39-41 -/
def bcdToDec (bcd : Byte) : Byte := (bcd >>> 4) * 10#8 + (bcd &&& 0x0F#8)

section Driver

variable {β : Type} (P : I2cPort β)

/-- `printf` of a text without arguments. -/
def Rtc.print (r : Rtc β) (text : String) : Rtc β := { r with printed := r.printed ++ [text] }

/-- `i2c->write(this->device_address, …)`. -/
def Rtc.write (sent : List Byte) (r : Rtc β) : Rtc β :=
  { r with bus := P.toBus.write (r.deviceAddress.setWidth 8) sent r.bus }

/-- `RTC::init`. `taken` is the result of `xSemaphoreTake`.
SOURCE: RTC/RTC.cpp:14-33 -/
def Rtc.init (taken : Bool) (r : Rtc β) : Rtc β :=
  if taken then (r.write P [rtcSec, 0x80#8]).write P [rtcWkday, 0x08#8]
  else r.print "Failed to take mutex for RTC init operation.\n"

/-- `RTC::set_time`.
SOURCE: RTC/RTC.cpp:43-63 -/
def Rtc.setTime (taken : Bool) (t : ClockTime) (r : Rtc β) : Rtc β :=
  if taken then
    r.write P [rtcSec, decToBcd t.seconds ||| 0x80#8, decToBcd t.minutes, decToBcd t.hours,
      0x08#8 ||| 0x01#8, decToBcd t.day, decToBcd t.month, decToBcd t.year]
  else r.print "Failed to take mutex for RTC set time operation.\n"

/-- `RTC::get_time`. `buffer` is the local buffer as it is on the stack, `out` what the six
pointers point to before the call.
SOURCE: RTC/RTC.cpp:65-91 -/
def Rtc.getTime (taken : Bool) (buffer : Region 7 Byte) (out : ClockTime) (r : Rtc β) :
    Option (Rtc β × ClockTime) :=
  if taken then do
    let t := P.transaction mcp79410Addr [rtcSec] 7 r.bus
    let buffer ← buffer.copyIn 0 t.1.2
    let seconds ← buffer.load 0
    let minutes ← buffer.load 1
    let hours ← buffer.load 2
    let day ← buffer.load 4
    let month ← buffer.load 5
    let year ← buffer.load 6
    some ({ r with bus := t.2 },
      { seconds := bcdToDec (seconds &&& 0x7F#8)
        minutes := bcdToDec minutes
        hours := bcdToDec hours
        day := bcdToDec (day &&& 0x3F#8)
        month := bcdToDec (month &&& 0x1F#8)
        year := bcdToDec year })
  else some (r.print "Failed to take mutex for RTC get time operation.\n", out)

/-- `RTC::set_alarm`.
SOURCE: RTC/RTC.cpp:93-111 -/
def Rtc.setAlarm (taken : Bool) (seconds minutes hours day date : Byte) (r : Rtc β) : Rtc β :=
  if taken then
    r.write P [0x0A#8, decToBcd seconds ||| 0x80#8, decToBcd minutes, decToBcd hours,
      decToBcd day, decToBcd date]
  else r.print "Failed to take mutex for RTC set alarm operation.\n"

/-- `RTC::clear_alarm`.
SOURCE: RTC/RTC.cpp:114-128 -/
def Rtc.clearAlarm (taken : Bool) (r : Rtc β) : Rtc β :=
  if taken then r.write P [controlReg, 0x00#8]
  else r.print "Failed to take mutex for RTC clear alarm operation.\n"

end Driver

/-! ## The chip -/

/-- The registers and the SRAM of the chip and its address pointer. -/
structure Clock where
  regs : ℕ → Byte
  pointer : ℕ

namespace Clock

/-- The address pointer after a byte: the registers and the SRAM are a ring each. -/
def advance (pointer : ℕ) : ℕ :=
  if pointer = 0x1F then 0x00 else if pointer = 0x5F then 0x20 else pointer + 1

/-- The year register holds a leap year. -/
def leapYear (c : Clock) : Bool := (bcdToDec (c.regs 6)).toNat % 4 == 0

/-- What a read of a register gives: bit 5 of the month register is the chip's own. -/
def load (c : Clock) (reg : ℕ) : Byte :=
  if reg = 5 then c.regs 5 &&& 0xDF#8 ||| (if c.leapYear then 0x20#8 else 0x00#8)
  else c.regs reg

def putByte (c : Clock) (b : Byte) : Clock :=
  { regs := Function.update c.regs c.pointer b, pointer := advance c.pointer }

/-- The bytes sent to the chip: the address pointer, then the bytes to be written. -/
def write (c : Clock) : List Byte → Clock
  | [] => c
  | reg :: data => data.foldl putByte { c with pointer := reg.toNat }

/-- The bytes read from the chip, from the address pointer on. -/
def read (c : Clock) : ℕ → List Byte × Clock
  | 0 => ([], c)
  | length + 1 =>
    let rest := read { c with pointer := advance c.pointer } length
    (c.load c.pointer :: rest.1, rest.2)

theorem read_length (c : Clock) (length : ℕ) : (c.read length).1.length = length := by
  induction length generalizing c with
  | zero => simp [read]
  | succ length ih => simp [read, ih]

/-- A transfer on a bus whose one chip is at address `chipAddr`. At any other address nobody
answers, and nothing is received. -/
def transfer (chipAddr addr : Byte) (sent : List Byte) (length : ℕ) (c : Clock) :
    (ℕ × List Byte) × Clock :=
  if addr = chipAddr then
    let r := (c.write sent).read length
    ((sent.length + length, r.1), r.2)
  else ((sent.length, []), c)

theorem transfer_length_le (chipAddr addr : Byte) (sent : List Byte) (length : ℕ) (c : Clock) :
    (c.transfer chipAddr addr sent length).1.2.length ≤ length := by
  unfold transfer
  split
  · simp [read_length]
  · simp

theorem transfer_full {chipAddr addr : Byte} {sent : List Byte} {length : ℕ} {c : Clock}
    (h : (c.transfer chipAddr addr sent length).1.1 = sent.length + length) :
    (c.transfer chipAddr addr sent length).1.2.length = length := by
  unfold transfer at h ⊢
  split at h
  next haddr => simp [haddr, read_length]
  next haddr =>
    have hzero : length = 0 := by simpa using h
    simp [haddr, hzero]

/-- The bus with the chip at address `chipAddr`; every transfer to it succeeds. -/
def port (chipAddr : Byte) : I2cPort Clock where
  transaction addr sent length c := c.transfer chipAddr addr sent length
  received_le addr sent length c := transfer_length_le chipAddr addr sent length c
  received_full _ _ _ _ h := transfer_full h

end Clock

/-! ## Runs -/

/-- A call of a method of an `RTC` object; `getTime` with its local buffer and the memory
behind its pointers. -/
inductive RtcCall where
  | init
  | setTime (t : ClockTime)
  | getTime (buffer : Region 7 Byte) (out : ClockTime)
  | setAlarm (seconds minutes hours day date : Byte)
  | clearAlarm

/-- The runs of an `RTC` object whose mutex is always obtained, as it is with a timeout of
`portMAX_DELAY`. -/
def rtcMachine {β : Type} (P : I2cPort β) : Machine (Rtc β) RtcCall where
  step r
    | .init => some (r.init P true)
    | .setTime t => some (r.setTime P true t)
    | .getTime buffer out => (r.getTime P true buffer out).map Prod.fst
    | .setAlarm seconds minutes hours day date =>
      some (r.setAlarm P true seconds minutes hours day date)
    | .clearAlarm => some (r.clearAlarm P true)

end PicoDrone.Model
