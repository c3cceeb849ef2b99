import PicoDrone.Library.Machine
import PicoDrone.Model.Word

/-!
# The interrupt-driven I2C driver

`PicoI2C::transaction`, the two fill loops and the interrupt handler of
`i2c/PicoI2C.cpp`, over an abstract register block `I2cHw`. Every register access may
find the hardware in a new state, so one register block stands for any number of free
FIFO slots at any check, any arrival of received bytes and any interrupt status.

The `BusLog` is a record of what the driver did in the current transaction. No function
of the driver reads it.
-/

set_option autoImplicit false

namespace PicoDrone.Model

open PicoDrone.Library

/-- `I2C_IC_DATA_CMD_CMD_BITS`: the word is a read command. -/
def i2cIcDataCmdCmdBits : Word := 0x100#32

/-- `I2C_IC_DATA_CMD_STOP_LSB`. -/
def i2cIcDataCmdStopLsb : ℕ := 9

/-- `I2C_IC_DATA_CMD_RESTART_LSB`. -/
def i2cIcDataCmdRestartLsb : ℕ := 10

/-- The bits of `intr_mask` and `intr_stat` that the driver uses. -/
structure IntrBits where
  stopDet : Bool
  txEmpty : Bool
  rxFull : Bool
  deriving DecidableEq, Repr

/-- No interrupt source. -/
def IntrBits.none : IntrBits := ⟨false, false, false⟩

/-- The register block as the driver sees it: an access answers and moves the hardware on.
`writeAvailable` is `i2c_get_write_available`, `rawIntrStat` is the interrupt status before
`intr_mask` is applied. -/
structure I2cHw (σ : Type) where
  writeAvailable : σ → ℕ × σ
  storeDataCmd : Word → σ → σ
  rxflr : σ → ℕ × σ
  loadDataCmd : σ → Word × σ
  rawIntrStat : σ → IntrBits × σ
  clrStopDet : σ → σ
  enable : Bool → σ → σ
  tar : Byte → σ → σ

/-- What the driver has done since the transaction programmed the controller: the words stored
to `data_cmd`, the indexes of `wbuffer` that were read, the indexes of `rbuffer` that were
stored to with the bytes, and whether `isr` has handled a STOP. -/
structure BusLog where
  cmds : List Word
  wreads : List ℕ
  rstores : List (ℕ × Byte)
  stopSeen : Bool
  deriving DecidableEq, Repr

/-- The empty log. -/
def BusLog.empty : BusLog := ⟨[], [], [], false⟩

/-- A `PicoI2C` object with its controller, the memory `wbuf` points into, the
notification value of the waiting task and the enable bit of its interrupt in the NVIC.
`wbuf` and `rbuf` are offsets from the buffers the caller passed. -/
structure PicoI2C (σ : Type) where
  hw : σ
  intrMask : IntrBits
  restartOnNext : Bool
  wbuffer : ℕ → Byte
  wbuf : ℕ
  wctr : ℕ
  rbuf : ℕ
  rctr : ℕ
  rcnt : ℕ
  notified : Bool
  irqEnabled : Bool
  log : BusLog

/-- The object after its constructor.
SOURCE: i2c/PicoI2C.cpp:33-66 -/
def PicoI2C.construct {σ : Type} (hw : σ) : PicoI2C σ :=
  { hw := hw, intrMask := IntrBits.none, restartOnNext := false, wbuffer := fun _ => 0#8,
    wbuf := 0, wctr := 0, rbuf := 0, rctr := 0, rcnt := 0, notified := false,
    irqEnabled := false, log := BusLog.empty }

section Driver

variable {σ : Type} (R : I2cHw σ)

/-- The word that `tx_fill_fifo` stores. -/
def writeWord (restart stop : Bool) (b : Byte) : Word :=
  boolToBit restart <<< i2cIcDataCmdRestartLsb ||| boolToBit stop <<< i2cIcDataCmdStopLsb |||
    b.setWidth 32

/-- The word that `rx_fill_fifo` stores. -/
def readWord (restart stop : Bool) : Word :=
  boolToBit restart <<< i2cIcDataCmdRestartLsb ||| boolToBit stop <<< i2cIcDataCmdStopLsb |||
    i2cIcDataCmdCmdBits

/-- The body of the loop of `tx_fill_fifo`.
SOURCE: i2c/PicoI2C.cpp:74-86 -/
def txPut (d : PicoI2C σ) : PicoI2C σ :=
  let last := d.wctr == 1
  let stop := d.rctr == 0
  let word := writeWord d.restartOnNext (last && stop) (d.wbuffer d.wbuf)
  let restart := if d.restartOnNext then false else d.restartOnNext
  { d with
    hw := R.storeDataCmd word d.hw
    wbuf := d.wbuf + 1
    wctr := d.wctr - 1
    restartOnNext := if last && !stop then true else restart
    log := { d.log with
      cmds := d.log.cmds ++ [word]
      wreads := d.log.wreads ++ [d.wbuf] } }

/-- The body of the loop of `rx_fill_fifo`.
SOURCE: i2c/PicoI2C.cpp:103-112 -/
def rxPut (d : PicoI2C σ) : PicoI2C σ :=
  let last := d.rctr == 1
  let word := readWord d.restartOnNext last
  { d with
    hw := R.storeDataCmd word d.hw
    restartOnNext := if d.restartOnNext then false else d.restartOnNext
    rctr := d.rctr - 1
    log := { d.log with cmds := d.log.cmds ++ [word] } }

/-- The body of the receive loop of `isr`.
SOURCE: i2c/PicoI2C.cpp:191-192 -/
def rxStore (d : PicoI2C σ) : PicoI2C σ :=
  let r := R.loadDataCmd d.hw
  { d with
    hw := r.2
    rbuf := d.rbuf + 1
    rcnt := d.rcnt - 1
    log := { d.log with rstores := d.log.rstores ++ [(d.rbuf, r.1.setWidth 8)] } }

/-- The loop of `tx_fill_fifo`; every pass lowers `wctr`, which is the fuel. -/
def txLoop : ℕ → PicoI2C σ → PicoI2C σ
  | 0, d => d
  | fuel + 1, d =>
    if 0 < d.wctr then
      let a := R.writeAvailable d.hw
      if 0 < a.1 then txLoop fuel (txPut R { d with hw := a.2 }) else { d with hw := a.2 }
    else d

/-- SOURCE: i2c/PicoI2C.cpp:69-94 -/
def txFillFifo (d : PicoI2C σ) : PicoI2C σ := txLoop R d.wctr d

/-- The loop of `rx_fill_fifo`; every pass lowers `rctr`, which is the fuel. -/
def rxLoop : ℕ → PicoI2C σ → PicoI2C σ
  | 0, d => d
  | fuel + 1, d =>
    if 0 < d.rctr then
      let a := R.writeAvailable d.hw
      if 0 < a.1 then rxLoop fuel (rxPut R { d with hw := a.2 }) else { d with hw := a.2 }
    else d

/-- SOURCE: i2c/PicoI2C.cpp:97-121 -/
def rxFillFifo (d : PicoI2C σ) : PicoI2C σ := rxLoop R d.rctr d

/-- The receive loop of `isr`; every pass lowers `rcnt`, which is the fuel. -/
def drainLoop : ℕ → PicoI2C σ → PicoI2C σ
  | 0, d => d
  | fuel + 1, d =>
    if 0 < d.rcnt then
      let a := R.rxflr d.hw
      if 0 < a.1 then drainLoop fuel (rxStore R { d with hw := a.2 }) else { d with hw := a.2 }
    else d

/-- SOURCE: i2c/PicoI2C.cpp:190-196 -/
def isrDrain (d : PicoI2C σ) : PicoI2C σ := drainLoop R d.rcnt d

/-- SOURCE: i2c/PicoI2C.cpp:203-212 -/
def isrRefill (d : PicoI2C σ) : PicoI2C σ :=
  let d :=
    if 0 < d.wctr then txFillFifo R d
    else if 0 < d.rctr then rxFillFifo R d
    else d
  if d.wctr == 0 && d.rctr == 0 then { d with intrMask := ⟨true, false, true⟩ } else d

/-- SOURCE: i2c/PicoI2C.cpp:217-219 -/
def isrStop (d : PicoI2C σ) : PicoI2C σ :=
  { d with
    intrMask := IntrBits.none
    hw := R.clrStopDet d.hw
    notified := true
    log := { d.log with stopSeen := true } }

/-- `PicoI2C::isr`. `intr_stat` is read twice and is the raw status under the mask.
SOURCE: i2c/PicoI2C.cpp:172-222 -/
def isr (d : PicoI2C σ) : PicoI2C σ :=
  let d := isrDrain R d
  let s := R.rawIntrStat d.hw
  let d := { d with hw := s.2 }
  let d := if s.1.txEmpty && d.intrMask.txEmpty then isrRefill R d else d
  let s := R.rawIntrStat d.hw
  let d := { d with hw := s.2 }
  if s.1.stopDet && d.intrMask.stopDet then isrStop R d else d

/-- The part of `transaction` that sets the controller and the counters up.
SOURCE: i2c/PicoI2C.cpp:139-149 -/
def program (addr : Byte) (wbuffer : ℕ → Byte) (wlength rlength : ℕ) (d : PicoI2C σ) :
    PicoI2C σ :=
  { d with
    hw := R.enable true (R.tar addr (R.enable false d.hw))
    intrMask := ⟨true, true, true⟩
    restartOnNext := false
    wbuffer := wbuffer
    wbuf := 0
    wctr := wlength
    rbuf := 0
    rctr := rlength
    rcnt := rlength
    log := BusLog.empty }

/-- `transaction` up to the wait for the notification.
SOURCE: i2c/PicoI2C.cpp:139-157 -/
def beginTransaction (addr : Byte) (wbuffer : ℕ → Byte) (wlength rlength : ℕ)
    (d : PicoI2C σ) : PicoI2C σ :=
  let d := program R addr wbuffer wlength rlength d
  let d := if 0 < d.wctr then txFillFifo R d else rxFillFifo R d
  { d with irqEnabled := true }

/-- Where the task stands in `transaction` after it has enabled the interrupt: in
`ulTaskNotifyTake`, behind it with a nonzero value, with `count` computed, and with the
interrupt disabled and `count` returned. -/
inductive Phase where
  | waiting
  | woken
  | counted (count : ℕ)
  | returned (count : ℕ)
  deriving DecidableEq, Repr

/-- A call of `transaction` in progress. `timedOut` and `tally`, the log at the time
`count` was evaluated, are records that no step reads. -/
structure Transaction (σ : Type) where
  drv : PicoI2C σ
  wlength : ℕ
  rlength : ℕ
  phase : Phase
  timedOut : Bool
  tally : BusLog

/-- One run of the interrupt handler, or one statement of the waiting task:
`ulTaskNotifyTake` takes the notification or gives up after 1000 ms, `count -= rcnt + wctr`
is computed, the interrupt is disabled for the return. -/
inductive Event where
  | isr
  | take
  | timeout
  | count
  | irqOff
  deriving DecidableEq, Repr

/-- `transaction` before any event.
SOURCE: i2c/PicoI2C.cpp:134-157 -/
def transaction (addr : Byte) (wbuffer : ℕ → Byte) (wlength rlength : ℕ) (d : PicoI2C σ) :
    Transaction σ :=
  { drv := beginTransaction R addr wbuffer wlength rlength d
    wlength := wlength
    rlength := rlength
    phase := .waiting
    timedOut := false
    tally := BusLog.empty }

/-- The rest of `transaction`, interleaved with the interrupt handler. The handler runs
only while the NVIC lets the interrupt through and some source is unmasked.
SOURCE: i2c/PicoI2C.cpp:155-168 -/
def transactionStep (c : Transaction σ) : Event → Option (Transaction σ)
  | .isr =>
    if c.drv.irqEnabled ∧ c.drv.intrMask ≠ IntrBits.none then
      some { c with drv := isr R c.drv }
    else none
  | .take =>
    if c.phase = .waiting ∧ c.drv.notified then
      some { c with drv := { c.drv with notified := false }, phase := .woken }
    else none
  | .timeout =>
    if c.phase = .waiting ∧ ¬ c.drv.notified then
      some { c with phase := .counted 0, timedOut := true, tally := c.drv.log }
    else none
  | .count =>
    if c.phase = .woken then
      let count := u32 (c.wlength + c.rlength)
      some { c with
        phase := .counted (u32 (count - u32 (c.drv.rcnt + c.drv.wctr)))
        tally := c.drv.log }
    else none
  | .irqOff =>
    match c.phase with
    | .counted count =>
      some { c with drv := { c.drv with irqEnabled := false }, phase := .returned count }
    | _ => none

/-- The runs of one call of `transaction`. -/
def transactionMachine : Machine (Transaction σ) Event := ⟨transactionStep R⟩

end Driver

end PicoDrone.Model
