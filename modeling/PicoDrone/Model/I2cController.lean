import Mathlib.Logic.Function.Iterate
import PicoDrone.Model.I2cDriver

/-!
# The I2C controller and a slave

A register block for `PicoI2C`: a controller with transmit and receive FIFOs of 16
entries that executes the queued commands one by one against a slave. The controller
moves on its own, so a schedule says how many of its steps pass before each register
access of the driver.

The controller is not part of the repository. It is taken as its manual describes it:
watermarks `tx_tl = 0` and `rx_tl = 14`, a refused address or byte discards the queued
commands and still raises STOP, the transmit FIFO then takes no commands until the abort
is cleared, which the driver does only by disabling the controller, and a disabled
controller drops its FIFOs and its pending STOP.
-/

set_option autoImplicit false

namespace PicoDrone.Model

/-- The STOP bit of a word. -/
def hasStop (w : Word) : Bool := w.getLsbD i2cIcDataCmdStopLsb

/-- The RESTART bit of a word. -/
def hasRestart (w : Word) : Bool := w.getLsbD i2cIcDataCmdRestartLsb

/-- The word is a read command: the bit of `I2C_IC_DATA_CMD_CMD_BITS` is set. -/
def isRead (w : Word) : Bool := w.getLsbD 8

/-- The data byte of a write word. -/
def dataByte (w : Word) : Byte := w.setWidth 8

/-- The device a transaction talks to: its answer to each address phase and to each byte
written, and the bytes it delivers. -/
structure Slave where
  ackAddr : ℕ → Bool
  ackByte : ℕ → Bool
  readByte : ℕ → Byte

/-- What the shift register of the controller is busy with: nothing, a command taken from the
transmit FIFO, or the STOP condition. -/
inductive Shift where
  | idle
  | busy (w : Word)
  | stopping
  deriving DecidableEq, Repr

/-- The controller. `needAddr` says that the next command starts with an address phase,
`aborted` that the transmit FIFO is held empty after an abort. `executed`, `addrAcks`, `acked`,
`delivered` and `refused` record what happened on the bus since the controller was last
enabled; `now` counts the register accesses. -/
structure Controller where
  txFifo : List Word
  rxFifo : List Byte
  shift : Shift
  needAddr : Bool
  aborted : Bool
  stopDet : Bool
  executed : List Word
  addrAcks : ℕ
  acked : ℕ
  delivered : ℕ
  refused : Bool
  now : ℕ
  deriving DecidableEq, Repr

/-- The depth of both FIFOs. -/
def fifoDepth : ℕ := 16

namespace Controller

variable (S : Slave)

/-- The controller after power-up, and after it has been disabled. -/
def reset (now : ℕ) : Controller :=
  { txFifo := [], rxFifo := [], shift := .idle, needAddr := true, aborted := false,
    stopDet := false, executed := [], addrAcks := 0, acked := 0, delivered := 0,
    refused := false, now := now }

/-- A refusal: the queued commands are discarded and STOP follows. -/
def abort (c : Controller) : Controller :=
  { c with txFifo := [], aborted := true, refused := true, shift := .stopping }

/-- The command `w` addresses the slave before its byte. -/
def addresses (c : Controller) (w : Word) : Bool := c.needAddr || hasRestart w

/-- The address phase of command `w`, if it has one, has been acknowledged. -/
def addressed (c : Controller) (w : Word) : Controller :=
  if c.addresses w then { c with addrAcks := c.addrAcks + 1, needAddr := false } else c

/-- The byte of command `w` has gone over the bus. -/
def completed (c : Controller) (w : Word) : Controller :=
  { c with
    executed := c.executed ++ [w]
    shift := if hasStop w then .stopping else .idle }

/-- The byte phase of command `w`. -/
def transfer (c : Controller) (w : Word) : Controller :=
  if isRead w then
    completed { c with
      rxFifo := if c.rxFifo.length < fifoDepth then c.rxFifo ++ [S.readByte c.delivered]
        else c.rxFifo
      delivered := c.delivered + 1 } w
  else if S.ackByte c.acked then completed { c with acked := c.acked + 1 } w
  else c.abort

/-- One step of the controller. -/
def tick (c : Controller) : Controller :=
  match c.shift with
  | .idle =>
    match c.txFifo with
    | [] => c
    | w :: ws => { c with txFifo := ws, shift := .busy w }
  | .busy w =>
    if c.addresses w && !S.ackAddr c.addrAcks then c.abort
    else (c.addressed w).transfer S w
  | .stopping => { c with stopDet := true, shift := .idle, needAddr := true }

/-- The steps that pass before the next register access. -/
def advance (sched : ℕ → ℕ) (c : Controller) : Controller :=
  { (tick S)^[sched c.now] c with now := c.now + 1 }

/-- A command arrives in the transmit FIFO. -/
def push (w : Word) (c : Controller) : Controller :=
  if c.aborted then c
  else if c.txFifo.length < fifoDepth then { c with txFifo := c.txFifo ++ [w] }
  else c

/-- The oldest received byte is taken out of the receive FIFO. -/
def pop (c : Controller) : Word × Controller :=
  match c.rxFifo with
  | [] => (0#32, c)
  | b :: bs => (b.setWidth 32, { c with rxFifo := bs })

/-- The register block of the controller under a schedule. -/
def hw (sched : ℕ → ℕ) : I2cHw Controller where
  writeAvailable c :=
    let c := advance S sched c
    (fifoDepth - c.txFifo.length, c)
  storeDataCmd w c := (advance S sched c).push w
  rxflr c :=
    let c := advance S sched c
    (c.rxFifo.length, c)
  loadDataCmd c := (advance S sched c).pop
  rawIntrStat c :=
    let c := advance S sched c
    (⟨c.stopDet, c.txFifo.isEmpty, decide (14 < c.rxFifo.length)⟩, c)
  clrStopDet c := { advance S sched c with stopDet := false }
  enable on c :=
    let c := advance S sched c
    if on then c else reset c.now
  tar _ c := advance S sched c

end Controller

end PicoDrone.Model
