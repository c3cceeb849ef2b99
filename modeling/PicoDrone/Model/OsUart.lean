import PicoDrone.Library.Machine
import PicoDrone.Model.Word

/-!
# The transmit side of the UART driver

`PicoOsUart::write` and the interrupt handler of `uart/PicoOsUart.cpp` as they interleave:
one step for each access to a queue, to a register of the UART or to the interrupt
controller. The firmware runs on one core, so a task takes a step only while the handler
does not run. `send` is `write` with the length of a string and adds no step.

The FreeRTOS queues are atomic and the mutex is exclusive; `read` and `flush`, which also take
it, do nothing to the transmit side. The UART raises its transmit interrupt when the level of
its FIFO falls to the trigger level, and takes it back when the FIFO is filled above it. An
interrupt for reception may come at any time.
-/

set_option autoImplicit false

namespace PicoDrone.Model

open PicoDrone.Library

/-- The sizes of the two queues, and the depth and the trigger level of the transmit FIFO. -/
structure UartParams where
  txSize : ℕ
  rxSize : ℕ
  depth : ℕ
  trigger : ℕ
  trigger_lt : trigger < depth

/-- Where a task stands in `write`: in the loop that fills the queue, at
`irq_set_enabled(irqn, false)`, at the test of `imsc`; in the initial fill at
`uart_is_writable`, at `xQueueReceive` or before the store to `dr`; at
`uxQueueMessagesWaiting`, at `uart_set_irq_enables(uart, true, true)`, at
`irq_set_enabled(irqn, true)`, and at the end of the scope of the lock. -/
inductive WritePc where
  | enqueue
  | irqOff
  | testIm
  | writable
  | receive
  | store (ch : Byte)
  | waiting
  | enableIm
  | irqOn
  | unlock
  deriving DecidableEq, Repr

/-- A call of `write` that has obtained the mutex. -/
structure WriteCall where
  task : ℕ
  buffer : ℕ → Byte
  size : ℤ
  count : ℕ
  pc : WritePc

/-- The first `count` bytes of a call. -/
def WriteCall.accepted (c : WriteCall) : List Byte := (List.range c.count).map c.buffer

/-- Where the interrupt handler stands: nowhere, in the loop of `uart_irq_rx`; in the loop of
`uart_irq_tx` at `uart_is_writable`, at `xQueueReceiveFromISR` or before the store to `dr`; at
`xQueueIsQueueEmptyFromISR`, and at `uart_set_irq_enables(uart, true, false)`. -/
inductive HandlerPc where
  | idle
  | rx
  | writable
  | receive
  | store (ch : Byte)
  | empty
  | disableIm
  deriving DecidableEq, Repr

/-- A `PicoOsUart` object with its UART. `dr` are the bytes stored to the data register,
`txris` says that the transmit interrupt is raised, enabled or not, `txim` is its bit in
`imsc`, `nvic` the enable bit in the interrupt controller, and `done` are the finished calls
in the order they obtained the mutex. -/
structure OsUart where
  tx : List Byte
  rx : List Byte
  dr : List Byte
  level : ℕ
  rxFifo : List Byte
  txris : Bool
  txim : Bool
  nvic : Bool
  holder : Option WriteCall
  done : List WriteCall
  handler : HandlerPc

/-- The object after its constructor.
SOURCE: uart/PicoOsUart.cpp:33-64 -/
def OsUart.construct : OsUart :=
  { tx := [], rx := [], dr := [], level := 0, rxFifo := [], txris := false, txim := false,
    nvic := true, holder := none, done := [], handler := .idle }

/-- A step of the system: a call of `write` obtains the mutex, `xQueueSendToBack` succeeds or
gives up, any other step of `write`; the interrupt is taken, a step of the handler; a byte is
received, a byte leaves the transmit FIFO. -/
inductive UartLabel where
  | lock (task : ℕ) (buffer : ℕ → Byte) (size : ℤ)
  | send
  | timeout
  | write
  | interrupt
  | handler
  | rxByte (b : Byte)
  | drain

namespace OsUart

variable (P : UartParams)

def storeDr (ch : Byte) (s : OsUart) : OsUart :=
  let level := if s.level < P.depth then s.level + 1 else s.level
  { s with
    dr := s.dr ++ [ch]
    level := level
    txris := if P.trigger < level then false else s.txris }

/-- The UART takes a byte out of its FIFO. -/
def drain (s : OsUart) : OsUart :=
  { s with
    level := s.level - 1
    txris := if s.level = P.trigger + 1 then true else s.txris }

/-- A call of `write` is at another place. -/
def goto (c : WriteCall) (pc : WritePc) (s : OsUart) : OsUart :=
  { s with holder := some { c with pc := pc } }

/-- A step of `write` other than those of `xQueueSendToBack`.
SOURCE: uart/PicoOsUart.cpp:75-103 -/
def writeStep (c : WriteCall) (s : OsUart) : Option OsUart :=
  match c.pc with
  | .enqueue => if c.count < c.size then none else some (s.goto c .irqOff)
  | .irqOff => some ({ s with nvic := false }.goto c .testIm)
  | .testIm => some (if s.txim then s.goto c .irqOn else s.goto c .writable)
  | .writable => some (if s.level < P.depth then s.goto c .receive else s.goto c .waiting)
  | .receive =>
    match s.tx with
    | [] => some (s.goto c .waiting)
    | ch :: tx => some ({ s with tx := tx }.goto c (.store ch))
  | .store ch => some ((s.storeDr P ch).goto c .writable)
  | .waiting => some (if 0 < s.tx.length then s.goto c .enableIm else s.goto c .irqOn)
  | .enableIm => some ({ s with txim := true }.goto c .irqOn)
  | .irqOn => some ({ s with nvic := true }.goto c .unlock)
  | .unlock => some { s with holder := none, done := s.done ++ [c] }

/-- A step of the interrupt handler: `uart_irq_rx`, then `uart_irq_tx`.
SOURCE: uart/PicoOsUart.cpp:16-22 125-147 -/
def handlerStep (s : OsUart) : Option OsUart :=
  match s.handler with
  | .idle => none
  | .rx =>
    match s.rxFifo with
    | [] => some { s with handler := .writable }
    | b :: rxFifo =>
      some { s with
        rxFifo := rxFifo
        rx := if s.rx.length < P.rxSize then s.rx ++ [b] else s.rx }
  | .writable => some { s with handler := if s.level < P.depth then .receive else .empty }
  | .receive =>
    match s.tx with
    | [] => some { s with handler := .empty }
    | ch :: tx => some { s with tx := tx, handler := .store ch }
  | .store ch => some { s.storeDr P ch with handler := .writable }
  | .empty => some { s with handler := if s.tx = [] then .disableIm else .idle }
  | .disableIm => some { s with txim := false, handler := .idle }

/-- A step of the system; a task takes one only while the handler does not run. -/
def step (s : OsUart) : UartLabel → Option OsUart
  | .lock task buffer size =>
    if s.handler = .idle ∧ s.holder.isNone then
      some { s with holder := some ⟨task, buffer, size, 0, .enqueue⟩ }
    else none
  | .send =>
    match s.holder with
    | some c =>
      if s.handler = .idle ∧ c.pc = .enqueue ∧ c.count < c.size ∧ s.tx.length < P.txSize then
        some { s with
          tx := s.tx ++ [c.buffer c.count]
          holder := some { c with count := c.count + 1 } }
      else none
    | none => none
  | .timeout =>
    match s.holder with
    | some c =>
      if s.handler = .idle ∧ c.pc = .enqueue ∧ c.count < c.size ∧ ¬ s.tx.length < P.txSize then
        some (s.goto c .irqOff)
      else none
    | none => none
  | .write =>
    match s.holder with
    | some c => if s.handler = .idle then s.writeStep P c else none
    | none => none
  | .interrupt =>
    if s.handler = .idle ∧ s.nvic then some { s with handler := .rx } else none
  | .handler => s.handlerStep P
  | .rxByte b => some { s with rxFifo := s.rxFifo ++ [b] }
  | .drain => if 0 < s.level then some (s.drain P) else none

def machine : Machine OsUart UartLabel := ⟨step P⟩

end OsUart

end PicoDrone.Model
