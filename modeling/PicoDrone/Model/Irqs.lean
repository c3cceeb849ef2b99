import PicoDrone.Model.Word

/-!
# Buttons and the rotary encoder

The interrupt handler `irqs::callback` of `SwIRQ/irqs.cpp`, with the static time that its four
button branches share, and the contacts of the encoder. The event queue is taken to have room for
every event.
-/

set_option autoImplicit false

namespace PicoDrone.Model

/-! ## The handler -/

/-- `irqs::EventType`. -/
inductive EventType where
  | buttonPressEvent
  | rotaryEncoderCwEvent
  | rotaryEncoderCcwEvent
  | buttonPressEvent0
  | buttonPressEvent1
  | buttonPressEvent2
  deriving DecidableEq, Repr

/-- SOURCE: irqs.h:14-19 -/
def rotSwPin : ℕ := 12

def rotAPin : ℕ := 10

def rotBPin : ℕ := 11

def button0 : ℕ := 9

def button1 : ℕ := 8

def button2 : ℕ := 7

/-- `BUTTON_DEBOUNCE_DELAY_MS`. -/
def buttonDebounceDelayMs : Word := 200#32

/-- The static variable of `callback` and the events sent to the queue. -/
structure Irqs where
  lastButtonPressTime : Word
  sent : List EventType
  deriving DecidableEq, Repr

namespace Irqs

/-- At boot. -/
def start : Irqs := ⟨0#32, []⟩

/-- `xQueueSendFromISR`. -/
def send (event : EventType) (s : Irqs) : Irqs := { s with sent := s.sent ++ [event] }

/-- The test of the button branches; times are in milliseconds since boot, in 32 bits.
SOURCE: SwIRQ/irqs.cpp:22 30 38 46 -/
def Accepts (s : Irqs) (currentTime : Word) : Prop :=
  buttonDebounceDelayMs < currentTime - s.lastButtonPressTime

instance (s : Irqs) (currentTime : Word) : Decidable (s.Accepts currentTime) :=
  inferInstanceAs (Decidable (_ < _))

/-- The branch of a button. -/
def buttonBranch (pin : ℕ) (event : EventType) (gpio : ℕ) (currentTime : Word) (s : Irqs) : Irqs :=
  if gpio = pin then
    if s.Accepts currentTime then { s.send event with lastButtonPressTime := currentTime } else s
  else s

/-- `irqs::callback`, with the time and the levels of the two contacts that it may read.
SOURCE: SwIRQ/irqs.cpp:16-66 -/
def callback (gpio : ℕ) (currentTime : Word) (rotA rotB : Bool) (s : Irqs) : Irqs :=
  let s := s.buttonBranch rotSwPin .buttonPressEvent gpio currentTime
  let s := s.buttonBranch button0 .buttonPressEvent0 gpio currentTime
  let s := s.buttonBranch button1 .buttonPressEvent1 gpio currentTime
  let s := s.buttonBranch button2 .buttonPressEvent2 gpio currentTime
  if gpio = rotAPin ∨ gpio = rotBPin then
    s.send (if rotA ≠ rotB then .rotaryEncoderCwEvent else .rotaryEncoderCcwEvent)
  else s

end Irqs

/-! ## The encoder -/

/-- The levels of A and B at a place of the cycle 00-10-11-01. -/
def contacts (position : ℤ) : Bool × Bool :=
  (position % 4 = 1 ∨ position % 4 = 2, position % 4 = 2 ∨ position % 4 = 3)

/-- A change of A, by the direction of the step. -/
inductive AEdge where
  | forwardRise
  | forwardFall
  | backwardRise
  | backwardFall
  deriving DecidableEq, Repr

def AEdge.of (forward rises : Bool) : AEdge :=
  match forward, rises with
  | true, true => .forwardRise
  | true, false => .forwardFall
  | false, true => .backwardRise
  | false, false => .backwardFall

/-- The encoder with the handler, and a record of the changes of A that no function reads. -/
structure Encoder where
  position : ℤ
  irqs : Irqs
  edges : List AEdge
  deriving DecidableEq, Repr

/-- A step of the contacts at some time. The interrupt is enabled for the rising edge of A.
SOURCE: SwIRQ/irqs.cpp:8-14 -/
def Encoder.move (e : Encoder) (step : Bool × Word) : Encoder :=
  let position := if step.1 then e.position + 1 else e.position - 1
  let before := contacts e.position
  let now := contacts position
  { position := position
    irqs :=
      if before.1 = false ∧ now.1 = true then e.irqs.callback rotAPin step.2 now.1 now.2
      else e.irqs
    edges := if before.1 ≠ now.1 then e.edges ++ [AEdge.of step.1 now.1] else e.edges }

end PicoDrone.Model
