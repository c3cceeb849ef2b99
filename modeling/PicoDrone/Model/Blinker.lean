import PicoDrone.Library.Machine
import PicoDrone.Model.Word

/-!
# The blinker

`Blinker` of `blinker.cpp`: its task waits for a notification for as long as the LED is to keep
its state, and the methods `on` and `off` overwrite the one word of the notification. The kernel
is the bundled one: `ulTaskNotifyTake` blocks while the word is zero, and takes the word when it
goes on, `xTaskNotify` ends the wait whatever it writes, and `pdMS_TO_TICKS` is computed in 32
bits.
-/

set_option autoImplicit false

namespace PicoDrone.Model

open PicoDrone.Library

namespace Blinker

/-- A call of a method. -/
inductive Command where
  | on (delay : Word)
  | off
  deriving DecidableEq, Repr

/-- The word that a call writes.
SOURCE: blinker.cpp:18-24 -/
def Command.word : Command → Word
  | .on delay => delay
  | .off => 0xFFFFFFFF#32

/-- Where the task is: outside of `ulTaskNotifyTake`, blocked in it for some ticks, or about to
take the word. -/
inductive Phase where
  | running
  | blocked (ticks : ℕ)
  | ready (ticks : ℕ)
  deriving DecidableEq, Repr

/-- The ticks that the wait was called with. -/
def Phase.ticks : Phase → Option ℕ
  | .running => none
  | .blocked ticks => some ticks
  | .ready ticks => some ticks

end Blinker

/-- A `Blinker` with its task: the local variable `on`, the member `delay`, an `int` that is kept
as its 32 bits, the level of the LED and the word of the notification. The last call and whether
the task has taken a word since are a record that no function reads. -/
structure Blinker where
  on : Bool
  delay : Word
  led : Bool
  notified : Word
  phase : Blinker.Phase
  last : Option Blinker.Command
  taken : Bool
  deriving DecidableEq, Repr

namespace Blinker

/-- After the constructor.
SOURCE: blinker.cpp:10-16 27 -/
def construct : Blinker := ⟨false, 300#32, false, 0#32, .running, none, false⟩

/-- `pdMS_TO_TICKS` with 1000 ticks a second.
SOURCE: FreeRTOS-KernelV10.6.2/include/projdefs.h:42 FreeRTOSConfig.h:48 -/
def pdMsToTicks (ms : Word) : ℕ := u32 (ms.toNat * 1000) / 1000

/-- The body of the loop, once `ulTaskNotifyTake` has returned.
SOURCE: blinker.cpp:30-46 -/
def handle (cmd : Word) (b : Blinker) : Blinker :=
  let b :=
    if cmd = 0#32 then b
    else if cmd = 0xFFFFFFFF#32 then { b with on := false }
    else { b with delay := cmd, on := true }
  if b.on then { b with led := !b.led } else { b with led := false }

/-- `on` and `off`: `xTaskNotify` with `eSetValueWithOverwrite`. A blocked task goes on.
SOURCE: blinker.cpp:18-24 -/
def call (c : Command) (b : Blinker) : Blinker :=
  let phase :=
    match b.phase with
    | .blocked ticks => .ready ticks
    | phase => phase
  { b with notified := c.word, phase := phase, last := some c, taken := false }

/-- The first part of `ulTaskNotifyTake`: the task blocks if the word is zero and the time is not.
SOURCE: FreeRTOS-KernelV10.6.2/tasks.c:4767-4796 blinker.cpp:29 -/
def check (b : Blinker) : Blinker :=
  let ticks := pdMsToTicks b.delay
  { b with phase := if b.notified = 0#32 ∧ 0 < ticks then .blocked ticks else .ready ticks }

/-- The second part of `ulTaskNotifyTake`, and the body of the loop.
SOURCE: FreeRTOS-KernelV10.6.2/tasks.c:4798-4823 blinker.cpp:29-46 -/
def resume (b : Blinker) : Blinker :=
  handle b.notified { b with notified := 0#32, phase := .running, taken := true }

inductive Event where
  | call (c : Command)
  | check
  | expire
  | resume
  deriving DecidableEq, Repr

/-- The runs of a blinker: calls between any two steps of the task. The time of a wait expires
while the task is blocked. -/
def machine : Machine Blinker Event where
  step b
    | .call c => some (b.call c)
    | .check => if b.phase = .running then some b.check else none
    | .expire =>
      match b.phase with
      | .blocked ticks => some { b with phase := .ready ticks }
      | _ => none
    | .resume =>
      match b.phase with
      | .ready _ => some b.resume
      | _ => none

end Blinker

end PicoDrone.Model
