import Mathlib.Logic.Function.Basic
import PicoDrone.Model.I2cController

/-!
# Calls of `transaction` by several tasks

One `PicoI2C` object, its controller, and tasks that call `transaction` one after the other,
as the mutex `access` makes them. FreeRTOS keeps one notification value for each task, and
it outlives the call: it is handed over to the object when a task enters `transaction` and
is kept for the task when it leaves.
-/

set_option autoImplicit false

namespace PicoDrone.Model

open PicoDrone.Library

/-- The arguments of a call, and the device and the timing it finds. -/
structure CallArgs where
  slave : Slave
  sched : ℕ → ℕ
  addr : Byte
  wbuffer : ℕ → Byte
  wlength : ℕ
  rlength : ℕ

/-- The register block of a call. -/
def CallArgs.hw (a : CallArgs) : I2cHw Controller := Controller.hw a.slave a.sched

/-- A call in progress: the task, the arguments, the call, and the controller as the call has
programmed it, a record that no step reads. -/
structure ActiveCall (T : Type) where
  task : T
  args : CallArgs
  transaction : Transaction Controller
  programmed : Controller

/-- The object, the notification values of the tasks outside of `transaction`, and the call
that holds the mutex. -/
structure Calls (T : Type) where
  drv : PicoI2C Controller
  pending : T → Bool
  call : Option (ActiveCall T)

/-- A task calls `transaction`, an event of the call in progress, or its return. -/
inductive CallsEvent (T : Type) where
  | enter (task : T) (args : CallArgs)
  | event (e : Event)
  | leave

section Calls

variable {T : Type} [DecidableEq T]

/-- The driver as task `task` finds it.
SOURCE: i2c/PicoI2C.cpp:137 -/
def Calls.drvFor (s : Calls T) (task : T) : PicoI2C Controller :=
  { s.drv with notified := s.pending task }

/-- The call of a task, programmed and waiting.
SOURCE: i2c/PicoI2C.cpp:136-157 -/
def Calls.activeCall (s : Calls T) (task : T) (args : CallArgs) : ActiveCall T where
  task := task
  args := args
  transaction := Model.transaction args.hw args.addr args.wbuffer args.wlength args.rlength
    (s.drvFor task)
  programmed := (program args.hw args.addr args.wbuffer args.wlength args.rlength
    (s.drvFor task)).hw

/-- One step. -/
def Calls.step (s : Calls T) : CallsEvent T → Option (Calls T)
  | .enter task args =>
    -- the mutex keeps other tasks out, and the interrupt is off up to the wait
    if s.call.isNone then some { s with call := some (s.activeCall task args) } else none
  | .event e =>
    s.call.bind fun c =>
      (transactionStep c.args.hw c.transaction e).map fun t =>
        { s with call := some { c with transaction := t } }
  | .leave =>
    s.call.bind fun c =>
      match c.transaction.phase with
      | .returned _ =>
        some
          { drv := c.transaction.drv
            pending := Function.update s.pending c.task c.transaction.drv.notified
            call := none }
      | _ => none

/-- The runs of the calls. -/
def callsMachine : Machine (Calls T) (CallsEvent T) := ⟨Calls.step⟩

/-- No call has been made. -/
def Calls.start (c : Controller) : Calls T := ⟨PicoI2C.construct c, fun _ => false, none⟩

end Calls

end PicoDrone.Model
