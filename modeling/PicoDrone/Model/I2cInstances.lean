import Mathlib.Logic.Function.Basic
import PicoDrone.Model.I2cDriver

/-!
# Several driver objects on one bus

Every `PicoI2C` object has its own counters, buffers and mutex `access`. The controller, its
interrupt mask, `restart_on_next` and the interrupt of the NVIC belong to the bus, and so
does the static pointer that the interrupt goes through: it is the object that was
constructed last.
-/

set_option autoImplicit false

namespace PicoDrone.Model

open PicoDrone.Library

/-- How far the task that holds `access` has come before it waits: `task_to_notify` is set, the
controller is programmed, the first words are stored, the interrupt is enabled. From there on
the phase of the transaction says where it stands. -/
inductive Stage where
  | entered (addr : Byte) (wbuffer : ℕ → Byte) (wlength rlength : ℕ)
  | programmed
  | filled
  | begun

/-- A `PicoI2C` object: the transaction that it has programmed last, with its own members in
`transaction.drv`, `task_to_notify`, the task that holds `access`, and how far it has come. -/
structure I2cObject (T σ : Type) where
  transaction : Transaction σ
  taskToNotify : Option T
  holder : Option T
  stage : Stage

/-- The controller of a bus, `i2c0_instance` or `i2c1_instance` as an index of the objects, the
objects, and the notification values of the tasks. -/
structure SharedController (T σ : Type) where
  hw : σ
  intrMask : IntrBits
  restartOnNext : Bool
  irqEnabled : Bool
  currentInstance : Option ℕ
  objects : List (I2cObject T σ)
  notified : T → Bool

/-- A constructor, a call of `transaction` through an object and its four parts before the wait,
a statement of the waiting task, the interrupt, the release of `access`. -/
inductive BusEvent (T : Type) where
  | construct
  | enter (object : ℕ) (task : T) (addr : Byte) (wbuffer : ℕ → Byte) (wlength rlength : ℕ)
  | program (object : ℕ)
  | fill (object : ℕ)
  | irqOn (object : ℕ)
  | event (object : ℕ) (e : Event)
  | interrupt
  | leave (object : ℕ)

section Instances

variable {T σ : Type} [DecidableEq T] (R : I2cHw σ)

/-- An object after its constructor. -/
def I2cObject.construct (hw : σ) : I2cObject T σ where
  transaction :=
    { drv := PicoI2C.construct hw, wlength := 0, rlength := 0, phase := .returned 0,
      timedOut := false, tally := BusLog.empty }
  taskToNotify := none
  holder := none
  stage := .begun

namespace SharedController

/-- The members of an object with what belongs to the bus. -/
def view (b : SharedController T σ) (o : I2cObject T σ) : Transaction σ :=
  { o.transaction with
    drv :=
      { o.transaction.drv with
        hw := b.hw
        intrMask := b.intrMask
        restartOnNext := b.restartOnNext
        irqEnabled := b.irqEnabled
        notified := match o.taskToNotify with
          | some task => b.notified task
          | none => false } }

/-- The bus after object `k` has done something. -/
def update (b : SharedController T σ) (k : ℕ) (o : I2cObject T σ) (t : Transaction σ) :
    SharedController T σ :=
  { b with
    hw := t.drv.hw
    intrMask := t.drv.intrMask
    restartOnNext := t.drv.restartOnNext
    irqEnabled := t.drv.irqEnabled
    objects := b.objects.set k { o with transaction := t }
    notified := match o.taskToNotify with
      | some task => Function.update b.notified task t.drv.notified
      | none => b.notified }

/-- The constructor; `i2c_init` resets the controller.
SOURCE: i2c/PicoI2C.cpp:33-66 -/
def construct (b : SharedController T σ) : SharedController T σ :=
  { b with
    hw := R.enable true (R.enable false b.hw)
    intrMask := IntrBits.none
    restartOnNext := false
    irqEnabled := false
    currentInstance := some b.objects.length
    objects := b.objects ++ [I2cObject.construct b.hw] }

/-- `transaction` through an object whose mutex is free.
SOURCE: i2c/PicoI2C.cpp:136-137 -/
def enter (b : SharedController T σ) (k : ℕ) (o : I2cObject T σ) (task : T) (addr : Byte)
    (wbuffer : ℕ → Byte) (wlength rlength : ℕ) : SharedController T σ :=
  { b with
    objects := b.objects.set k { o with
      taskToNotify := some task
      holder := some task
      stage := .entered addr wbuffer wlength rlength } }

/-- The controller and the counters are set up.
SOURCE: i2c/PicoI2C.cpp:139-149 -/
def program (b : SharedController T σ) (k : ℕ) (o : I2cObject T σ) (addr : Byte)
    (wbuffer : ℕ → Byte) (wlength rlength : ℕ) : SharedController T σ :=
  b.update k { o with stage := .programmed }
    { drv := Model.program R addr wbuffer wlength rlength (b.view o).drv
      wlength := wlength
      rlength := rlength
      phase := .waiting
      timedOut := false
      tally := BusLog.empty }

/-- The first words are stored.
SOURCE: i2c/PicoI2C.cpp:151-153 -/
def fill (b : SharedController T σ) (k : ℕ) (o : I2cObject T σ) : SharedController T σ :=
  let t := b.view o
  b.update k { o with stage := .filled }
    { t with drv := if 0 < t.drv.wctr then txFillFifo R t.drv else rxFillFifo R t.drv }

/-- `irq_set_enabled(irqn, true)`.
SOURCE: i2c/PicoI2C.cpp:155-157 -/
def irqOn (b : SharedController T σ) (k : ℕ) (o : I2cObject T σ) : SharedController T σ :=
  let t := b.view o
  b.update k { o with stage := .begun } { t with drv := { t.drv with irqEnabled := true } }

/-- `i2c0_irq`, `i2c1_irq`.
SOURCE: i2c/PicoI2C.cpp:23-31 -/
def irq (b : SharedController T σ) : SharedController T σ :=
  match b.currentInstance with
  | some j =>
    match b.objects[j]? with
    | some o => b.update j o { b.view o with drv := isr R (b.view o).drv }
    | none => { b with irqEnabled := false }
  | none => { b with irqEnabled := false }

/-- One step. A task that is inside `transaction` calls nothing else, and no task gets past
`access` while it is held. -/
def step (b : SharedController T σ) : BusEvent T → Option (SharedController T σ)
  | .construct => some (b.construct R)
  | .enter k task addr wbuffer wlength rlength =>
    b.objects[k]?.bind fun o =>
      if o.holder = none ∧ ∀ other ∈ b.objects, other.holder ≠ some task then
        some (b.enter k o task addr wbuffer wlength rlength)
      else none
  | .program k =>
    b.objects[k]?.bind fun o =>
      match o.stage with
      | .entered addr wbuffer wlength rlength =>
        some (b.program R k o addr wbuffer wlength rlength)
      | _ => none
  | .fill k =>
    b.objects[k]?.bind fun o =>
      match o.stage with
      | .programmed => some (b.fill R k o)
      | _ => none
  | .irqOn k =>
    b.objects[k]?.bind fun o =>
      match o.stage with
      | .filled => some (b.irqOn k o)
      | _ => none
  | .event k e =>
    b.objects[k]?.bind fun o =>
      match o.stage with
      | .begun =>
        if o.holder.isSome ∧ e ≠ .isr then (transactionStep R (b.view o) e).map (b.update k o)
        else none
      | _ => none
  | .interrupt => if b.irqEnabled ∧ b.intrMask ≠ IntrBits.none then some (b.irq R) else none
  | .leave k =>
    b.objects[k]?.bind fun o =>
      match o.holder, o.stage, o.transaction.phase with
      | some _, .begun, .returned _ =>
        some { b with objects := b.objects.set k { o with holder := none } }
      | _, _, _ => none

/-- A bus without objects. -/
def start (hw : σ) : SharedController T σ :=
  { hw := hw, intrMask := IntrBits.none, restartOnNext := false, irqEnabled := false,
    currentInstance := none, objects := [], notified := fun _ => false }

end SharedController

/-- The runs of a bus. -/
def busMachine : Machine (SharedController T σ) (BusEvent T) := ⟨SharedController.step R⟩

end Instances

end PicoDrone.Model
