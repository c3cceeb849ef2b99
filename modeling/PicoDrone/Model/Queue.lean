import PicoDrone.Library.BoundedQueue
import PicoDrone.Library.SlotRing
import PicoDrone.Model.Word

/-!
# The queues of the kernel

The queues that `uart/PicoOsUart.cpp`, `src/SwIRQ/irqs.cpp` and the tasks send through, from
`queue.c` of the kernel: the storage area with its two pointers, the event lists, the locks,
and the calls of tasks and interrupts as they interleave on the one core.

A task takes one step for each critical section of `xQueueGenericSend`, `xQueueReceive` and
`xQueuePeek` and for each call between them; interrupts come between any two steps. Pointers
are offsets from `pcHead`, and a `memcpy` that would leave the storage area or an assertion
that fails has no result. Queue sets are not used by the firmware, and its tasks neither reset
a queue nor abort a delay.
-/

set_option autoImplicit false

namespace PicoDrone.Model

open PicoDrone.Library

/-- `SIZE_MAX`. -/
def sizeMax : ℕ := 2 ^ 32 - 1

/-- `sizeof( Queue_t )`. -/
def sizeofQueue : ℕ := 84

/-- `portMAX_DELAY`. -/
def portMaxDelay : ℕ := 2 ^ 32 - 1

/-- `queueUNLOCKED`. -/
def queueUnlocked : ℤ := -1

/-- `queueLOCKED_UNMODIFIED`. -/
def queueLockedUnmodified : ℤ := 0

/-- The length of a queue and the size of its items, as `xQueueGenericReset` admits them. -/
structure QueueDims where
  uxLength : ℕ
  uxItemSize : ℕ
  length_pos : 1 ≤ uxLength
  fits : uxItemSize ≤ sizeMax / uxLength

namespace QueueDims

variable (D : QueueDims)

/-- `pcTail`, the end of the storage area. -/
def pcTail : ℕ := D.uxLength * D.uxItemSize

/-- The item at a pointer. -/
def item (pvItemToQueue : ℕ → Byte) : List Byte := (List.range D.uxItemSize).map pvItemToQueue

@[simp] theorem item_length (pvItemToQueue : ℕ → Byte) :
    (D.item pvItemToQueue).length = D.uxItemSize := by
  simp [item]

end QueueDims

/-- `queueSEND_TO_BACK`, `queueSEND_TO_FRONT` and `queueOVERWRITE`. -/
inductive CopyPosition where
  | sendToBack
  | sendToFront
  | overwrite
  deriving DecidableEq, Repr

/-- What a send to this position does to a queue. -/
def CopyPosition.event (xPosition : CopyPosition) (item : List Byte) : QueueEvent (List Byte) :=
  match xPosition with
  | .sendToBack => .back item
  | .sendToFront => .front item
  | .overwrite => .overwrite item

/-- A queue, with the tasks in its event lists.
SOURCE: FreeRTOS-KernelV10.6.2/queue.c:100-133 -/
structure Queue (D : QueueDims) (ι : Type) where
  storage : Region (D.uxLength * D.uxItemSize) Byte
  pcWriteTo : ℕ
  pcReadFrom : ℕ
  uxMessagesWaiting : ℕ
  xTasksWaitingToSend : List ι
  xTasksWaitingToReceive : List ι
  cRxLock : ℤ
  cTxLock : ℤ

namespace Queue

variable {D : QueueDims} {ι : Type}

/-- The items in the storage area, from the front on. -/
def contents (q : Queue D ι) : List (List Byte) :=
  q.storage.slots D.uxLength D.uxItemSize (q.pcReadFrom / D.uxItemSize + 1) q.uxMessagesWaiting

/-- `prvInitialiseNewQueue` in memory that holds anything.
SOURCE: FreeRTOS-KernelV10.6.2/queue.c:296-359 543-588 -/
def prvInitialiseNewQueue (mem : ℕ → Byte) : Queue D ι :=
  { storage := ⟨mem⟩, pcWriteTo := 0, pcReadFrom := (D.uxLength - 1) * D.uxItemSize,
    uxMessagesWaiting := 0, xTasksWaitingToSend := [], xTasksWaitingToReceive := [],
    cRxLock := queueUnlocked, cTxLock := queueUnlocked }

/-- `xQueueGenericCreate`, where `pvPortMalloc` gives this memory or none.
SOURCE: FreeRTOS-KernelV10.6.2/queue.c:477-537 -/
def xQueueGenericCreate (uxQueueLength uxItemSize : ℕ) (mem : Option (ℕ → Byte)) :
    Option (Σ D : QueueDims, Queue D ι) :=
  if h : 0 < uxQueueLength ∧ uxItemSize ≤ sizeMax / uxQueueLength ∧
      uxQueueLength * uxItemSize ≤ sizeMax - sizeofQueue then
    mem.map fun bytes =>
      ⟨⟨uxQueueLength, uxItemSize, h.1, h.2.1⟩, prvInitialiseNewQueue bytes⟩
  else none

/-- `prvCopyDataToQueue`, for a queue that is no mutex.
SOURCE: FreeRTOS-KernelV10.6.2/queue.c:2236-2315 -/
def prvCopyDataToQueue (q : Queue D ι) (pvItemToQueue : ℕ → Byte) (xPosition : CopyPosition) :
    Option (Queue D ι) :=
  if D.uxItemSize = 0 then
    some { q with uxMessagesWaiting := q.uxMessagesWaiting + 1 }
  else
    match xPosition with
    | .sendToBack =>
      (q.storage.copyIn q.pcWriteTo (D.item pvItemToQueue)).map fun storage =>
        { q with
          storage := storage
          pcWriteTo := if D.pcTail ≤ q.pcWriteTo + D.uxItemSize then 0
            else q.pcWriteTo + D.uxItemSize
          uxMessagesWaiting := q.uxMessagesWaiting + 1 }
    | _ =>
      (q.storage.copyIn q.pcReadFrom (D.item pvItemToQueue)).map fun storage =>
        { q with
          storage := storage
          pcReadFrom := if q.pcReadFrom < D.uxItemSize then D.pcTail - D.uxItemSize
            else q.pcReadFrom - D.uxItemSize
          uxMessagesWaiting :=
            if xPosition = .overwrite ∧ 0 < q.uxMessagesWaiting then q.uxMessagesWaiting - 1 + 1
            else q.uxMessagesWaiting + 1 }

/-- `prvCopyDataFromQueue`: the queue with its read pointer moved on, and the item there.
SOURCE: FreeRTOS-KernelV10.6.2/queue.c:2319-2336 -/
def prvCopyDataFromQueue (q : Queue D ι) : Option (Queue D ι × List Byte) :=
  if D.uxItemSize = 0 then some (q, [])
  else
    let pcReadFrom := if D.pcTail ≤ q.pcReadFrom + D.uxItemSize then 0
      else q.pcReadFrom + D.uxItemSize
    (q.storage.copyOut pcReadFrom D.uxItemSize).map fun item =>
      ({ q with pcReadFrom := pcReadFrom }, item)

/-- `xTaskRemoveFromEventList`, if the list is not empty: its head becomes ready.
SOURCE: FreeRTOS-KernelV10.6.2/tasks.c:3230-3295 -/
def unblock (list : List ι) : List ι := list.tail

/-- `prvIncrementQueueTxLock` and `prvIncrementQueueRxLock`, for a system of so many tasks.
SOURCE: FreeRTOS-KernelV10.6.2/queue.c:270-294 -/
def prvIncrementQueueLock (uxNumberOfTasks : ℕ) (lock : ℤ) : Option ℤ :=
  if lock < uxNumberOfTasks then if lock ≠ 127 then some (lock + 1) else none else some lock

/-- An interrupt may use the event lists only while the queue is unlocked; otherwise it counts.
SOURCE: FreeRTOS-KernelV10.6.2/queue.c:1148-1244 1975-2007 -/
def notifyFromISR (uxNumberOfTasks : ℕ) (lock : ℤ) (list : List ι) : Option (ℤ × List ι) :=
  if lock = queueUnlocked then some (lock, unblock list)
  else (prvIncrementQueueLock uxNumberOfTasks lock).map fun lock => (lock, list)

/-- There is room, or none is needed. -/
def Accepts (q : Queue D ι) (xPosition : CopyPosition) : Prop :=
  q.uxMessagesWaiting < D.uxLength ∨ xPosition = .overwrite

instance (q : Queue D ι) (xPosition : CopyPosition) : Decidable (q.Accepts xPosition) :=
  inferInstanceAs (Decidable (_ ∨ _))

/-- The critical section of `xQueueGenericSend` where the queue accepts the item.
SOURCE: FreeRTOS-KernelV10.6.2/queue.c:913-1014 -/
def sendItem (q : Queue D ι) (pvItemToQueue : ℕ → Byte) (xPosition : CopyPosition) :
    Option (Queue D ι) :=
  (q.prvCopyDataToQueue pvItemToQueue xPosition).map fun q =>
    { q with xTasksWaitingToReceive := unblock q.xTasksWaitingToReceive }

/-- The critical section of `xQueueReceive` where there is an item.
SOURCE: FreeRTOS-KernelV10.6.2/queue.c:1460-1487 -/
def takeItem (q : Queue D ι) : Option (Queue D ι × List Byte) :=
  q.prvCopyDataFromQueue.map fun (q', item) =>
    ({ q' with
        uxMessagesWaiting := q.uxMessagesWaiting - 1
        xTasksWaitingToSend := unblock q'.xTasksWaitingToSend }, item)

/-- The critical section of `xQueuePeek` where there is an item.
SOURCE: FreeRTOS-KernelV10.6.2/queue.c:1814-1847 -/
def peekItem (q : Queue D ι) : Option (Queue D ι × List Byte) :=
  q.prvCopyDataFromQueue.map fun (q', item) =>
    ({ q' with
        pcReadFrom := q.pcReadFrom
        xTasksWaitingToReceive := unblock q'.xTasksWaitingToReceive }, item)

/-- `xQueueGenericSendFromISR` where the queue accepts the item.
SOURCE: FreeRTOS-KernelV10.6.2/queue.c:1130-1247 -/
def sendItemFromISR (uxNumberOfTasks : ℕ) (q : Queue D ι) (pvItemToQueue : ℕ → Byte)
    (xPosition : CopyPosition) : Option (Queue D ι) :=
  (q.prvCopyDataToQueue pvItemToQueue xPosition).bind fun q =>
    (notifyFromISR uxNumberOfTasks q.cTxLock q.xTasksWaitingToReceive).map fun (lock, list) =>
      { q with cTxLock := lock, xTasksWaitingToReceive := list }

/-- `xQueueReceiveFromISR` where there is an item.
SOURCE: FreeRTOS-KernelV10.6.2/queue.c:1958-2012 -/
def takeItemFromISR (uxNumberOfTasks : ℕ) (q : Queue D ι) : Option (Queue D ι × List Byte) :=
  q.prvCopyDataFromQueue.bind fun (q', item) =>
    (notifyFromISR uxNumberOfTasks q'.cRxLock q'.xTasksWaitingToSend).map fun (lock, list) =>
      ({ q' with
          uxMessagesWaiting := q.uxMessagesWaiting - 1
          cRxLock := lock
          xTasksWaitingToSend := list }, item)

/-- `xQueuePeekFromISR` where there is an item: nothing changes.
SOURCE: FreeRTOS-KernelV10.6.2/queue.c:2052-2067 -/
def peekItemFromISR (q : Queue D ι) : Option (Queue D ι × List Byte) :=
  q.prvCopyDataFromQueue.map fun (q', item) => ({ q' with pcReadFrom := q.pcReadFrom }, item)

/-- `prvLockQueue`.
SOURCE: FreeRTOS-KernelV10.6.2/queue.c:251-263 -/
def prvLockQueue (q : Queue D ι) : Queue D ι :=
  { q with
    cRxLock := if q.cRxLock = queueUnlocked then queueLockedUnmodified else q.cRxLock
    cTxLock := if q.cTxLock = queueUnlocked then queueLockedUnmodified else q.cTxLock }

/-- The loops of `prvUnlockQueue`: a task is unblocked for each operation counted. -/
def unlockLoop : ℕ → List ι → List ι
  | 0, list => list
  | _ + 1, [] => []
  | lock + 1, _ :: list => unlockLoop lock list

/-- The first critical section of `prvUnlockQueue`.
SOURCE: FreeRTOS-KernelV10.6.2/queue.c:2348-2426 -/
def unlockTx (q : Queue D ι) : Queue D ι :=
  { q with
    xTasksWaitingToReceive := unlockLoop q.cTxLock.toNat q.xTasksWaitingToReceive
    cTxLock := queueUnlocked }

/-- The second critical section of `prvUnlockQueue`.
SOURCE: FreeRTOS-KernelV10.6.2/queue.c:2429-2456 -/
def unlockRx (q : Queue D ι) : Queue D ι :=
  { q with
    xTasksWaitingToSend := unlockLoop q.cRxLock.toNat q.xTasksWaitingToSend
    cRxLock := queueUnlocked }

end Queue

/-- `vTaskPlaceOnEventList`: behind the tasks of the same priority and above.
SOURCE: FreeRTOS-KernelV10.6.2/tasks.c:3144-3166, FreeRTOS-KernelV10.6.2/list.c:128-199 -/
def vTaskPlaceOnEventList {ι : Type} (uxPriority : ι → ℕ) (list : List ι) (t : ι) : List ι :=
  list.takeWhile (fun u => uxPriority t ≤ uxPriority u) ++
    t :: list.dropWhile (fun u => uxPriority t ≤ uxPriority u)

/-- `xTaskCheckForTimeOut`, so many ticks after the time last stored in `xTimeOut`: the ticks
left, and whether the time is over.
SOURCE: FreeRTOS-KernelV10.6.2/tasks.c:3367-3429 -/
def xTaskCheckForTimeOut (elapsed xTicksToWait : ℕ) : ℕ × Bool :=
  if xTicksToWait = portMaxDelay then (xTicksToWait, false)
  else if elapsed < xTicksToWait then (xTicksToWait - elapsed, false)
  else (0, true)

/-- A call of `xQueueGenericSend`, `xQueueReceive` or `xQueuePeek`. -/
inductive QueueCall where
  | send (pvItemToQueue : ℕ → Byte) (xCopyPosition : CopyPosition)
  | receive
  | peek

def QueueCall.isSend : QueueCall → Bool
  | .send _ _ => true
  | _ => false

/-- How a task leaves the locked queue: back to the head of its loop, or out of time. -/
inductive QueueExit where
  | loop
  | expired
  deriving DecidableEq, Repr

/-- Where a task stands in its call: at the critical section at the head of the loop, at
`vTaskSuspendAll`, at `prvLockQueue`, at `xTaskCheckForTimeOut`, at `prvIsQueueFull` or
`prvIsQueueEmpty`, at `vTaskPlaceOnEventList`, at the two critical sections of
`prvUnlockQueue`, at `xTaskResumeAll`, and at the last `prvIsQueueEmpty`. -/
inductive QueuePc where
  | critical
  | suspend
  | lock
  | timeOut
  | test
  | place
  | unlockTx (exit : QueueExit)
  | unlockRx (exit : QueueExit)
  | resume (exit : QueueExit)
  | last
  deriving DecidableEq, Repr

/-- A task in a call. -/
structure QueueTask where
  call : QueueCall
  xTicksToWait : ℕ
  pc : QueuePc

/-- `N` tasks and their interrupts at a queue. `suspender` has suspended the scheduler, and
`log` are the operations done on the queue. -/
structure QueueSystem (D : QueueDims) (N : ℕ) where
  q : Queue D (Fin N)
  task : Fin N → Option QueueTask
  suspender : Option (Fin N)
  log : List (QueueEvent (List Byte))

/-- A task begins a call, takes a step of it, its time on an event list is over; an interrupt
uses the queue. `elapsed` is what `xTaskCheckForTimeOut` would find. -/
inductive QueueLabel (N : ℕ) where
  | call (t : Fin N) (call : QueueCall) (xTicksToWait : ℕ)
  | step (t : Fin N) (elapsed : ℕ)
  | tick (t : Fin N)
  | sendFromISR (pvItemToQueue : ℕ → Byte) (xCopyPosition : CopyPosition)
  | receiveFromISR
  | peekFromISR

namespace QueueSystem

variable {D : QueueDims} {N : ℕ} (uxPriority : Fin N → ℕ)

/-- No task is in a call. -/
def start (q : Queue D (Fin N)) : QueueSystem D N :=
  { q := q, task := fun _ => none, suspender := none, log := [] }

/-- A task is at another place of its call, or in none. -/
def setTask (s : QueueSystem D N) (t : Fin N) (task : Option QueueTask) : QueueSystem D N :=
  { s with task := Function.update s.task t task }

/-- The queue after an operation. -/
def logged (s : QueueSystem D N) (q : Queue D (Fin N)) (e : QueueEvent (List Byte)) :
    QueueSystem D N :=
  { s with q := q, log := s.log ++ [e] }

/-- A task may run: it is not on an event list, and no other one has suspended the
scheduler. A task that has suspended it goes on, also on an event list. -/
def Runs (s : QueueSystem D N) (t : Fin N) : Prop :=
  s.suspender = some t ∨ s.suspender = none ∧
    t ∉ s.q.xTasksWaitingToSend ∧ t ∉ s.q.xTasksWaitingToReceive

instance (s : QueueSystem D N) (t : Fin N) : Decidable (s.Runs t) :=
  inferInstanceAs (Decidable (_ ∨ _))

/-- The assertion on `queueOVERWRITE` in the sends.
SOURCE: FreeRTOS-KernelV10.6.2/queue.c:895 1107 -/
def assertSend (D : QueueDims) (xCopyPosition : CopyPosition) : Prop :=
  xCopyPosition = .overwrite → D.uxLength = 1

instance (xCopyPosition : CopyPosition) : Decidable (assertSend D xCopyPosition) :=
  inferInstanceAs (Decidable (_ → _))

/-- The assertions at the start of a call. -/
def assertCall (D : QueueDims) : QueueCall → Prop
  | .send _ xCopyPosition => assertSend D xCopyPosition
  | _ => True

instance (call : QueueCall) : Decidable (assertCall D call) := by
  cases call <;> (unfold assertCall; infer_instance)

/-- A call that does not find what it needs returns, or goes on to block.
SOURCE: FreeRTOS-KernelV10.6.2/queue.c:1016-1043 1489-1513 1849-1874 -/
def miss (s : QueueSystem D N) (t : Fin N) (k : QueueTask) : QueueSystem D N :=
  if k.xTicksToWait = 0 then s.setTask t none else s.setTask t (some { k with pc := .suspend })

/-- The critical section at the head of the loop.
SOURCE: FreeRTOS-KernelV10.6.2/queue.c:907-1043 1454-1513 1808-1874 -/
def attempt (s : QueueSystem D N) (t : Fin N) (k : QueueTask) : Option (QueueSystem D N) :=
  match k.call with
  | .send pvItemToQueue xCopyPosition =>
    if s.q.Accepts xCopyPosition then
      (s.q.sendItem pvItemToQueue xCopyPosition).map fun q =>
        (s.logged q (xCopyPosition.event (D.item pvItemToQueue))).setTask t none
    else some (s.miss t k)
  | .receive =>
    if 0 < s.q.uxMessagesWaiting then
      s.q.takeItem.map fun (q, item) => (s.logged q (.received item)).setTask t none
    else some (s.miss t k)
  | .peek =>
    if 0 < s.q.uxMessagesWaiting then
      s.q.peekItem.map fun (q, item) => (s.logged q (.peeked item)).setTask t none
    else some (s.miss t k)

/-- `prvIsQueueFull` in a send, `prvIsQueueEmpty` in the other calls.
SOURCE: FreeRTOS-KernelV10.6.2/queue.c:2460-2479 2501-2520 -/
def mustWait (s : QueueSystem D N) (call : QueueCall) : Bool :=
  if call.isSend then s.q.uxMessagesWaiting == D.uxLength else s.q.uxMessagesWaiting == 0

/-- A task goes on the event list of its call. -/
def place (s : QueueSystem D N) (t : Fin N) (call : QueueCall) : QueueSystem D N :=
  if call.isSend then
    { s with q := { s.q with
      xTasksWaitingToSend := vTaskPlaceOnEventList uxPriority s.q.xTasksWaitingToSend t } }
  else
    { s with q := { s.q with
      xTasksWaitingToReceive := vTaskPlaceOnEventList uxPriority s.q.xTasksWaitingToReceive t } }

/-- A step of a task in a call.
SOURCE: FreeRTOS-KernelV10.6.2/queue.c:905-1092 1452-1566 1806-1927 -/
def taskStep (s : QueueSystem D N) (t : Fin N) (k : QueueTask) (elapsed : ℕ) :
    Option (QueueSystem D N) :=
  match k.pc with
  | .critical => s.attempt t k
  | .suspend => some ({ s with suspender := some t }.setTask t (some { k with pc := .lock }))
  | .lock => some ({ s with q := s.q.prvLockQueue }.setTask t (some { k with pc := .timeOut }))
  | .timeOut =>
    let (left, expired) := xTaskCheckForTimeOut elapsed k.xTicksToWait
    some (s.setTask t (some { k with
      xTicksToWait := left
      pc := if expired then .unlockTx .expired else .test }))
  | .test =>
    some (s.setTask t (some { k with
      pc := if s.mustWait k.call then .place else .unlockTx .loop }))
  | .place => some ((s.place uxPriority t k.call).setTask t (some { k with pc := .unlockTx .loop }))
  | .unlockTx exit =>
    some ({ s with q := s.q.unlockTx }.setTask t (some { k with pc := .unlockRx exit }))
  | .unlockRx exit =>
    some ({ s with q := s.q.unlockRx }.setTask t (some { k with pc := .resume exit }))
  | .resume .loop => some ({ s with suspender := none }.setTask t (some { k with pc := .critical }))
  | .resume .expired =>
    some ({ s with suspender := none }.setTask t
      (if k.call.isSend then none else some { k with pc := .last }))
  | .last =>
    some (s.setTask t
      (if s.q.uxMessagesWaiting = 0 then none else some { k with pc := .critical }))

/-- A step of the system. The tick takes a task whose time is over from its event list, unless
the scheduler is suspended. -/
def step (s : QueueSystem D N) : QueueLabel N → Option (QueueSystem D N)
  | .call t call xTicksToWait =>
    if s.suspender = none ∧ s.task t = none ∧ assertCall D call then
      some (s.setTask t (some ⟨call, xTicksToWait, .critical⟩))
    else none
  | .step t elapsed =>
    match s.task t with
    | none => none
    | some k => if s.Runs t then s.taskStep uxPriority t k elapsed else none
  | .tick t =>
    if s.suspender = none then
      some { s with q := { s.q with
        xTasksWaitingToSend := s.q.xTasksWaitingToSend.erase t
        xTasksWaitingToReceive := s.q.xTasksWaitingToReceive.erase t } }
    else none
  | .sendFromISR pvItemToQueue xCopyPosition =>
    if assertSend D xCopyPosition then
      if s.q.Accepts xCopyPosition then
        (s.q.sendItemFromISR N pvItemToQueue xCopyPosition).map fun q =>
          s.logged q (xCopyPosition.event (D.item pvItemToQueue))
      else some s
    else none
  | .receiveFromISR =>
    if 0 < s.q.uxMessagesWaiting then
      (s.q.takeItemFromISR N).map fun (q, item) => s.logged q (.received item)
    else some s
  | .peekFromISR =>
    if D.uxItemSize = 0 then none
    else if 0 < s.q.uxMessagesWaiting then
      s.q.peekItemFromISR.map fun (q, item) => s.logged q (.peeked item)
    else some s

def machine : Machine (QueueSystem D N) (QueueLabel N) := ⟨step uxPriority⟩

end QueueSystem

end PicoDrone.Model
