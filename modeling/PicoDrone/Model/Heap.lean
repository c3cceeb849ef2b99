import PicoDrone.Library.Machine
import PicoDrone.Library.Memory
import PicoDrone.Model.Word

/-!
# The heap of the kernel

`pvPortMalloc`, `pvPortCalloc` and `vPortFree` of `heap_4.c`, from which the tasks, the queues
and the semaphores of the firmware are allocated. The free blocks are a list threaded through the
memory that is handed out, in the order of their addresses: the memory here is bytes by
address, a pointer is an address, and what a caller writes into its block lies beside the
links of the list.

The calls run with the scheduler suspended, so one call is one step. A loop that does not come
to its end, and an assertion that fails where assertions are compiled in, is a fault.
-/

set_option autoImplicit false

namespace PicoDrone.Model

open PicoDrone.Library

/-- `configTOTAL_HEAP_SIZE`.
SOURCE: FreeRTOSConfig.h:76 -/
def configTotalHeapSize : ℕ := 128 * 1024

/-- `portBYTE_ALIGNMENT`.
SOURCE: FreeRTOS-KernelV10.6.2/portable/ThirdParty/GCC/RP2040/include/portmacro.h:81 -/
def portByteAlignment : ℕ := 8

/-- `portBYTE_ALIGNMENT_MASK`. -/
def portByteAlignmentMask : ℕ := 0x0007

/-- `x & ~portBYTE_ALIGNMENT_MASK`. -/
def clearAlignmentBits (x : ℕ) : ℕ := x - (x &&& portByteAlignmentMask)

/-- `sizeof( BlockLink_t )`: a pointer and a `size_t`. -/
def sizeofBlockLink : ℕ := 8

/-- `xHeapStructSize`.
SOURCE: FreeRTOS-KernelV10.6.2/portable/MemMang/heap_4.c:123 -/
def xHeapStructSize : ℕ := clearAlignmentBits (sizeofBlockLink + (portByteAlignment - 1))

/-- `heapMINIMUM_BLOCK_SIZE`. -/
def heapMinimumBlockSize : ℕ := xHeapStructSize <<< 1

/-- `heapSIZE_MAX`. -/
def heapSizeMax : ℕ := 2 ^ 32 - 1

/-- `heapMULTIPLY_WILL_OVERFLOW`. -/
def heapMultiplyWillOverflow (a b : ℕ) : Bool := 0 < a && heapSizeMax / a < b

/-- `heapADD_WILL_OVERFLOW`. -/
def heapAddWillOverflow (a b : ℕ) : Bool := heapSizeMax - b < a

/-- `heapBLOCK_ALLOCATED_BITMASK`. -/
def heapBlockAllocatedBitmask : ℕ := 1 <<< 31

/-- `heapBLOCK_SIZE_IS_VALID`. -/
def heapBlockSizeIsValid (xBlockSize : ℕ) : Bool := xBlockSize &&& heapBlockAllocatedBitmask = 0

/-- What a run of the heap's code can end in beside a result. -/
inductive HeapFault where
  | assertFailed
  | noEnd
  deriving DecidableEq, Repr

/-- What the build decides: where `ucHeap` and `xStart` lie, and whether `assert` is compiled
in. -/
structure HeapBuild where
  ucHeap : ℕ
  xStart : ℕ
  ndebug : Bool
  ucHeap_pos : 0 < ucHeap
  ucHeap_fits : ucHeap + configTotalHeapSize ≤ 2 ^ 32
  xStart_fits : xStart + sizeofBlockLink ≤ 2 ^ 32
  apart : xStart + sizeofBlockLink ≤ ucHeap ∨ ucHeap + configTotalHeapSize ≤ xStart

/-- `configASSERT`.
SOURCE: FreeRTOSConfig.h:135 -/
def configAssert (B : HeapBuild) (x : Bool) : Except HeapFault Unit :=
  if B.ndebug || x then .ok () else .error .assertFailed

/-- The memory and the static variables of `heap_4.c`. -/
structure Heap where
  mem : Memory
  pxEnd : ℕ
  xFreeBytesRemaining : ℕ
  xMinimumEverFreeBytesRemaining : ℕ
  xNumberOfSuccessfulAllocations : ℕ
  xNumberOfSuccessfulFrees : ℕ

section BlockLink

variable (m : Memory) (pxBlock : ℕ)

/-- `pxBlock->pxNextFreeBlock`. -/
def pxNextFreeBlock : ℕ := m.word pxBlock

/-- `pxBlock->xBlockSize`. -/
def xBlockSize : ℕ := m.word (pxBlock + 4)

/-- A store into `pxBlock->pxNextFreeBlock`. -/
def setNextFreeBlock (p : ℕ) : Memory := m.setWord pxBlock p

/-- A store into `pxBlock->xBlockSize`. -/
def setBlockSize (size : ℕ) : Memory := m.setWord (pxBlock + 4) size

/-- `heapBLOCK_IS_ALLOCATED`. -/
def heapBlockIsAllocated : Bool := xBlockSize m pxBlock &&& heapBlockAllocatedBitmask ≠ 0

/-- `heapALLOCATE_BLOCK`. -/
def heapAllocateBlock : Memory :=
  setBlockSize m pxBlock (xBlockSize m pxBlock ||| heapBlockAllocatedBitmask)

/-- `heapFREE_BLOCK`. -/
def heapFreeBlock : Memory :=
  setBlockSize m pxBlock (xBlockSize m pxBlock &&& (heapSizeMax - heapBlockAllocatedBitmask))

end BlockLink

/-- More than the turns that a loop over the free blocks can take. -/
def heapTurns : ℕ := configTotalHeapSize

/-- The loop of `prvInsertBlockIntoFreeList`: the block behind which to insert.
SOURCE: FreeRTOS-KernelV10.6.2/portable/MemMang/heap_4.c:447-452 -/
def findInsertPosition (m : Memory) (pxBlockToInsert : ℕ) : ℕ → ℕ → Except HeapFault ℕ
  | 0, _ => .error .noEnd
  | turns + 1, pxIterator =>
    if pxNextFreeBlock m pxIterator < pxBlockToInsert then
      findInsertPosition m pxBlockToInsert turns (pxNextFreeBlock m pxIterator)
    else .ok pxIterator

/-- The block joined with the one before it, if they touch: the memory and the block that is
then to be linked.
SOURCE: FreeRTOS-KernelV10.6.2/portable/MemMang/heap_4.c:454-466 -/
def joinBefore (m : Memory) (pxIterator pxBlockToInsert : ℕ) : Memory × ℕ :=
  if u32 (pxIterator + xBlockSize m pxIterator) = pxBlockToInsert then
    (setBlockSize m pxIterator (xBlockSize m pxIterator + xBlockSize m pxBlockToInsert), pxIterator)
  else (m, pxBlockToInsert)

/-- The block joined with the one behind it, if they touch, and its link.
SOURCE: FreeRTOS-KernelV10.6.2/portable/MemMang/heap_4.c:468-488 -/
def joinBehind (pxEnd : ℕ) (m : Memory) (pxIterator pxBlockToInsert : ℕ) : Memory :=
  if u32 (pxBlockToInsert + xBlockSize m pxBlockToInsert) = pxNextFreeBlock m pxIterator then
    if pxNextFreeBlock m pxIterator ≠ pxEnd then
      let m := setBlockSize m pxBlockToInsert
        (xBlockSize m pxBlockToInsert + xBlockSize m (pxNextFreeBlock m pxIterator))
      setNextFreeBlock m pxBlockToInsert (pxNextFreeBlock m (pxNextFreeBlock m pxIterator))
    else setNextFreeBlock m pxBlockToInsert pxEnd
  else setNextFreeBlock m pxBlockToInsert (pxNextFreeBlock m pxIterator)

/-- `prvInsertBlockIntoFreeList`.
SOURCE: FreeRTOS-KernelV10.6.2/portable/MemMang/heap_4.c:442-502 -/
def prvInsertBlockIntoFreeList (B : HeapBuild) (pxEnd : ℕ) (m : Memory) (pxBlockToInsert : ℕ) :
    Except HeapFault Memory := do
  let pxIterator ← findInsertPosition m pxBlockToInsert heapTurns B.xStart
  let joined := joinBefore m pxIterator pxBlockToInsert
  let m := joinBehind pxEnd joined.1 pxIterator joined.2
  .ok (if pxIterator ≠ joined.2 then setNextFreeBlock m pxIterator joined.2 else m)

/-- `pucAlignedHeap`. -/
def HeapBuild.pucAlignedHeap (B : HeapBuild) : ℕ :=
  if B.ucHeap &&& portByteAlignmentMask ≠ 0 then
    clearAlignmentBits (B.ucHeap + (portByteAlignment - 1))
  else B.ucHeap

/-- `xTotalHeapSize`, after `ucHeap` has been aligned. -/
def HeapBuild.xTotalHeapSize (B : HeapBuild) : ℕ :=
  configTotalHeapSize - (B.pucAlignedHeap - B.ucHeap)

/-- The value of `pxEnd`. -/
def HeapBuild.endMarker (B : HeapBuild) : ℕ :=
  clearAlignmentBits (B.pucAlignedHeap + B.xTotalHeapSize - xHeapStructSize)

/-- `prvHeapInit`.
SOURCE: FreeRTOS-KernelV10.6.2/portable/MemMang/heap_4.c:397-439 -/
def prvHeapInit (B : HeapBuild) (h : Heap) : Heap :=
  let pxFirstFreeBlock := B.pucAlignedHeap
  let m := setNextFreeBlock h.mem B.xStart B.pucAlignedHeap
  let m := setBlockSize m B.xStart 0
  let m := setBlockSize m B.endMarker 0
  let m := setNextFreeBlock m B.endMarker 0
  let m := setBlockSize m pxFirstFreeBlock (B.endMarker - pxFirstFreeBlock)
  let m := setNextFreeBlock m pxFirstFreeBlock B.endMarker
  { h with
    mem := m
    pxEnd := B.endMarker
    xMinimumEverFreeBytesRemaining := xBlockSize m pxFirstFreeBlock
    xFreeBytesRemaining := xBlockSize m pxFirstFreeBlock }

/-- The size of the block for a wanted size, or 0 where it would overflow.
SOURCE: FreeRTOS-KernelV10.6.2/portable/MemMang/heap_4.c:159-196 -/
def blockSizeFor (xWantedSize : ℕ) : ℕ :=
  if 0 < xWantedSize then
    if heapAddWillOverflow xWantedSize xHeapStructSize = false then
      let xWantedSize := xWantedSize + xHeapStructSize
      if xWantedSize &&& portByteAlignmentMask ≠ 0 then
        let xAdditionalRequiredSize := portByteAlignment - (xWantedSize &&& portByteAlignmentMask)
        if heapAddWillOverflow xWantedSize xAdditionalRequiredSize = false then
          xWantedSize + xAdditionalRequiredSize
        else 0
      else xWantedSize
    else 0
  else xWantedSize

/-- The loop of `pvPortMalloc`: the first free block that is large enough, or the end marker,
behind the block that links to it.
SOURCE: FreeRTOS-KernelV10.6.2/portable/MemMang/heap_4.c:206-215 -/
def findBlock (m : Memory) (xWantedSize : ℕ) : ℕ → ℕ → ℕ → Except HeapFault (ℕ × ℕ)
  | 0, _, _ => .error .noEnd
  | turns + 1, pxPreviousBlock, pxBlock =>
    if xBlockSize m pxBlock < xWantedSize ∧ pxNextFreeBlock m pxBlock ≠ 0 then
      findBlock m xWantedSize turns pxBlock (pxNextFreeBlock m pxBlock)
    else .ok (pxPreviousBlock, pxBlock)

/-- A block too large cut into two, with the rest put back into the list.
SOURCE: FreeRTOS-KernelV10.6.2/portable/MemMang/heap_4.c:229-250 -/
def splitBlock (B : HeapBuild) (pxEnd : ℕ) (m : Memory) (pxBlock xWantedSize : ℕ) :
    Except HeapFault Memory :=
  if heapMinimumBlockSize < u32 (xBlockSize m pxBlock - xWantedSize) then do
    let pxNewBlockLink := u32 (pxBlock + xWantedSize)
    configAssert B (pxNewBlockLink &&& portByteAlignmentMask = 0)
    let m := setBlockSize m pxNewBlockLink (u32 (xBlockSize m pxBlock - xWantedSize))
    let m := setBlockSize m pxBlock xWantedSize
    prvInsertBlockIntoFreeList B pxEnd m pxNewBlockLink
  else .ok m

/-- The block that was found, taken out of the list and handed out.
SOURCE: FreeRTOS-KernelV10.6.2/portable/MemMang/heap_4.c:221-268 -/
def takeBlock (B : HeapBuild) (h : Heap) (pxPreviousBlock pxBlock xWantedSize : ℕ) :
    Except HeapFault (Heap × ℕ) := do
  let pvReturn := u32 (pxNextFreeBlock h.mem pxPreviousBlock + xHeapStructSize)
  let m := setNextFreeBlock h.mem pxPreviousBlock (pxNextFreeBlock h.mem pxBlock)
  let m ← splitBlock B h.pxEnd m pxBlock xWantedSize
  let xFreeBytesRemaining := u32 (h.xFreeBytesRemaining - xBlockSize m pxBlock)
  .ok ({ h with
    mem := setNextFreeBlock (heapAllocateBlock m pxBlock) pxBlock 0
    xFreeBytesRemaining := xFreeBytesRemaining
    xMinimumEverFreeBytesRemaining :=
      if xFreeBytesRemaining < h.xMinimumEverFreeBytesRemaining then xFreeBytesRemaining
      else h.xMinimumEverFreeBytesRemaining
    xNumberOfSuccessfulAllocations := u32 (h.xNumberOfSuccessfulAllocations + 1) }, pvReturn)

/-- The part of `pvPortMalloc` behind the call of `prvHeapInit`.
SOURCE: FreeRTOS-KernelV10.6.2/portable/MemMang/heap_4.c:198-283 -/
def allocate (B : HeapBuild) (h : Heap) (xWantedSize : ℕ) : Except HeapFault (Heap × ℕ) :=
  if heapBlockSizeIsValid xWantedSize then
    if 0 < xWantedSize ∧ xWantedSize ≤ h.xFreeBytesRemaining then do
      let found ← findBlock h.mem xWantedSize heapTurns B.xStart (pxNextFreeBlock h.mem B.xStart)
      if found.2 ≠ h.pxEnd then takeBlock B h found.1 found.2 xWantedSize else .ok (h, 0)
    else .ok (h, 0)
  else .ok (h, 0)

/-- `pvPortMalloc`: the heap and the pointer that is returned, 0 for `NULL`.
SOURCE: FreeRTOS-KernelV10.6.2/portable/MemMang/heap_4.c:138-304 -/
def pvPortMalloc (B : HeapBuild) (h : Heap) (xWantedSize : ℕ) : Except HeapFault (Heap × ℕ) := do
  let h := if h.pxEnd = 0 then prvHeapInit B h else h
  let result ← allocate B h (blockSizeFor xWantedSize)
  configAssert B (result.2 &&& portByteAlignmentMask = 0)
  .ok result

/-- `vPortFree`.
SOURCE: FreeRTOS-KernelV10.6.2/portable/MemMang/heap_4.c:307-357 -/
def vPortFree (B : HeapBuild) (h : Heap) (pv : ℕ) : Except HeapFault Heap :=
  if pv ≠ 0 then do
    let pxLink := u32 (pv - xHeapStructSize)
    configAssert B (heapBlockIsAllocated h.mem pxLink)
    configAssert B (pxNextFreeBlock h.mem pxLink = 0)
    if heapBlockIsAllocated h.mem pxLink then
      if pxNextFreeBlock h.mem pxLink = 0 then do
        let m := heapFreeBlock h.mem pxLink
        let xFreeBytesRemaining := u32 (h.xFreeBytesRemaining + xBlockSize m pxLink)
        let m ← prvInsertBlockIntoFreeList B h.pxEnd m pxLink
        .ok { h with
          mem := m
          xFreeBytesRemaining := xFreeBytesRemaining
          xNumberOfSuccessfulFrees := u32 (h.xNumberOfSuccessfulFrees + 1) }
      else .ok h
    else .ok h
  else .ok h

/-- `pvPortCalloc`.
SOURCE: FreeRTOS-KernelV10.6.2/portable/MemMang/heap_4.c:378-394 -/
def pvPortCalloc (B : HeapBuild) (h : Heap) (xNum xSize : ℕ) : Except HeapFault (Heap × ℕ) :=
  if heapMultiplyWillOverflow xNum xSize = false then do
    let result ← pvPortMalloc B h (xNum * xSize)
    .ok (if result.2 ≠ 0 then
        ({ result.1 with mem := result.1.mem.fill result.2 0 (xNum * xSize) }, result.2)
      else result)
  else .ok (h, 0)

/-- `HeapStats_t`.
SOURCE: FreeRTOS-KernelV10.6.2/include/portable.h:144-153 -/
structure HeapStats where
  xAvailableHeapSpaceInBytes : ℕ
  xSizeOfLargestFreeBlockInBytes : ℕ
  xSizeOfSmallestFreeBlockInBytes : ℕ
  xNumberOfFreeBlocks : ℕ
  xMinimumEverFreeBytesRemaining : ℕ
  xNumberOfSuccessfulAllocations : ℕ
  xNumberOfSuccessfulFrees : ℕ
  deriving DecidableEq, Repr

/-- The loop of `vPortGetHeapStats`: `xBlocks`, `xMaxSize` and `xMinSize` at its end.
SOURCE: FreeRTOS-KernelV10.6.2/portable/MemMang/heap_4.c:512-538 -/
def countBlocks (m : Memory) (pxEnd : ℕ) : ℕ → ℕ → ℕ × ℕ × ℕ → Except HeapFault (ℕ × ℕ × ℕ)
  | 0, _, _ => .error .noEnd
  | turns + 1, pxBlock, (xBlocks, xMaxSize, xMinSize) =>
    if pxBlock ≠ pxEnd then
      countBlocks m pxEnd turns (pxNextFreeBlock m pxBlock)
        (u32 (xBlocks + 1),
          if xMaxSize < xBlockSize m pxBlock then xBlockSize m pxBlock else xMaxSize,
          if xBlockSize m pxBlock < xMinSize then xBlockSize m pxBlock else xMinSize)
    else .ok (xBlocks, xMaxSize, xMinSize)

/-- `vPortGetHeapStats`.
SOURCE: FreeRTOS-KernelV10.6.2/portable/MemMang/heap_4.c:505-554 -/
def vPortGetHeapStats (B : HeapBuild) (h : Heap) : Except HeapFault HeapStats := do
  let pxBlock := pxNextFreeBlock h.mem B.xStart
  let counted ← if pxBlock ≠ 0 then countBlocks h.mem h.pxEnd heapTurns pxBlock (0, 0, heapSizeMax)
    else .ok (0, 0, heapSizeMax)
  .ok
    { xAvailableHeapSpaceInBytes := h.xFreeBytesRemaining
      xSizeOfLargestFreeBlockInBytes := counted.2.1
      xSizeOfSmallestFreeBlockInBytes := counted.2.2
      xNumberOfFreeBlocks := counted.1
      xMinimumEverFreeBytesRemaining := h.xMinimumEverFreeBytesRemaining
      xNumberOfSuccessfulAllocations := h.xNumberOfSuccessfulAllocations
      xNumberOfSuccessfulFrees := h.xNumberOfSuccessfulFrees }

/-- What the callers do: the calls, and a store into a block that one of them holds. -/
inductive HeapCall where
  | malloc (xWantedSize : ℕ)
  | calloc (xNum xSize : ℕ)
  | free (pv : ℕ)
  | write (pv i : ℕ) (byte : Byte)
  deriving DecidableEq, Repr

/-- The heap with the pointers that its callers hold and the sizes they asked for. -/
structure HeapSystem where
  heap : Heap
  held : List (ℕ × ℕ)

/-- The system when the call has returned a pointer for this many bytes. -/
def HeapSystem.handOut (s : HeapSystem) (n : ℕ) : Except HeapFault (Heap × ℕ) → Option HeapSystem
  | .ok (h, pv) => some ⟨h, if pv = 0 then s.held else (pv, n) :: s.held⟩
  | .error _ => none

/-- The callers free what they hold, or `NULL`, and write where they hold the bytes. -/
def heapMachine (B : HeapBuild) : Machine HeapSystem HeapCall where
  step s
    | .malloc n => if n ≤ heapSizeMax then s.handOut n (pvPortMalloc B s.heap n) else none
    | .calloc xNum xSize =>
      if xNum ≤ heapSizeMax ∧ xSize ≤ heapSizeMax then
        s.handOut (xNum * xSize) (pvPortCalloc B s.heap xNum xSize)
      else none
    | .free pv =>
      if pv = 0 ∨ pv ∈ s.held.map Prod.fst then
        (vPortFree B s.heap pv).toOption.map fun h => ⟨h, s.held.filter fun x => x.1 ≠ pv⟩
      else none
    | .write pv i byte =>
      if s.held.any fun x => x.1 = pv && i < x.2 then
        some ⟨{ s.heap with mem := s.heap.mem.setByte (pv + i) byte }, s.held⟩
      else none

/-- The heap before the first call, in memory that holds anything but for `xStart`, which lies
in zeroed memory. -/
def Heap.Unused (B : HeapBuild) (h : Heap) : Prop :=
  pxNextFreeBlock h.mem B.xStart = 0 ∧ h.pxEnd = 0 ∧ h.xFreeBytesRemaining = 0 ∧
    h.xMinimumEverFreeBytesRemaining = 0 ∧ h.xNumberOfSuccessfulAllocations = 0 ∧
    h.xNumberOfSuccessfulFrees = 0

/-- The system before the first call. -/
def HeapSystem.AtStart (B : HeapBuild) (s : HeapSystem) : Prop := s.heap.Unused B ∧ s.held = []

end PicoDrone.Model
