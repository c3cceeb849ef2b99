import PicoDrone.Model.Queue

/-!
# The storage area of a queue

The two pointers into the storage area of a queue go round it as the slots of a ring: each of
the copies of `queue.c` stays inside, and does to the contents what the operation does to a
bounded queue (`copyTo_spec`, `takeItem_spec`, `peekItem_spec`). Each critical section that
uses the queue is then one operation of a bounded queue.
-/

set_option autoImplicit false

namespace PicoDrone.Analysis

open PicoDrone.Library PicoDrone.Model PicoDrone.Model.Queue

variable {D : QueueDims} {ι : Type}

/-- The pointers stand at slots, with the items between them. -/
def Placed (q : Queue D ι) : Prop :=
  ∃ slot < D.uxLength, q.pcReadFrom = slot * D.uxItemSize ∧
    q.pcWriteTo = (slot + 1 + q.uxMessagesWaiting) % D.uxLength * D.uxItemSize ∧
    q.uxMessagesWaiting ≤ D.uxLength

/-- The event lists and the locks are the same. -/
structure SameWaiting (q q' : Queue D ι) : Prop where
  send : q'.xTasksWaitingToSend = q.xTasksWaitingToSend
  receive : q'.xTasksWaitingToReceive = q.xTasksWaitingToReceive
  rx : q'.cRxLock = q.cRxLock
  tx : q'.cTxLock = q.cTxLock

/-- A position that a send may use: a queue that is overwritten has one item, of some size. -/
def Legal (D : QueueDims) (xPosition : CopyPosition) : Prop :=
  xPosition = .overwrite → D.uxLength = 1 ∧ D.uxItemSize ≠ 0

@[simp] theorem contents_length (q : Queue D ι) : q.contents.length = q.uxMessagesWaiting := by
  simp [Queue.contents]

/-- INTERNAL: slots without cells. -/
theorem slots_of_size_zero {n size : ℕ} (r : Region n Byte) (count start len : ℕ)
    (hzero : size = 0) : r.slots count size start len = List.replicate len [] := by
  simp [Region.slots, Region.slice, hzero]

theorem contents_of_size_zero (q : Queue D ι) (hzero : D.uxItemSize = 0) :
    q.contents = List.replicate q.uxMessagesWaiting [] :=
  slots_of_size_zero _ _ _ _ hzero

theorem contents_eq {q : Queue D ι} (slot : ℕ) (h : q.pcReadFrom = slot * D.uxItemSize) :
    q.contents =
      q.storage.slots D.uxLength D.uxItemSize (slot + 1) q.uxMessagesWaiting := by
  unfold Queue.contents
  rw [h]
  obtain hzero | hpos := Nat.eq_zero_or_pos D.uxItemSize
  · rw [slots_of_size_zero _ _ _ _ hzero, slots_of_size_zero _ _ _ _ hzero]
  · rw [Nat.mul_div_cancel slot hpos]

/-- INTERNAL: a pointer that goes on by one item, back to the head at the tail. -/
theorem next_slot {count size slot : ℕ} (hslot : slot < count) (hsize : 0 < size) :
    (if count * size ≤ slot * size + size then 0 else slot * size + size) =
      (slot + 1) % count * size := by
  have hiff : count * size ≤ slot * size + size ↔ count ≤ slot + 1 := by
    rw [← Nat.succ_mul]
    exact Nat.mul_le_mul_right_iff hsize
  by_cases hlast : slot + 1 = count
  · rw [if_pos (hiff.mpr hlast.ge), hlast, Nat.mod_self, Nat.zero_mul]
  · rw [if_neg fun h => hlast (Nat.le_antisymm hslot (hiff.mp h)),
      Nat.mod_eq_of_lt (by omega), Nat.add_mul, Nat.one_mul]

/-- INTERNAL: a pointer that goes back by one item, to the last one at the head. -/
theorem prev_slot {count size slot : ℕ} (hslot : slot < count) (hsize : 0 < size) :
    ∃ slot' < count, (slot' + 1) % count = slot ∧
      (if slot * size < size then count * size - size else slot * size - size) =
        slot' * size := by
  cases slot with
  | zero =>
    refine ⟨count - 1, by omega, ?_, ?_⟩
    · rw [Nat.sub_add_cancel (by omega), Nat.mod_self]
    · rw [if_pos (by omega), Nat.sub_mul, Nat.one_mul]
  | succ slot =>
    refine ⟨slot, by omega, Nat.mod_eq_of_lt hslot, ?_⟩
    rw [if_neg (by rw [Nat.succ_mul]; omega), Nat.succ_mul, Nat.add_sub_cancel]

theorem placed_init (mem : ℕ → Byte) :
    Placed (prvInitialiseNewQueue mem : Queue D ι) ∧
      (prvInitialiseNewQueue mem : Queue D ι).contents = [] := by
  have hpos := D.length_pos
  refine ⟨⟨D.uxLength - 1, by omega, rfl, ?_, Nat.zero_le _⟩, rfl⟩
  simp [prvInitialiseNewQueue, Nat.sub_add_cancel hpos]

/-- INTERNAL: an item of no size is only counted. -/
theorem copyTo_of_size_zero {q : Queue D ι} (hq : Placed q) (hzero : D.uxItemSize = 0)
    (pvItemToQueue : ℕ → Byte) {xPosition : CopyPosition} (hlegal : Legal D xPosition)
    (hroom : q.Accepts xPosition) :
    ∃ q', q.prvCopyDataToQueue pvItemToQueue xPosition = some q' ∧ Placed q' ∧
      SameWaiting q q' ∧ (boundedQueue (List Byte) D.uxLength).step q.contents
        (xPosition.event (D.item pvItemToQueue)) = some q'.contents := by
  have hne : xPosition ≠ .overwrite := fun h => (hlegal h).2 hzero
  have hlt : q.uxMessagesWaiting < D.uxLength := hroom.resolve_right hne
  obtain ⟨slot, hslot, hread, hwrite, -⟩ := hq
  refine ⟨{ q with uxMessagesWaiting := q.uxMessagesWaiting + 1 }, if_pos hzero,
    ⟨slot, hslot, hread, ?_, hlt⟩, ⟨rfl, rfl, rfl, rfl⟩, ?_⟩
  · simp only [hwrite, hzero, Nat.mul_zero]
  · have hitem : D.item pvItemToQueue = [] := by simp [QueueDims.item, hzero]
    rw [contents_of_size_zero _ hzero, contents_of_size_zero _ hzero, hitem]
    cases xPosition with
    | sendToBack => simp [boundedQueue, CopyPosition.event, hlt, List.replicate_succ']
    | sendToFront => simp [boundedQueue, CopyPosition.event, hlt, List.replicate_succ]
    | overwrite => exact absurd rfl hne

theorem copyTo_back {q : Queue D ι} (hq : Placed q) (hsize : 0 < D.uxItemSize)
    (pvItemToQueue : ℕ → Byte) (hlt : q.uxMessagesWaiting < D.uxLength) :
    ∃ q', q.prvCopyDataToQueue pvItemToQueue .sendToBack = some q' ∧ Placed q' ∧
      SameWaiting q q' ∧ q'.contents = q.contents ++ [D.item pvItemToQueue] := by
  obtain ⟨slot, hslot, hread, hwrite, -⟩ := hq
  have hmod : (slot + 1 + q.uxMessagesWaiting) % D.uxLength < D.uxLength :=
    Nat.mod_lt _ D.length_pos
  have hcopy : q.storage.copyIn q.pcWriteTo (D.item pvItemToQueue) =
      some (q.storage.put q.pcWriteTo (D.item pvItemToQueue)) := by
    apply Region.copyIn_of_le
    rw [QueueDims.item_length, hwrite]
    exact Region.slot_le hmod
  have hres : q.prvCopyDataToQueue pvItemToQueue .sendToBack = some { q with
      storage := q.storage.put q.pcWriteTo (D.item pvItemToQueue)
      pcWriteTo := if D.pcTail ≤ q.pcWriteTo + D.uxItemSize then 0
        else q.pcWriteTo + D.uxItemSize
      uxMessagesWaiting := q.uxMessagesWaiting + 1 } := by
    simp only [prvCopyDataToQueue, if_neg hsize.ne', hcopy, Option.map_some]
  refine ⟨_, hres, ⟨slot, hslot, hread, ?_, hlt⟩, ⟨rfl, rfl, rfl, rfl⟩, ?_⟩
  · show (if D.pcTail ≤ q.pcWriteTo + D.uxItemSize then 0 else q.pcWriteTo + D.uxItemSize) = _
    rw [hwrite, QueueDims.pcTail, next_slot hmod hsize, Nat.mod_add_mod]
    rfl
  · rw [contents_eq (q := q) slot hread, hwrite]
    refine (contents_eq slot ?_).trans ?_
    · exact hread
    · exact Region.slots_put_back q.storage hlt (D.item_length pvItemToQueue)

/-- INTERNAL: an item copied to the slot before the front. -/
theorem copyTo_front {q : Queue D ι} (hq : Placed q) (hsize : 0 < D.uxItemSize)
    (pvItemToQueue : ℕ → Byte) (hlt : q.uxMessagesWaiting < D.uxLength) :
    ∃ q', q.prvCopyDataToQueue pvItemToQueue .sendToFront = some q' ∧ Placed q' ∧
      SameWaiting q q' ∧ q'.contents = D.item pvItemToQueue :: q.contents := by
  obtain ⟨slot, hslot, hread, hwrite, -⟩ := hq
  have hcopy : q.storage.copyIn q.pcReadFrom (D.item pvItemToQueue) =
      some (q.storage.put q.pcReadFrom (D.item pvItemToQueue)) := by
    apply Region.copyIn_of_le
    rw [QueueDims.item_length, hread]
    exact Region.slot_le hslot
  obtain ⟨slot', hslot', hnext, hprev⟩ := prev_slot hslot hsize
  have hread' : (if q.pcReadFrom < D.uxItemSize then D.pcTail - D.uxItemSize
      else q.pcReadFrom - D.uxItemSize) = slot' * D.uxItemSize := by
    rw [hread, QueueDims.pcTail, hprev]
  have hres : q.prvCopyDataToQueue pvItemToQueue .sendToFront = some { q with
      storage := q.storage.put q.pcReadFrom (D.item pvItemToQueue)
      pcReadFrom := slot' * D.uxItemSize
      uxMessagesWaiting := q.uxMessagesWaiting + 1 } := by
    simp only [prvCopyDataToQueue, if_neg hsize.ne', hcopy, Option.map_some, hread',
      reduceCtorEq, false_and, if_false]
  refine ⟨_, hres, ⟨slot', hslot', rfl, ?_, hlt⟩, ⟨rfl, rfl, rfl, rfl⟩, ?_⟩
  · show q.pcWriteTo = (slot' + 1 + (q.uxMessagesWaiting + 1)) % D.uxLength * D.uxItemSize
    rw [hwrite, ← Nat.mod_add_mod (slot' + 1), hnext]
    congr 2
    omega
  · rw [contents_eq slot hread, contents_eq slot' rfl, ← Region.slots_mod _ (slot' + 1),
      hnext]
    show (q.storage.put q.pcReadFrom _).slots D.uxLength D.uxItemSize slot
      (q.uxMessagesWaiting + 1) = _
    rw [hread, ← Region.slots_put_front q.storage hlt (D.item_length pvItemToQueue),
      Nat.mod_eq_of_lt hslot]

theorem copyTo_overwrite {q : Queue D ι} (hq : Placed q) (hsize : 0 < D.uxItemSize)
    (pvItemToQueue : ℕ → Byte) (hone : D.uxLength = 1) :
    ∃ q', q.prvCopyDataToQueue pvItemToQueue .overwrite = some q' ∧ Placed q' ∧
      SameWaiting q q' ∧ q'.contents = [D.item pvItemToQueue] := by
  obtain ⟨slot, hslot, hread, hwrite, hle⟩ := hq
  obtain rfl : slot = 0 := by omega
  rw [Nat.zero_mul] at hread
  have hcopy : q.storage.copyIn q.pcReadFrom (D.item pvItemToQueue) =
      some (q.storage.put 0 (D.item pvItemToQueue)) := by
    rw [hread]
    apply Region.copyIn_of_le
    rw [QueueDims.item_length, hone, Nat.one_mul, Nat.zero_add]
  have hread' : (if q.pcReadFrom < D.uxItemSize then D.pcTail - D.uxItemSize
      else q.pcReadFrom - D.uxItemSize) = 0 * D.uxItemSize := by
    rw [if_pos (show q.pcReadFrom < D.uxItemSize by omega), QueueDims.pcTail, hone, Nat.one_mul,
      Nat.sub_self, Nat.zero_mul]
  have hcount : (if True ∧ 0 < q.uxMessagesWaiting then q.uxMessagesWaiting - 1 + 1
      else q.uxMessagesWaiting + 1) = 1 := by
    by_cases hm : 0 < q.uxMessagesWaiting
    · rw [if_pos ⟨trivial, hm⟩]
      omega
    · rw [if_neg fun h => hm h.2]
      omega
  have hres : q.prvCopyDataToQueue pvItemToQueue .overwrite = some { q with
      storage := q.storage.put 0 (D.item pvItemToQueue)
      pcReadFrom := 0 * D.uxItemSize
      uxMessagesWaiting := 1 } := by
    simp only [prvCopyDataToQueue, if_neg hsize.ne', hcopy, Option.map_some, hread', hcount]
  refine ⟨_, hres, ⟨0, hslot, rfl, ?_, hone.ge⟩, ⟨rfl, rfl, rfl, rfl⟩, ?_⟩
  · show q.pcWriteTo = _
    simp only [hwrite, hone, Nat.mod_one]
  · rw [contents_eq 0 rfl]
    show (q.storage.put 0 _).slots D.uxLength D.uxItemSize 1 1 = _
    have hfirst : 1 % D.uxLength * D.uxItemSize = 0 := by
      simp only [hone, Nat.mod_one, Nat.zero_mul]
    rw [Region.slots_succ, Region.slots_zero, hfirst,
      Region.slice_put _ (D.item_length pvItemToQueue).symm]

/-- INTERNAL: `prvCopyDataToQueue` stays inside the storage area, and does to the contents what
the operation does to a bounded queue. -/
theorem copyTo_spec {q : Queue D ι} (hq : Placed q) (pvItemToQueue : ℕ → Byte)
    {xPosition : CopyPosition} (hlegal : Legal D xPosition) (hroom : q.Accepts xPosition) :
    ∃ q', q.prvCopyDataToQueue pvItemToQueue xPosition = some q' ∧ Placed q' ∧
      SameWaiting q q' ∧ (boundedQueue (List Byte) D.uxLength).step q.contents
        (xPosition.event (D.item pvItemToQueue)) = some q'.contents := by
  obtain hzero | hsize := Nat.eq_zero_or_pos D.uxItemSize
  · exact copyTo_of_size_zero hq hzero pvItemToQueue hlegal hroom
  · cases xPosition with
    | sendToBack =>
      have hlt : q.uxMessagesWaiting < D.uxLength := hroom.resolve_right nofun
      obtain ⟨q', hcopy, hq', hsame, hcontents⟩ := copyTo_back hq hsize pvItemToQueue hlt
      refine ⟨q', hcopy, hq', hsame, ?_⟩
      simp [boundedQueue, CopyPosition.event, hlt, hcontents]
    | sendToFront =>
      have hlt : q.uxMessagesWaiting < D.uxLength := hroom.resolve_right nofun
      obtain ⟨q', hcopy, hq', hsame, hcontents⟩ := copyTo_front hq hsize pvItemToQueue hlt
      refine ⟨q', hcopy, hq', hsame, ?_⟩
      simp [boundedQueue, CopyPosition.event, hlt, hcontents]
    | overwrite =>
      have hone := (hlegal rfl).1
      obtain ⟨q', hcopy, hq', hsame, hcontents⟩ := copyTo_overwrite hq hsize pvItemToQueue hone
      refine ⟨q', hcopy, hq', hsame, ?_⟩
      simp [boundedQueue, CopyPosition.event, hone, hcontents]

/-- INTERNAL: `prvCopyDataFromQueue` reads the front of the queue, from inside the storage
area, and moves the read pointer to its slot. -/
theorem copyFrom_spec {q : Queue D ι} {slot : ℕ} (hslot : slot < D.uxLength)
    (hread : q.pcReadFrom = slot * D.uxItemSize) (hpos : 0 < q.uxMessagesWaiting) :
    ∃ item, q.prvCopyDataFromQueue =
        some ({ q with pcReadFrom := (slot + 1) % D.uxLength * D.uxItemSize }, item) ∧
      q.contents = item ::
        q.storage.slots D.uxLength D.uxItemSize (slot + 2) (q.uxMessagesWaiting - 1) := by
  have hcontents : q.contents =
      q.storage.slice ((slot + 1) % D.uxLength * D.uxItemSize) D.uxItemSize ::
        q.storage.slots D.uxLength D.uxItemSize (slot + 2) (q.uxMessagesWaiting - 1) := by
    rw [contents_eq slot hread, ← Region.slots_succ, Nat.sub_add_cancel hpos]
  obtain hzero | hsize := Nat.eq_zero_or_pos D.uxItemSize
  · refine ⟨[], ?_, ?_⟩
    · rw [prvCopyDataFromQueue, if_pos hzero, hzero, Nat.mul_zero]
      rw [hzero, Nat.mul_zero] at hread
      rw [← hread]
    · rw [hcontents]
      simp [hzero, Region.slice]
  · refine ⟨_, ?_, hcontents⟩
    have hle : (slot + 1) % D.uxLength * D.uxItemSize + D.uxItemSize ≤
        D.uxLength * D.uxItemSize := Region.slot_le (Nat.mod_lt (slot + 1) D.length_pos)
    rw [prvCopyDataFromQueue, if_neg hsize.ne', hread, QueueDims.pcTail, next_slot hslot hsize]
    simp only [Region.copyOut_of_le hle, Option.map_some]

/-- INTERNAL: an item taken from the front, and the pointers after it. -/
theorem takeFrom_spec {q : Queue D ι} (hq : Placed q) (hpos : 0 < q.uxMessagesWaiting) :
    ∃ q' item, q.prvCopyDataFromQueue = some (q', item) ∧ SameWaiting q q' ∧
      q.contents.head? = some item ∧
      ∀ q'' : Queue D ι, q''.storage = q'.storage → q''.pcWriteTo = q'.pcWriteTo →
        q''.pcReadFrom = q'.pcReadFrom → q''.uxMessagesWaiting = q.uxMessagesWaiting - 1 →
        Placed q'' ∧ q''.contents = q.contents.tail := by
  obtain ⟨slot, hslot, hread, hwrite, hle⟩ := hq
  obtain ⟨item, hcopy, hcontents⟩ := copyFrom_spec hslot hread hpos
  refine ⟨_, item, hcopy, ⟨rfl, rfl, rfl, rfl⟩, by rw [hcontents]; rfl, ?_⟩
  intro q'' hstorage hwrite'' hread'' hcount
  refine ⟨⟨(slot + 1) % D.uxLength, Nat.mod_lt _ D.length_pos, hread'', ?_, ?_⟩, ?_⟩
  · rw [hwrite'', hwrite, hcount, Nat.add_assoc ((slot + 1) % D.uxLength), Nat.mod_add_mod]
    congr 2
    omega
  · omega
  · rw [contents_eq ((slot + 1) % D.uxLength) hread'', hcontents, hstorage, hcount, List.tail_cons,
      ← Region.slots_mod _ ((slot + 1) % D.uxLength + 1), Nat.mod_add_mod, Region.slots_mod]

/-- INTERNAL: an item looked at: the queue is as before. -/
theorem peekFrom_spec {q : Queue D ι} (hq : Placed q) (hpos : 0 < q.uxMessagesWaiting) :
    ∃ q' item, q.prvCopyDataFromQueue = some (q', item) ∧
      { q' with pcReadFrom := q.pcReadFrom } = q ∧ q.contents.head? = some item := by
  obtain ⟨slot, hslot, hread, -⟩ := hq
  obtain ⟨item, hcopy, hcontents⟩ := copyFrom_spec hslot hread hpos
  exact ⟨_, item, hcopy, rfl, by rw [hcontents]; rfl⟩

end PicoDrone.Analysis
