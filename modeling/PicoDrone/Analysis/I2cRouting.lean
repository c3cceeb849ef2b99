import PicoDrone.Analysis.I2cEager
import PicoDrone.Model.I2cInstances

/-!
# Which object an interrupt reaches

The mutex `access` keeps the tasks of one object apart, not the objects of one bus, and the
interrupt of the bus goes to the object constructed last. A bus on which transactions run
only through that object, and which gets no new object while one is in progress, has one
transaction at a time, and every interrupt reaches the object that raised it
(`one_transaction_iff`).
-/

set_option autoImplicit false

namespace PicoDrone.Analysis

open PicoDrone.Library PicoDrone.Model

variable {T σ : Type} {R : I2cHw σ}

/-- `transaction` has programmed the controller and has not returned. -/
def Open (t : Transaction σ) : Prop := ∀ v, t.phase ≠ .returned v

theorem Open.of_waiting {t : Transaction σ} (h : t.phase = .waiting) : Open t := by
  intro v hv
  cases h.symm.trans hv

/-- Object `k` has the controller programmed. -/
def Programmed (b : SharedController T σ) (k : ℕ) : Prop :=
  ∃ o, b.objects[k]? = some o ∧ Open o.transaction

/-- One transaction has the controller programmed at a time. While the NVIC lets the
interrupt through there is one; the interrupt goes to its object and notifies the task
that called `transaction`. -/
structure OneTransaction (b : SharedController T σ) : Prop where
  sole : ∀ j k, Programmed b j → Programmed b k → j = k
  raised : b.irqEnabled = true → ∃ k, Programmed b k
  routed : ∀ k, Programmed b k → b.currentInstance = some k
  notifies : ∀ (k : ℕ) o, b.objects[k]? = some o → Open o.transaction →
    ∃ task, o.holder = some task ∧ o.taskToNotify = some task

/-- No object is constructed while a transaction has the controller programmed, and transactions
program it through the object constructed last. -/
def UsesLastInstance (b : SharedController T σ) : BusEvent T → Prop
  | .construct => ∀ k, ¬ Programmed b k
  | .program k => b.currentInstance = some k
  | _ => True

/-- What an object has at all times: the task that holds `access` is `task_to_notify`, an object
whose `access` is free has returned, and one that has set the controller up is waiting. -/
structure Consistent (o : I2cObject T σ) : Prop where
  holder : ∀ task, o.holder = some task → o.taskToNotify = some task
  free : o.holder = none → o.stage = .begun ∧ ∃ v, o.transaction.phase = .returned v
  started : o.stage = .programmed ∨ o.stage = .filled → o.transaction.phase = .waiting

def AllConsistent (b : SharedController T σ) : Prop := ∀ o ∈ b.objects, Consistent o

/-! ## Changes of one object -/

/-- INTERNAL: the objects after one of them was replaced. -/
theorem objects_set {objects : List (I2cObject T σ)} {k j : ℕ} {o p q : I2cObject T σ}
    (hk : objects[k]? = some o) (hj : (objects.set k p)[j]? = some q) :
    j = k ∧ q = p ∨ j ≠ k ∧ objects[j]? = some q := by
  by_cases h : j = k
  · subst h
    obtain ⟨hlt, -⟩ := List.getElem?_eq_some_iff.mp hk
    rw [List.getElem?_set_self hlt] at hj
    exact Or.inl ⟨rfl, (Option.some.inj hj).symm⟩
  · rw [List.getElem?_set_ne (fun hkj => h hkj.symm)] at hj
    exact Or.inr ⟨h, hj⟩

/-- INTERNAL: while the NVIC lets the interrupt through, an event of a transaction that is not
an interrupt ends the transaction or leaves the NVIC alone.
SOURCE: i2c/PicoI2C.cpp:155-168 -/
theorem CallStep.irqEnabled {c t : Transaction σ} {e : Event} (he : e ≠ .isr)
    (hs : CallStep R c e t) :
    Open c ∧ (t.drv.irqEnabled = false ∨ Open t ∧ t.drv.irqEnabled = c.drv.irqEnabled) := by
  cases hs with
  | isr => exact absurd rfl he
  | take hphase =>
    refine ⟨fun v hv => ?_, Or.inr ⟨fun v hv => ?_, rfl⟩⟩
    · rw [hphase] at hv
      cases hv
    · cases hv
  | timeout hphase =>
    refine ⟨fun v hv => ?_, Or.inr ⟨fun v hv => ?_, rfl⟩⟩
    · rw [hphase] at hv
      cases hv
    · cases hv
  | count hphase =>
    refine ⟨fun v hv => ?_, Or.inr ⟨fun v hv => ?_, rfl⟩⟩
    · rw [hphase] at hv
      cases hv
    · cases hv
  | irqOff w hphase =>
    refine ⟨fun v hv => ?_, Or.inl rfl⟩
    rw [hphase] at hv
    cases hv

/-- INTERNAL: a bus whose objects have the same transactions in progress stays good if the
pointer stays and the NVIC lets no more through. -/
theorem OneTransaction.of_objects {b b' : SharedController T σ} (h : OneTransaction b)
    (hcurrent : b'.currentInstance = b.currentInstance)
    (hirq : b'.irqEnabled = true → ∃ k, Programmed b' k)
    (hobjects : ∀ (k : ℕ) o, b'.objects[k]? = some o → Open o.transaction →
      ∃ p, b.objects[k]? = some p ∧ Open p.transaction ∧ o.holder = p.holder ∧
        o.taskToNotify = p.taskToNotify) :
    OneTransaction b' := by
  have hback : ∀ k, Programmed b' k → Programmed b k := by
    rintro k ⟨o, ho, hopen⟩
    obtain ⟨p, hp, hpopen, -⟩ := hobjects k o ho hopen
    exact ⟨p, hp, hpopen⟩
  refine ⟨fun j k hj hk => h.sole j k (hback j hj) (hback k hk), hirq, fun k hk => ?_, ?_⟩
  · rw [hcurrent]
    exact h.routed k (hback k hk)
  · intro k o ho hopen
    obtain ⟨p, hp, hpopen, hholder, htask⟩ := hobjects k o ho hopen
    rw [hholder, htask]
    exact h.notifies k p hp hpopen

/-! ## The steps of an object -/

theorem AllConsistent.get {b : SharedController T σ} (h : AllConsistent b) {k : ℕ}
    {o : I2cObject T σ} (hk : b.objects[k]? = some o) : Consistent o :=
  h o (List.mem_of_getElem? hk)

/-- INTERNAL: an object of the bus is replaced by a consistent one. -/
theorem AllConsistent.set {b b' : SharedController T σ} (h : AllConsistent b) {k : ℕ}
    {o : I2cObject T σ} (hobjects : b'.objects = b.objects.set k o) (ho : Consistent o) :
    AllConsistent b' := by
  intro p hp
  rw [hobjects] at hp
  obtain hp | rfl := List.mem_or_eq_of_mem_set hp
  · exact h p hp
  · exact ho

/-- INTERNAL: a task that holds `access` goes on with the set-up. -/
theorem Consistent.setsUp {o : I2cObject T σ} (h : Consistent o) {task : T}
    (htask : o.holder = some task) (stage : Stage) {t : Transaction σ}
    (ht : t.phase = .waiting) : Consistent { o with transaction := t, stage := stage } := by
  refine ⟨h.holder, fun hnone => ?_, fun _ => ht⟩
  cases htask.symm.trans hnone

/-- INTERNAL: a task before the wait holds `access`. -/
theorem Consistent.task {o : I2cObject T σ} (h : Consistent o) (hstage : o.stage ≠ .begun) :
    ∃ task, o.holder = some task ∧ o.taskToNotify = some task := by
  cases hholder : o.holder with
  | none => exact absurd (h.free hholder).1 hstage
  | some task => exact ⟨task, rfl, h.holder task hholder⟩

/-! ## The steps of the bus -/

/-- INTERNAL: a new object takes the interrupt over.
SOURCE: i2c/PicoI2C.cpp:56-65 -/
theorem construct_oneTransaction_iff {b : SharedController T σ} :
    OneTransaction (b.construct R) ↔ ∀ k, ¬ Programmed b k := by
  constructor
  · rintro hnew k ⟨o, ho, hopen⟩
    obtain ⟨hlt, -⟩ := List.getElem?_eq_some_iff.mp ho
    have hk : (b.construct R).currentInstance = some k := by
      apply hnew.routed k
      refine ⟨o, ?_, hopen⟩
      change (b.objects ++ [I2cObject.construct b.hw])[k]? = some o
      rw [List.getElem?_append_left hlt]
      exact ho
    have := Option.some.inj hk
    omega
  · intro hnone
    have hquiet : ∀ (k : ℕ) o, (b.construct R).objects[k]? = some o → ¬ Open o.transaction := by
      intro k o ho hopen
      change (b.objects ++ [I2cObject.construct b.hw])[k]? = some o at ho
      obtain hlt | hge := Nat.lt_or_ge k b.objects.length
      · rw [List.getElem?_append_left hlt] at ho
        exact hnone k ⟨o, ho, hopen⟩
      · rw [List.getElem?_append_right hge, List.getElem?_singleton] at ho
        split at ho
        · obtain rfl := Option.some.inj ho
          exact hopen 0 rfl
        · cases ho
    refine ⟨?_, fun hirq => (by cases hirq), ?_, ?_⟩
    · rintro j k ⟨o, ho, hopen⟩ -
      exact absurd hopen (hquiet j o ho)
    · rintro k ⟨o, ho, hopen⟩
      exact absurd hopen (hquiet k o ho)
    · intro k o ho hopen
      exact absurd hopen (hquiet k o ho)

/-- INTERNAL: the release of the mutex.
SOURCE: i2c/PicoI2C.cpp:169 -/
theorem leave_oneTransaction {b : SharedController T σ} (h : OneTransaction b) {k : ℕ}
    {o : I2cObject T σ} (hk : b.objects[k]? = some o) {v : ℕ}
    (hv : o.transaction.phase = .returned v) :
    OneTransaction { b with objects := b.objects.set k { o with holder := none } } := by
  apply h.of_objects
  · rfl
  · intro hirq
    obtain ⟨j, p, hp, hopen⟩ := h.raised hirq
    have hne : k ≠ j := by
      rintro rfl
      obtain rfl := Option.some.inj (hk.symm.trans hp)
      exact hopen v hv
    exact ⟨j, p, (List.getElem?_set_ne hne).trans hp, hopen⟩
  · intro j q hq hqopen
    obtain ⟨-, rfl⟩ | ⟨-, hq⟩ := objects_set hk hq
    · exact absurd hv (hqopen v)
    · exact ⟨q, hq, hqopen, rfl, rfl⟩

/-- INTERNAL: a task gets past `access`. -/
theorem enter_oneTransaction {b : SharedController T σ} (h : OneTransaction b)
    (hall : AllConsistent b) {k : ℕ} {o : I2cObject T σ} (hk : b.objects[k]? = some o)
    (hfree : o.holder = none) (task : T) (addr : Byte) (wbuffer : ℕ → Byte) (m n : ℕ) :
    OneTransaction (b.enter k o task addr wbuffer m n) := by
  obtain ⟨-, v, hv⟩ := (hall.get hk).free hfree
  apply h.of_objects
  · rfl
  · intro hirq
    obtain ⟨j, p, hp, hopen⟩ := h.raised hirq
    have hne : k ≠ j := by
      rintro rfl
      obtain rfl := Option.some.inj (hk.symm.trans hp)
      exact hopen v hv
    exact ⟨j, p, (List.getElem?_set_ne hne).trans hp, hopen⟩
  · intro j q hq hqopen
    obtain ⟨-, rfl⟩ | ⟨-, hq⟩ := objects_set hk hq
    · exact absurd hv (hqopen v)
    · exact ⟨q, hq, hqopen, rfl, rfl⟩

variable [DecidableEq T]

/-- INTERNAL: a transaction programs the controller.
SOURCE: i2c/PicoI2C.cpp:139-149 -/
theorem program_oneTransaction_iff {b : SharedController T σ} (h : OneTransaction b)
    (hall : AllConsistent b) {k : ℕ} {o : I2cObject T σ} (hk : b.objects[k]? = some o)
    {addr : Byte} {wbuffer : ℕ → Byte} {m n : ℕ} (hstage : o.stage = .entered addr wbuffer m n) :
    OneTransaction (b.program R k o addr wbuffer m n) ↔ b.currentInstance = some k := by
  obtain ⟨hlt, -⟩ := List.getElem?_eq_some_iff.mp hk
  have hopen : Programmed (b.program R k o addr wbuffer m n) k := by
    refine ⟨_, List.getElem?_set_self hlt, fun v hv => ?_⟩
    cases hv
  constructor
  · intro hnew
    exact hnew.routed k hopen
  · intro hcurrent
    have honly : ∀ j, Programmed (b.program R k o addr wbuffer m n) j → j = k := by
      rintro j ⟨q, hq, hqopen⟩
      obtain ⟨hj, -⟩ | ⟨-, hq⟩ := objects_set hk hq
      · exact hj
      · have hj := h.routed j ⟨q, hq, hqopen⟩
        exact Option.some.inj (hj.symm.trans hcurrent)
    refine ⟨fun i j hi hj => (honly i hi).trans (honly j hj).symm, fun _ => ⟨k, hopen⟩, ?_, ?_⟩
    · intro j hj
      rw [honly j hj]
      exact hcurrent
    · intro j q hq hqopen
      obtain ⟨-, rfl⟩ | ⟨-, hq⟩ := objects_set hk hq
      · exact (hall.get hk).task (by rw [hstage]; exact fun hs => by cases hs)
      · exact h.notifies j q hq hqopen

/-- INTERNAL: the object that has the controller programmed does something and is still in its
transaction afterwards. -/
theorem OneTransaction.update {b : SharedController T σ} (h : OneTransaction b) {k : ℕ}
    {o : I2cObject T σ} (hk : b.objects[k]? = some o) (hopen : Open o.transaction)
    (stage : Stage) {t : Transaction σ} (ht : Open t) :
    OneTransaction (b.update k { o with stage := stage } t) := by
  obtain ⟨hlt, -⟩ := List.getElem?_eq_some_iff.mp hk
  apply h.of_objects
  · rfl
  · exact fun _ => ⟨k, _, List.getElem?_set_self hlt, ht⟩
  · intro j q hq hqopen
    obtain ⟨rfl, rfl⟩ | ⟨-, hq⟩ := objects_set hk hq
    · exact ⟨o, hk, hopen, rfl, rfl⟩
    · exact ⟨q, hq, hqopen, rfl, rfl⟩

/-- INTERNAL: a statement of a waiting task.
SOURCE: i2c/PicoI2C.cpp:155-168 -/
theorem event_oneTransaction {b : SharedController T σ} (h : OneTransaction b) {k : ℕ}
    {o : I2cObject T σ} (hk : b.objects[k]? = some o) {e : Event} (he : e ≠ .isr)
    {t : Transaction σ} (hs : CallStep R (b.view o) e t) : OneTransaction (b.update k o t) := by
  obtain ⟨hopen, hoff | ⟨htopen, -⟩⟩ := hs.irqEnabled he
  · apply h.of_objects
    · rfl
    · intro hon
      cases hoff.symm.trans hon
    · intro j q hq hqopen
      obtain ⟨rfl, rfl⟩ | ⟨-, hq⟩ := objects_set hk hq
      · exact ⟨o, hk, hopen, rfl, rfl⟩
      · exact ⟨q, hq, hqopen, rfl, rfl⟩
  · exact h.update hk hopen o.stage htopen

/-- CONTRACT: an interrupt that the NVIC lets through on a good bus is handled by `isr` of the
object whose transaction programmed the controller, and only the task that called this
transaction may be notified.
SOURCE: i2c/PicoI2C.cpp:23-31, i2c/PicoI2C.cpp:216-220 -/
theorem interrupt_handled {b : SharedController T σ} (h : OneTransaction b)
    (hirq : b.irqEnabled = true) :
    ∃ (k : ℕ) (o : I2cObject T σ) (task : T), b.objects[k]? = some o ∧ Open o.transaction ∧
      o.holder = some task ∧
      b.irq R = b.update k o { b.view o with drv := isr R (b.view o).drv } ∧
      ∀ other, other ≠ task → (b.irq R).notified other = b.notified other := by
  obtain ⟨k, o, hk, hopen⟩ := h.raised hirq
  obtain ⟨task, hholder, htask⟩ := h.notifies k o hk hopen
  have hcurrent := h.routed k ⟨o, hk, hopen⟩
  have hirq' : b.irq R = b.update k o { b.view o with drv := isr R (b.view o).drv } := by
    simp only [SharedController.irq, hcurrent, hk]
  refine ⟨k, o, task, hk, hopen, hholder, hirq', fun other hne => ?_⟩
  rw [hirq']
  simp only [SharedController.update, htask]
  exact Function.update_of_ne hne _ _

/-- INTERNAL: the interrupt.
SOURCE: i2c/PicoI2C.cpp:23-31 -/
theorem irq_oneTransaction {b : SharedController T σ} (h : OneTransaction b)
    (hirq : b.irqEnabled = true) : OneTransaction (b.irq R) := by
  obtain ⟨k, o, task, hk, hopen, -, heq, -⟩ := interrupt_handled (R := R) h hirq
  rw [heq]
  exact h.update hk hopen o.stage hopen

/-- What one step of a bus does, with the conditions it is taken under. -/
inductive BusStep (R : I2cHw σ) (b : SharedController T σ) :
    BusEvent T → SharedController T σ → Prop
  | construct : BusStep R b .construct (b.construct R)
  | enter {k : ℕ} {o : I2cObject T σ} (hk : b.objects[k]? = some o) (hfree : o.holder = none)
      (task : T) (addr : Byte) (wbuffer : ℕ → Byte) (m n : ℕ)
      (hother : ∀ other ∈ b.objects, other.holder ≠ some task) :
      BusStep R b (.enter k task addr wbuffer m n) (b.enter k o task addr wbuffer m n)
  | program {k : ℕ} {o : I2cObject T σ} (hk : b.objects[k]? = some o) {addr : Byte}
      {wbuffer : ℕ → Byte} {m n : ℕ} (hstage : o.stage = .entered addr wbuffer m n) :
      BusStep R b (.program k) (b.program R k o addr wbuffer m n)
  | fill {k : ℕ} {o : I2cObject T σ} (hk : b.objects[k]? = some o)
      (hstage : o.stage = .programmed) : BusStep R b (.fill k) (b.fill R k o)
  | irqOn {k : ℕ} {o : I2cObject T σ} (hk : b.objects[k]? = some o) (hstage : o.stage = .filled) :
      BusStep R b (.irqOn k) (b.irqOn k o)
  | event {k : ℕ} {o : I2cObject T σ} (hk : b.objects[k]? = some o) (hstage : o.stage = .begun)
      (hsome : o.holder.isSome = true) {e : Event} (he : e ≠ .isr) {t : Transaction σ}
      (hs : CallStep R (b.view o) e t) : BusStep R b (.event k e) (b.update k o t)
  | interrupt (hirq : b.irqEnabled = true) (hmask : b.intrMask ≠ IntrBits.none) :
      BusStep R b .interrupt (b.irq R)
  | leave {k : ℕ} {o : I2cObject T σ} (hk : b.objects[k]? = some o) (hstage : o.stage = .begun)
      {v : ℕ} (hv : o.transaction.phase = .returned v) :
      BusStep R b (.leave k) { b with objects := b.objects.set k { o with holder := none } }

theorem busStep_of_step {b t : SharedController T σ} {l : BusEvent T}
    (hstep : b.step R l = some t) : BusStep R b l t := by
  cases l with
  | construct =>
    obtain rfl := Option.some.inj hstep
    exact BusStep.construct
  | enter k task addr wbuffer m n =>
    simp only [SharedController.step, Option.bind_eq_some_iff,
      Option.ite_none_right_eq_some, Option.some_inj] at hstep
    obtain ⟨o, hk, ⟨hfree, hother⟩, rfl⟩ := hstep
    exact BusStep.enter hk hfree task addr wbuffer m n hother
  | program k =>
    simp only [SharedController.step, Option.bind_eq_some_iff] at hstep
    obtain ⟨o, hk, hstep⟩ := hstep
    split at hstep
    next hstage =>
      obtain rfl := Option.some.inj hstep
      exact BusStep.program hk hstage
    next => cases hstep
  | fill k =>
    simp only [SharedController.step, Option.bind_eq_some_iff] at hstep
    obtain ⟨o, hk, hstep⟩ := hstep
    split at hstep
    next hstage =>
      obtain rfl := Option.some.inj hstep
      exact BusStep.fill hk hstage
    next => cases hstep
  | irqOn k =>
    simp only [SharedController.step, Option.bind_eq_some_iff] at hstep
    obtain ⟨o, hk, hstep⟩ := hstep
    split at hstep
    next hstage =>
      obtain rfl := Option.some.inj hstep
      exact BusStep.irqOn hk hstage
    next => cases hstep
  | event k e =>
    simp only [SharedController.step, Option.bind_eq_some_iff] at hstep
    obtain ⟨o, hk, hstep⟩ := hstep
    split at hstep
    next hstage =>
      simp only [Option.ite_none_right_eq_some, Option.map_eq_some_iff] at hstep
      obtain ⟨⟨hsome, he⟩, u, hu, rfl⟩ := hstep
      exact BusStep.event hk hstage hsome he (callStep_iff.mp hu)
    next => cases hstep
  | interrupt =>
    simp only [SharedController.step, Option.ite_none_right_eq_some, Option.some_inj] at hstep
    obtain ⟨⟨hirq, hmask⟩, rfl⟩ := hstep
    exact BusStep.interrupt hirq hmask
  | leave k =>
    simp only [SharedController.step, Option.bind_eq_some_iff] at hstep
    obtain ⟨o, hk, hstep⟩ := hstep
    split at hstep
    next hstage hv =>
      obtain rfl := Option.some.inj hstep
      exact BusStep.leave hk hstage hv
    next => cases hstep

theorem step_allConsistent (b : SharedController T σ) (l : BusEvent T) (t : SharedController T σ)
    (h : AllConsistent b) (hstep : b.step R l = some t) : AllConsistent t := by
  cases busStep_of_step hstep with
  | construct =>
    intro o ho
    obtain ho | ho := List.mem_append.mp ho
    · exact h o ho
    · obtain rfl := List.mem_singleton.mp ho
      refine ⟨fun task ht => (by cases ht), fun _ => ⟨rfl, 0, rfl⟩, ?_⟩
      rintro (hs | hs) <;> cases hs
  | enter hk hfree task =>
    refine h.set rfl ⟨fun _ ht => ht, fun hnone => (by cases hnone), ?_⟩
    rintro (hs | hs) <;> cases hs
  | program hk hstage =>
    obtain ⟨task, htask, -⟩ := (h.get hk).task (by rw [hstage]; exact fun hs => by cases hs)
    exact h.set rfl ((h.get hk).setsUp htask .programmed rfl)
  | fill hk hstage =>
    obtain ⟨task, htask, -⟩ := (h.get hk).task (by rw [hstage]; exact fun hs => by cases hs)
    exact h.set rfl ((h.get hk).setsUp htask .filled ((h.get hk).started (Or.inl hstage)))
  | irqOn hk hstage =>
    obtain ⟨task, htask, -⟩ := (h.get hk).task (by rw [hstage]; exact fun hs => by cases hs)
    exact h.set rfl ((h.get hk).setsUp htask .begun ((h.get hk).started (Or.inr hstage)))
  | event hk hstage hsome =>
    refine h.set rfl ⟨(h.get hk).holder, fun hnone => ?_, ?_⟩
    · rw [show _ = none from hnone] at hsome
      cases hsome
    · rintro (hs | hs) <;> cases hstage.symm.trans hs
  | interrupt =>
    unfold SharedController.irq
    split
    · split
      next hk => exact h.set rfl ⟨(h.get hk).holder, (h.get hk).free, (h.get hk).started⟩
      · exact h
    · exact h
  | leave hk hstage hv =>
    exact h.set rfl ⟨fun task ht => (by cases ht), fun _ => ⟨hstage, _, hv⟩, (h.get hk).started⟩

/-- INTERNAL: a step from a good bus leads to a good one exactly if it meets the condition. -/
theorem bus_step_iff (b : SharedController T σ) (l : BusEvent T) (t : SharedController T σ)
    (hall : AllConsistent b) (h : OneTransaction b) (hstep : b.step R l = some t) :
    OneTransaction t ↔ UsesLastInstance b l := by
  cases busStep_of_step hstep with
  | construct => exact construct_oneTransaction_iff
  | enter hk hfree task addr wbuffer m n =>
    exact ⟨fun _ => trivial, fun _ => enter_oneTransaction h hall hk hfree task addr wbuffer m n⟩
  | program hk hstage => exact program_oneTransaction_iff h hall hk hstage
  | fill hk hstage =>
    have hopen := Open.of_waiting ((hall.get hk).started (Or.inl hstage))
    exact ⟨fun _ => trivial, fun _ => h.update hk hopen .filled hopen⟩
  | irqOn hk hstage =>
    have hopen := Open.of_waiting ((hall.get hk).started (Or.inr hstage))
    exact ⟨fun _ => trivial, fun _ => h.update hk hopen .begun hopen⟩
  | event hk hstage hsome he hs =>
    exact ⟨fun _ => trivial, fun _ => event_oneTransaction h hk he hs⟩
  | interrupt hirq => exact ⟨fun _ => trivial, fun _ => irq_oneTransaction h hirq⟩
  | leave hk hstage hv => exact ⟨fun _ => trivial, fun _ => leave_oneTransaction h hk hv⟩

/-! ## The parts of `transaction` -/

/-- INTERNAL: what an object of a task has done is what it sees next. -/
theorem view_update (b : SharedController T σ) (k : ℕ) {o : I2cObject T σ} {task : T}
    (htask : o.taskToNotify = some task) (t : Transaction σ) :
    (b.update k o t).view { o with transaction := t } = t := by
  unfold SharedController.view SharedController.update
  simp only [htask, Function.update_self]

theorem get_update (b : SharedController T σ) {k : ℕ} {o p : I2cObject T σ}
    (hk : b.objects[k]? = some p) (t : Transaction σ) :
    (b.update k o t).objects[k]? = some { o with transaction := t } := by
  obtain ⟨hlt, -⟩ := List.getElem?_eq_some_iff.mp hk
  exact List.getElem?_set_self hlt

/-- INTERNAL: a part that has made `t` of what it saw of its object. -/
theorem part_step {b : SharedController T σ} {k : ℕ} {o : I2cObject T σ}
    (hk : b.objects[k]? = some o) {task : T} (htask : o.taskToNotify = some task)
    {l : BusEvent T} {stage : Stage} {t : Transaction σ}
    (hstep : b.step R l = some (b.update k { o with stage := stage } t)) :
    ∃ b', b.step R l = some b' ∧
      b'.objects[k]? = some { o with stage := stage, transaction := t } ∧
      b'.view { o with stage := stage, transaction := t } = t :=
  ⟨_, hstep, get_update b hk t, view_update b k (o := { o with stage := stage }) htask t⟩

/-- INTERNAL: the parts before the wait, one after the other, are `transaction` of the driver.
SOURCE: i2c/PicoI2C.cpp:139-157 -/
theorem setUp_run {b : SharedController T σ} {k : ℕ} {o : I2cObject T σ}
    (hk : b.objects[k]? = some o) {task : T} (htask : o.taskToNotify = some task) {addr : Byte}
    {wbuffer : ℕ → Byte} {m n : ℕ} (hstage : o.stage = .entered addr wbuffer m n) :
    ∃ b' o', (busMachine R).run b [.program k, .fill k, .irqOn k] = some b' ∧
      b'.objects[k]? = some o' ∧ o'.stage = .begun ∧
      b'.view o' = transaction R addr wbuffer m n (b.view o).drv := by
  have hfill : ∀ {b : SharedController T σ} {o}, b.objects[k]? = some o → o.stage = .programmed →
      b.step R (.fill k) = some (b.fill R k o) := by
    intro b o hk hstage
    simp only [SharedController.step, hk, Option.bind_some, hstage]
  have hirqOn : ∀ {b : SharedController T σ} {o}, b.objects[k]? = some o → o.stage = .filled →
      b.step R (.irqOn k) = some (b.irqOn k o) := by
    intro b o hk hstage
    simp only [SharedController.step, hk, Option.bind_some, hstage]
  have hprogram : b.step R (.program k) = some (b.program R k o addr wbuffer m n) := by
    simp only [SharedController.step, hk, Option.bind_some, hstage]
  obtain ⟨b1, hstep1, hk1, hv1⟩ := part_step hk htask hprogram
  obtain ⟨b2, hstep2, hk2, hv2⟩ := part_step hk1 htask (hfill hk1 rfl)
  obtain ⟨b3, hstep3, hk3, hv3⟩ := part_step hk2 htask (hirqOn hk2 rfl)
  refine ⟨b3, _, ?_, hk3, rfl, ?_⟩
  · exact ((busMachine R).run_cons_eq_some).mpr ⟨b1, hstep1, ((busMachine R).run_cons_eq_some).mpr
      ⟨b2, hstep2, ((busMachine R).run_cons_eq_some).mpr ⟨b3, hstep3, rfl⟩⟩⟩
  · rw [hv3, hv2, hv1]
    rfl

/-! ## Runs -/

/-- CONTRACT: in every run of constructors, of calls of `transaction` through any of the objects
by any tasks, of interrupts and timeouts on one bus, with every register block, one
transaction has the controller programmed at a time, and the interrupt goes to its object
and notifies its task, exactly if no object is constructed while a transaction has the
controller programmed and every transaction programs it through the object constructed last.
SOURCE: i2c/PicoI2C.cpp:23-66, i2c/PicoI2C.cpp:134-169 -/
theorem one_transaction_iff (R : I2cHw σ) (c : σ) (ls : List (BusEvent T))
    (b : SharedController T σ) (hrun : (busMachine R).run (SharedController.start c) ls = some b) :
    (busMachine R).Always OneTransaction (SharedController.start c) ls ↔
      (busMachine R).Along UsesLastInstance (SharedController.start c) ls := by
  have hnone : ∀ k, ¬ Programmed (SharedController.start c : SharedController T σ) k := by
    rintro k ⟨o, ho, -⟩
    cases ho
  apply (busMachine R).always_iff_along AllConsistent OneTransaction UsesLastInstance
    step_allConsistent bus_step_iff _ _ hrun
  · exact fun o ho => absurd ho List.not_mem_nil
  · refine ⟨fun j _ hj => absurd hj (hnone j), fun hirq => (by cases hirq), ?_, ?_⟩
    · exact fun k hk => absurd hk (hnone k)
    · exact fun k o ho hopen => absurd ⟨o, ho, hopen⟩ (hnone k)

/-- Two objects on one bus, the transaction goes through the second one. -/
theorem one_transaction_iff_second :
    (busMachine (Controller.hw willingSlave eager)).Always OneTransaction
      (SharedController.start (Controller.reset 0) : SharedController ℕ Controller)
      [.construct, .construct, .enter 1 0 0x50#8 (fun _ => 0x61#8) 1 0, .program 1, .fill 1,
        .irqOn 1, .interrupt, .event 1 .take, .event 1 .count, .event 1 .irqOff, .leave 1] := by
  have hrun : ((busMachine (Controller.hw willingSlave eager)).run
      (SharedController.start (Controller.reset 0) : SharedController ℕ Controller)
      [.construct, .construct, .enter 1 0 0x50#8 (fun _ => 0x61#8) 1 0, .program 1, .fill 1,
        .irqOn 1, .interrupt, .event 1 .take, .event 1 .count, .event 1 .irqOff,
        .leave 1]).isSome = true := by
    rfl
  obtain ⟨b, hb⟩ := Option.isSome_iff_exists.mp hrun
  refine (one_transaction_iff _ _ _ b hb).mpr ?_
  refine Machine.along_cons _ ?_ rfl (Machine.along_cons _ ?_ rfl ?_)
  · rintro k ⟨o, ho, -⟩
    cases ho
  · rintro k ⟨o, ho, hopen⟩
    cases k with
    | zero =>
      obtain rfl := Option.some.inj ho
      exact hopen 0 rfl
    | succ k => cases ho
  · apply Machine.along_cons _ trivial rfl
    refine Machine.along_cons _ ?_ rfl (Machine.along_of_forall _ ?_)
    · rfl
    intro l hl t
    simp only [List.mem_cons, List.not_mem_nil, or_false] at hl
    obtain rfl | rfl | rfl | rfl | rfl | rfl | rfl := hl <;> trivial

/-- The `PicoI2C` objects of `eeprom_task` and `rtc`, constructed in this order. The interrupt
of the transaction of the first one reaches the second one, which masks the controller and
has no task to notify. -/
theorem interrupt_of_other_object :
    ((busMachine (Controller.hw willingSlave eager)).run
        (SharedController.start (Controller.reset 0) : SharedController ℕ Controller)
        [.construct, .construct, .enter 0 0 0x50#8 (fun _ => 0x61#8) 1 0, .program 0, .fill 0,
          .irqOn 0, .interrupt]).map
      (fun b => (b.currentInstance, b.intrMask, b.notified 0,
        b.objects.map fun o => (o.transaction.phase, o.transaction.drv.log.stopSeen))) =
      some (some 1, IntrBits.none, false, [(.waiting, false), (.returned 0, true)]) := by
  rfl

end PicoDrone.Analysis
