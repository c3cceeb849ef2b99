import Mathlib.Logic.Relation
import PicoDrone.Model.I2cDriver

/-!
# What the I2C driver can do between two register accesses

`DriverStep` lists the pieces of work the driver is made of: a look at the free FIFO
slots that finds none, one word stored, one byte fetched, one look at the interrupt
status, the mask update and the handling of a STOP. The initial fill of `transaction`
and the interrupt handler are sequences of these steps (`initialFill_steps`,
`isr_steps`), so a property of the driver is proved once for each step and carried
through all four functions by `DriverSteps.invariant`.
-/

set_option autoImplicit false

namespace PicoDrone.Analysis

open PicoDrone.Library PicoDrone.Model

variable {σ : Type} {R : I2cHw σ}

/-- One piece of work of `tx_fill_fifo`, `rx_fill_fifo` or `isr`: a check of the free slots
that ends a fill loop, or is followed by a write word or by a read command; a look at the
receive FIFO that finds nothing, or is followed by the fetch of a byte; a look at the
interrupt status, the mask update once every command is queued, and the handling of STOP. -/
inductive DriverStep (R : I2cHw σ) : PicoI2C σ → PicoI2C σ → Prop
  | full (d : PicoI2C σ) (h : (R.writeAvailable d.hw).1 = 0) :
      DriverStep R d { d with hw := (R.writeAvailable d.hw).2 }
  | txPut (d : PicoI2C σ) (hw : 0 < d.wctr) (h : 0 < (R.writeAvailable d.hw).1) :
      DriverStep R d (txPut R { d with hw := (R.writeAvailable d.hw).2 })
  | rxPut (d : PicoI2C σ) (hw : d.wctr = 0) (hr : 0 < d.rctr)
      (h : 0 < (R.writeAvailable d.hw).1) :
      DriverStep R d (rxPut R { d with hw := (R.writeAvailable d.hw).2 })
  | empty (d : PicoI2C σ) (h : (R.rxflr d.hw).1 = 0) :
      DriverStep R d { d with hw := (R.rxflr d.hw).2 }
  | rxStore (d : PicoI2C σ) (hr : 0 < d.rcnt) (h : 0 < (R.rxflr d.hw).1) :
      DriverStep R d (rxStore R { d with hw := (R.rxflr d.hw).2 })
  | status (d : PicoI2C σ) : DriverStep R d { d with hw := (R.rawIntrStat d.hw).2 }
  | queued (d : PicoI2C σ) (hw : d.wctr = 0) (hr : d.rctr = 0)
      (hm : d.intrMask.txEmpty = true) :
      DriverStep R d { d with intrMask := ⟨true, false, true⟩ }
  | stop (d : PicoI2C σ) (h : (R.rawIntrStat d.hw).1.stopDet = true)
      (hm : d.intrMask.stopDet = true) :
      DriverStep R d (isrStop R { d with hw := (R.rawIntrStat d.hw).2 })

abbrev DriverSteps (R : I2cHw σ) : PicoI2C σ → PicoI2C σ → Prop :=
  Relation.ReflTransGen (DriverStep R)

/-- INTERNAL: what every step keeps, any number of steps keeps. -/
theorem DriverSteps.invariant (I : PicoI2C σ → Prop)
    (hstep : ∀ d d', I d → DriverStep R d d' → I d') {d d' : PicoI2C σ}
    (h : DriverSteps R d d') (hd : I d) : I d' := by
  induction h with
  | refl => exact hd
  | tail _ hlast ih => exact hstep _ _ ih hlast

/-- INTERNAL: the transmit loop, with any fuel, is a sequence of steps.
SOURCE: i2c/PicoI2C.cpp:73-90 -/
theorem txLoop_steps (fuel : ℕ) (d : PicoI2C σ) : DriverSteps R d (txLoop R fuel d) := by
  induction fuel generalizing d with
  | zero => exact Relation.ReflTransGen.refl
  | succ fuel ih =>
    simp only [txLoop]
    split
    · rename_i hw
      split
      · rename_i ha
        exact (ih _).head (DriverStep.txPut d hw ha)
      · rename_i ha
        exact Relation.ReflTransGen.single (DriverStep.full d (by omega))
    · exact Relation.ReflTransGen.refl

/-- INTERNAL: the loop that queues read commands is a sequence of steps once no write
word is left; it stores no write word itself.
SOURCE: i2c/PicoI2C.cpp:102-116 -/
theorem rxLoop_steps (fuel : ℕ) (d : PicoI2C σ) (hw : d.wctr = 0) :
    DriverSteps R d (rxLoop R fuel d) := by
  induction fuel generalizing d with
  | zero => exact Relation.ReflTransGen.refl
  | succ fuel ih =>
    simp only [rxLoop]
    split
    · rename_i hr
      split
      · rename_i ha
        exact (ih _ (by simpa [rxPut] using hw)).head (DriverStep.rxPut d hw hr ha)
      · rename_i ha
        exact Relation.ReflTransGen.single (DriverStep.full d (by omega))
    · exact Relation.ReflTransGen.refl

/-- INTERNAL: the receive loop of the handler is a sequence of steps.
SOURCE: i2c/PicoI2C.cpp:190-196 -/
theorem drainLoop_steps (fuel : ℕ) (d : PicoI2C σ) : DriverSteps R d (drainLoop R fuel d) := by
  induction fuel generalizing d with
  | zero => exact Relation.ReflTransGen.refl
  | succ fuel ih =>
    simp only [drainLoop]
    split
    · rename_i hr
      split
      · rename_i ha
        exact (ih _).head (DriverStep.rxStore d hr ha)
      · rename_i ha
        exact Relation.ReflTransGen.single (DriverStep.empty d (by omega))
    · exact Relation.ReflTransGen.refl

/-- INTERNAL: the first fill of a transaction is a sequence of steps.
SOURCE: i2c/PicoI2C.cpp:152-153 -/
theorem initialFill_steps (d : PicoI2C σ) :
    DriverSteps R d (if 0 < d.wctr then txFillFifo R d else rxFillFifo R d) := by
  split
  · exact txLoop_steps _ d
  · rename_i hw
    exact rxLoop_steps _ d (by omega)

/-- INTERNAL: what neither a look at the hardware nor a stored write word changes, the
transmit loop does not change. -/
theorem txLoop_keeps {α : Type} (f : PicoI2C σ → α) (hlook : ∀ d hw, f { d with hw := hw } = f d)
    (hput : ∀ d, f (txPut R d) = f d) (fuel : ℕ) (d : PicoI2C σ) :
    f (txLoop R fuel d) = f d := by
  induction fuel generalizing d with
  | zero => rfl
  | succ fuel ih =>
    simp only [txLoop]
    split_ifs
    · rw [ih, hput, hlook]
    · rw [hlook]
    · rfl

/-- INTERNAL: what neither a look at the hardware nor a stored read command changes, the
loop that queues read commands does not change. -/
theorem rxLoop_keeps {α : Type} (f : PicoI2C σ → α) (hlook : ∀ d hw, f { d with hw := hw } = f d)
    (hput : ∀ d, f (rxPut R d) = f d) (fuel : ℕ) (d : PicoI2C σ) :
    f (rxLoop R fuel d) = f d := by
  induction fuel generalizing d with
  | zero => rfl
  | succ fuel ih =>
    simp only [rxLoop]
    split_ifs
    · rw [ih, hput, hlook]
    · rw [hlook]
    · rfl

/-- INTERNAL: what neither a look at the hardware nor a fetched byte changes, the receive loop
does not change. -/
theorem drainLoop_keeps {α : Type} (f : PicoI2C σ → α)
    (hlook : ∀ d hw, f { d with hw := hw } = f d) (hstore : ∀ d, f (rxStore R d) = f d)
    (fuel : ℕ) (d : PicoI2C σ) : f (drainLoop R fuel d) = f d := by
  induction fuel generalizing d with
  | zero => rfl
  | succ fuel ih =>
    simp only [drainLoop]
    split_ifs
    · rw [ih, hstore, hlook]
    · rw [hlook]
    · rfl

/-- INTERNAL: what neither fill loop changes is as `transaction` has set it up.
SOURCE: i2c/PicoI2C.cpp:139-157 -/
theorem beginTransaction_keeps {α : Type} (f : PicoI2C σ → α)
    (hlook : ∀ d hw, f { d with hw := hw } = f d) (htx : ∀ d, f (txPut R d) = f d)
    (hrx : ∀ d, f (rxPut R d) = f d) (hirq : ∀ d, f { d with irqEnabled := true } = f d)
    (addr : Byte) (wbuffer : ℕ → Byte) (m n : ℕ) (d : PicoI2C σ) :
    f (beginTransaction R addr wbuffer m n d) = f (program R addr wbuffer m n d) := by
  unfold beginTransaction
  dsimp only
  rw [hirq]
  split
  · exact txLoop_keeps f hlook htx _ _
  · exact rxLoop_keeps f hlook hrx _ _

/-- INTERNAL: the refill of the handler is a sequence of steps.
SOURCE: i2c/PicoI2C.cpp:203-212 -/
theorem isrRefill_steps (d : PicoI2C σ) (hm : d.intrMask.txEmpty = true) :
    DriverSteps R d (isrRefill R d) := by
  have hfill : DriverSteps R d
      (if 0 < d.wctr then txFillFifo R d
        else if 0 < d.rctr then rxFillFifo R d else d) := by
    split
    · exact txLoop_steps _ d
    · rename_i hw
      split
      · exact rxLoop_steps _ d (by omega)
      · exact Relation.ReflTransGen.refl
  have hmask : (if 0 < d.wctr then txFillFifo R d
      else if 0 < d.rctr then rxFillFifo R d else d).intrMask = d.intrMask := by
    split_ifs
    · exact txLoop_keeps PicoI2C.intrMask (fun _ _ => rfl) (fun _ => rfl) _ d
    · exact rxLoop_keeps PicoI2C.intrMask (fun _ _ => rfl) (fun _ => rfl) _ d
    · rfl
  unfold isrRefill
  generalize (if 0 < d.wctr then txFillFifo R d
    else if 0 < d.rctr then rxFillFifo R d else d) = e at hfill hmask ⊢
  dsimp only
  split
  · rename_i h
    simp only [Bool.and_eq_true, beq_iff_eq] at h
    exact hfill.tail (DriverStep.queued e h.1 h.2 (by rw [hmask, hm]))
  · exact hfill

/-- INTERNAL: the second look of the handler at the status, with the handling of STOP.
SOURCE: i2c/PicoI2C.cpp:216-220 -/
theorem isrLast_steps (d : PicoI2C σ) :
    DriverSteps R d
      (if (R.rawIntrStat d.hw).1.stopDet && d.intrMask.stopDet then
        isrStop R { d with hw := (R.rawIntrStat d.hw).2 }
      else { d with hw := (R.rawIntrStat d.hw).2 }) := by
  split
  · rename_i h
    simp only [Bool.and_eq_true] at h
    exact Relation.ReflTransGen.single (DriverStep.stop d h.1 h.2)
  · exact Relation.ReflTransGen.single (DriverStep.status d)

/-- INTERNAL: what the handler does behind its receive loop is a sequence of steps.
SOURCE: i2c/PicoI2C.cpp:200-222 -/
theorem isrDrain_steps (d : PicoI2C σ) : DriverSteps R (isrDrain R d) (isr R d) := by
  have hlook := Relation.ReflTransGen.single (DriverStep.status (R := R) (isrDrain R d))
  have hrefill : DriverSteps R (isrDrain R d)
      (if (R.rawIntrStat (isrDrain R d).hw).1.txEmpty && (isrDrain R d).intrMask.txEmpty then
        isrRefill R { isrDrain R d with hw := (R.rawIntrStat (isrDrain R d).hw).2 }
      else { isrDrain R d with hw := (R.rawIntrStat (isrDrain R d).hw).2 }) := by
    split
    · rename_i h
      simp only [Bool.and_eq_true] at h
      exact hlook.trans (isrRefill_steps _ h.2)
    · exact hlook
  exact hrefill.trans (isrLast_steps _)

/-- INTERNAL: one run of the interrupt handler is a sequence of steps.
SOURCE: i2c/PicoI2C.cpp:172-222 -/
theorem isr_steps (d : PicoI2C σ) : DriverSteps R d (isr R d) :=
  (drainLoop_steps _ d).trans (isrDrain_steps d)

/-- What one event of a call does, with the conditions it is taken under. -/
inductive CallStep (R : I2cHw σ) (c : Transaction σ) : Event → Transaction σ → Prop
  | isr (hirq : c.drv.irqEnabled = true) (hmask : c.drv.intrMask ≠ IntrBits.none) :
      CallStep R c .isr { c with drv := isr R c.drv }
  | take (hphase : c.phase = .waiting) (hnote : c.drv.notified = true) :
      CallStep R c .take { c with drv := { c.drv with notified := false }, phase := .woken }
  | timeout (hphase : c.phase = .waiting) (hnote : c.drv.notified = false) :
      CallStep R c .timeout { c with phase := .counted 0, timedOut := true, tally := c.drv.log }
  | count (hphase : c.phase = .woken) :
      CallStep R c .count { c with
        phase := .counted
          (u32 ((u32 (c.wlength + c.rlength) : ℕ) - (u32 (c.drv.rcnt + c.drv.wctr) : ℕ)))
        tally := c.drv.log }
  | irqOff (v : ℕ) (hphase : c.phase = .counted v) :
      CallStep R c .irqOff
        { c with drv := { c.drv with irqEnabled := false }, phase := .returned v }

/-- INTERNAL: the events of a call are the ones listed.
SOURCE: i2c/PicoI2C.cpp:155-168 -/
theorem callStep_iff {c c' : Transaction σ} {e : Event} :
    transactionStep R c e = some c' ↔ CallStep R c e c' := by
  constructor
  · intro hs
    cases e with
    | irqOff =>
      simp only [transactionStep] at hs
      split at hs
      · rename_i v hv
        obtain rfl := Option.some.inj hs
        exact CallStep.irqOff v hv
      · cases hs
    | _ =>
      simp only [transactionStep, Option.ite_none_right_eq_some, Option.some.injEq] at hs
      obtain ⟨hcond, rfl⟩ := hs
      first
        | exact CallStep.isr hcond.1 hcond.2
        | exact CallStep.take hcond.1 hcond.2
        | exact CallStep.timeout hcond.1 (by simpa using hcond.2)
        | exact CallStep.count hcond
  · intro hs
    cases hs <;> simp_all [transactionStep]

theorem CallStep.run_cons {c c' c'' : Transaction σ} {e : Event} {es : List Event}
    (hs : CallStep R c e c') (hrun : (transactionMachine R).run c' es = some c'') :
    (transactionMachine R).run c (e :: es) = some c'' :=
  (transactionMachine R).run_cons_eq_some.mpr ⟨c', callStep_iff.mpr hs, hrun⟩

/-- INTERNAL: what every piece of work keeps, and what neither the notification nor the NVIC has
to do with, a whole call keeps from the moment the controller is programmed.
SOURCE: i2c/PicoI2C.cpp:134-222 -/
theorem run_driver (I : PicoI2C σ → Prop) (hstep : ∀ d d', I d → DriverStep R d d' → I d')
    (hframe : ∀ d notified irqEnabled, I d →
      I { d with notified := notified, irqEnabled := irqEnabled })
    {addr : Byte} {wbuffer : ℕ → Byte} {m n : ℕ} {d : PicoI2C σ} {es : List Event}
    {c : Transaction σ} (hd : I (program R addr wbuffer m n d))
    (hrun : (transactionMachine R).run (transaction R addr wbuffer m n d) es = some c) :
    I c.drv := by
  have hfill := (initialFill_steps (program R addr wbuffer m n d)).invariant I hstep hd
  refine (transactionMachine R).run_invariant (fun c => I c.drv) ?_ (hframe _ _ true hfill) hrun
  intro c e c' h hs
  cases callStep_iff.mp hs with
  | isr => exact (isr_steps c.drv).invariant I hstep h
  | take => exact hframe _ false _ h
  | irqOff => exact hframe _ _ false h
  | _ => exact h

end PicoDrone.Analysis
