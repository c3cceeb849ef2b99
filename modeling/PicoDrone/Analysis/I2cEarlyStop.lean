import PicoDrone.Analysis.I2cReception

/-!
# STOP before the last byte is fetched

`isr` looks into the receive FIFO, then queues the read commands that are left, then tests
for STOP. A controller that executes them in between raises STOP with their bytes still in
the FIFO. Every transaction that reads has a schedule under which this happens in the first
run of the handler, and it then returns the number of bytes written
(`reception_never_safe`).
-/

set_option autoImplicit false

namespace PicoDrone.Analysis

open PicoDrone.Library PicoDrone.Model

variable {S : Slave} {q : ℕ → ℕ} {wbuffer : ℕ → Byte} {m n T : ℕ} {L : List Word} {r : ℕ}
  {c : Controller}

/-! ## The controller -/

/-- A bound on the steps that the controller has left. -/
def pending (c : Controller) : ℕ :=
  3 * c.txFifo.length + match c.shift with
    | .idle => 0
    | .busy _ => 2
    | .stopping => 1

theorem Quiet.pending (h : Quiet c) : pending c = 0 := by
  simp only [Analysis.pending, h.1, h.2, List.length_nil]

theorem quiet_of_pending (h : pending c = 0) : Quiet c := by
  unfold pending at h
  cases hshift : c.shift with
  | idle => exact ⟨hshift, List.length_eq_zero_iff.mp (by simp only [hshift] at h; omega)⟩
  | busy w =>
    simp only [hshift] at h
    omega
  | stopping =>
    simp only [hshift] at h
    omega

/-- INTERNAL: every step brings the controller closer to having nothing to do. -/
theorem tick_pending (hS : Slave.Willing S) {k : ℕ} (h : pending c ≤ k + 1) :
    pending (c.tick S) ≤ k := by
  have hstep := willingTick hS c
  generalize c.tick S = t at hstep ⊢
  cases hstep with
  | quiet hq =>
    rw [hq.pending]
    exact Nat.zero_le k
  | load w ws hshift hfifo =>
    simp only [pending, hshift, hfifo, List.length_cons] at h ⊢
    omega
  | read w hshift | write w hshift =>
    simp only [pending, hshift, Controller.completed] at h ⊢
    by_cases hstop : hasStop w = true
    · simp only [hstop, if_true]
      omega
    · simp only [hstop, Bool.false_eq_true, if_false]
      omega
  | stop hshift =>
    simp only [pending, hshift] at h ⊢
    omega

/-- INTERNAL: enough steps before a register access. -/
theorem advance_quiet (hS : Slave.Willing S) (h : pending c ≤ q c.now) :
    Quiet (c.advance S q) := by
  have hiter : ∀ k e, pending e ≤ k → Quiet ((Controller.tick S)^[k] e) := by
    intro k
    induction k with
    | zero => exact fun e he => quiet_of_pending (Nat.le_zero.mp he)
    | succ k ih =>
      intro e he
      rw [Function.iterate_succ_apply]
      exact ih _ (tick_pending hS he)
  exact hiter _ c h

/-- All `N` commands executed means STOP. -/
def StopRaised (N : ℕ) (c : Controller) : Prop :=
  N ≤ c.executed.length → c.shift = .stopping ∨ c.stopDet = true

/-- INTERNAL: a step of the controller with a willing slave. -/
theorem tick_raised (hS : Slave.Willing S) (h : CtlInv L r c)
    (hL : L <+: commandStream wbuffer m n) (hc : Answered (m + n) c) (hr : StopRaised (m + n) c) :
    StopRaised (m + n) (c.tick S) := by
  have hqueued := congrArg List.length (h.queued hc.willing)
  have hlen := hL.length_le
  rw [commandStream_length] at hlen
  simp only [List.length_append] at hqueued
  have hstep := willingTick hS c
  generalize c.tick S = t at hstep ⊢
  cases hstep with
  | quiet => exact hr
  | load w ws hshift hfifo =>
    intro hall
    rw [hfifo, List.length_cons] at hqueued
    simp only at hall
    omega
  | read w hshift | write w hshift =>
    intro hall
    rw [hshift, inFlight_busy, List.length_singleton] at hqueued
    simp only [Controller.completed, List.length_append, List.length_singleton] at hall
    have hlast : hasStop w = true :=
      (busy_command h hL hc.willing hshift).mpr (by omega)
    refine Or.inl ?_
    simp only [Controller.completed, hlast, if_true]
  | stop => exact fun _ => Or.inr rfl

/-- INTERNAL: the steps before a register access with a willing slave. -/
theorem advance_raised (hS : Slave.Willing S) (h : CtlInv L r c)
    (hL : L <+: commandStream wbuffer m n) (hc : Answered (m + n) c) (hr : StopRaised (m + n) c) :
    StopRaised (m + n) (c.advance S q) := by
  have hall := advance_induction (S := S) (q := q) (c := c)
    (fun e => CtlInv L r e ∧ Answered (m + n) e ∧ StopRaised (m + n) e)
    (fun e k he => ⟨he.1.frame e.stopDet k, ⟨he.2.1.willing, he.2.1.ended, he.2.1.stopped⟩,
      he.2.2⟩)
    (fun e he => ⟨tick_ctlInv he.1, tick_answered hS he.1 hL he.2.1,
      tick_raised hS he.1 hL he.2.1 he.2.2⟩) ⟨h, hc, hr⟩
  exact hall.2.2

theorem push_raised {N : ℕ} (w : Word) (h : StopRaised N c) : StopRaised N (c.push w) := by
  unfold Controller.push
  split_ifs
  · exact h
  · exact h
  · exact h

theorem pop_raised {N : ℕ} (h : StopRaised N c) : StopRaised N c.pop.2 := by
  unfold Controller.pop
  split
  · exact h
  · exact h

/-! ## The driver -/

/-- The driver of a call with a willing slave, before the handler has seen STOP. -/
structure Underway (wbuffer : ℕ → Byte) (m n : ℕ) (d : PicoI2C Controller) : Prop where
  stream : StreamInv wbuffer m n d
  bus : BusInv d
  answered : Answered (m + n) d.hw
  raised : d.log.stopSeen = false → StopRaised (m + n) d.hw

theorem step_underway (hS : Slave.Willing S) {d d' : PicoI2C Controller}
    (h : Underway wbuffer m n d) (hs : DriverStep (Controller.hw S q) d d') :
    Underway wbuffer m n d' := by
  have hL := h.stream.cmds_isPrefix
  have hstream := step_streamInv h.stream hs
  have hbus := step_busInv h.bus hs
  have hctl1 : CtlInv d.log.cmds d.log.rstores.length (d.hw.advance S q) := advance_ctlInv h.bus
  have hansw1 : Answered (m + n) (d.hw.advance S q) := advance_answered hS h.bus hL h.answered
  have hansw2 : Answered (m + n) ((d.hw.advance S q).advance S q) :=
    advance_answered hS hctl1 hL hansw1
  have hrais1 : d.log.stopSeen = false → StopRaised (m + n) (d.hw.advance S q) :=
    fun hseen => advance_raised hS h.bus hL h.answered (h.raised hseen)
  have hrais2 : d.log.stopSeen = false → StopRaised (m + n) ((d.hw.advance S q).advance S q) :=
    fun hseen => advance_raised hS hctl1 hL hansw1 (hrais1 hseen)
  cases hs with
  | full | empty | status => exact ⟨hstream, hbus, hansw1, hrais1⟩
  | queued => exact ⟨hstream, hbus, h.answered, h.raised⟩
  | txPut | rxPut =>
    exact ⟨hstream, hbus, push_answered _ hansw2, fun hseen => push_raised _ (hrais2 hseen)⟩
  | rxStore =>
    exact ⟨hstream, hbus, pop_answered hansw2, fun hseen => pop_raised (hrais2 hseen)⟩
  | stop =>
    exact ⟨hstream, hbus, ⟨hansw2.willing, hansw2.ended, fun hs => (by cases hs)⟩,
      fun hseen => (by cases hseen)⟩

/-- INTERNAL: the first fill with a willing slave.
SOURCE: i2c/PicoI2C.cpp:139-157 -/
theorem transaction_underway (hS : Slave.Willing S) (addr : Byte) (d : PicoI2C Controller)
    (hpos : 0 < m + n) :
    Underway wbuffer m n (transaction (Controller.hw S q) addr wbuffer m n d).drv := by
  have hnil : ([] : List Word) <+: commandStream wbuffer m n := List.nil_prefix
  have hctl := reset_ctlInv ((d.hw.advance S q).now)
  have hansw : Answered (m + n) (Controller.reset ((d.hw.advance S q).now)) := by
    constructor <;> simp [Controller.reset]
  have hrais : StopRaised (m + n) (Controller.reset ((d.hw.advance S q).now)) := by
    intro hall
    simp only [Controller.reset, List.length_nil] at hall
    omega
  have hctl1 := advance_ctlInv (S := S) (q := q) hctl
  have hansw1 := advance_answered (q := q) hS hctl hnil hansw
  have hprogram : Underway wbuffer m n (program (Controller.hw S q) addr wbuffer m n d) :=
    ⟨program_streamInv addr d, program_busInv addr wbuffer m n d,
      advance_answered hS hctl1 hnil hansw1,
      fun _ => advance_raised hS hctl1 hnil hansw1 (advance_raised hS hctl hnil hansw hrais)⟩
  have hfill := (initialFill_steps (R := Controller.hw S q)
    (program (Controller.hw S q) addr wbuffer m n d)).invariant (Underway wbuffer m n)
    (fun _ _ h hs => step_underway hS h hs) hprogram
  exact ⟨hfill.stream.frame _ _ _ _ _, hfill.bus, hfill.answered, hfill.raised⟩

/-! ## A controller faster than the driver -/

/-- From a time on the controller has three steps before each register access. -/
def FastFrom (T : ℕ) (q : ℕ → ℕ) : Prop := ∀ i, T ≤ i → 3 ≤ q i

/-- INTERNAL: a word stored into a controller with nothing to do. -/
theorem push_pending (w : Word) (h : Quiet c) : pending (c.push w) ≤ 3 := by
  unfold Controller.push
  split_ifs
  · rw [h.pending]
    exact Nat.zero_le 3
  · simp only [pending, h.1, h.2, List.nil_append, List.length_singleton]
    omega
  · rw [h.pending]
    exact Nat.zero_le 3

/-- INTERNAL: a controller faster than the driver takes all read commands.
SOURCE: i2c/PicoI2C.cpp:97-116 -/
theorem fast_rxLoop (hS : Slave.Willing S) (hfast : FastFrom T q) (fuel : ℕ)
    (d : PicoI2C Controller) (hfuel : d.rctr = fuel) (hnow : T ≤ d.hw.now)
    (hpending : pending d.hw ≤ 3) :
    (rxLoop (Controller.hw S q) fuel d).rctr = 0 ∧
      pending (rxLoop (Controller.hw S q) fuel d).hw ≤ 3 ∧
      T ≤ (rxLoop (Controller.hw S q) fuel d).hw.now := by
  induction fuel generalizing d with
  | zero => exact ⟨hfuel, hpending, hnow⟩
  | succ fuel ih =>
    have hquiet : Quiet (d.hw.advance S q) :=
      advance_quiet hS (hpending.trans (hfast _ hnow))
    have hnow1 : T ≤ (d.hw.advance S q).now := hnow.trans (Nat.le_succ _)
    have hquiet' : Quiet ((d.hw.advance S q).advance S q) := by
      apply advance_quiet hS
      rw [hquiet.pending]
      exact Nat.zero_le _
    have hroom : (Controller.hw S q).writeAvailable d.hw = (fifoDepth, d.hw.advance S q) := by
      simp [Controller.hw, hquiet.2]
    have hloop : rxLoop (Controller.hw S q) (fuel + 1) d = rxLoop (Controller.hw S q) fuel
        (rxPut (Controller.hw S q) { d with hw := d.hw.advance S q }) := by
      rw [rxLoop, if_pos (by omega), hroom]
      rfl
    rw [hloop]
    apply ih
    · simp only [rxPut]
      omega
    · simp only [rxPut, Controller.hw, Controller.push]
      split_ifs
      · exact hnow1.trans (Nat.le_succ _)
      · exact hnow1.trans (Nat.le_succ _)
      · exact hnow1.trans (Nat.le_succ _)
    · exact push_pending _ hquiet'

/-- INTERNAL: the refill of the handler when only read commands are left.
SOURCE: i2c/PicoI2C.cpp:203-212 -/
theorem fast_isrRefill (hS : Slave.Willing S) (hfast : FastFrom T q) {d : PicoI2C Controller}
    (hw : d.wctr = 0) (hquiet : Quiet d.hw) (hnow : T ≤ d.hw.now) :
    ∃ e : PicoI2C Controller,
      isrRefill (Controller.hw S q) d = { e with intrMask := ⟨true, false, true⟩ } ∧
      e.rctr = 0 ∧ e.wctr = 0 ∧ e.rcnt = d.rcnt ∧ e.log.stopSeen = d.log.stopSeen ∧
      pending e.hw ≤ 3 ∧ T ≤ e.hw.now := by
  obtain ⟨hrctr, hpending, htime⟩ := fast_rxLoop hS hfast d.rctr d rfl hnow
    (by rw [hquiet.pending]; exact Nat.zero_le 3)
  have hwctr : (rxFillFifo (Controller.hw S q) d).wctr = 0 :=
    (rxLoop_keeps (fun d => d.wctr) (fun _ _ => rfl) (fun _ => rfl) _ d).trans hw
  have hbranch : (if 0 < d.wctr then txFillFifo (Controller.hw S q) d
      else if 0 < d.rctr then rxFillFifo (Controller.hw S q) d else d) =
      rxFillFifo (Controller.hw S q) d := by
    rw [if_neg (by omega)]
    split
    · rfl
    · rename_i hzero
      rw [rxFillFifo, Nat.eq_zero_of_not_pos hzero, rxLoop]
  refine ⟨rxFillFifo (Controller.hw S q) d, ?_, hrctr, hwctr,
    rxLoop_keeps (fun d => d.rcnt) (fun _ _ => rfl) (fun _ => rfl) _ d,
    rxLoop_keeps (fun d => d.log.stopSeen) (fun _ _ => rfl) (fun _ => rfl) _ d, hpending, htime⟩
  unfold isrRefill
  rw [hbranch, if_pos]
  rw [hwctr, show (rxFillFifo (Controller.hw S q) d).rctr = 0 from hrctr]
  rfl

/-- INTERNAL: the receive loop of the handler finds nothing.
SOURCE: i2c/PicoI2C.cpp:190-196 -/
theorem drainLoop_of_empty {σ : Type} {R : I2cHw σ} {fuel : ℕ} {d : PicoI2C σ} (hfuel : 0 < fuel)
    (hrcnt : 0 < d.rcnt) (hnone : (R.rxflr d.hw).1 = 0) :
    drainLoop R fuel d = { d with hw := (R.rxflr d.hw).2 } := by
  cases fuel with
  | zero => exact absurd hfuel (lt_irrefl 0)
  | succ fuel => simp only [drainLoop, if_pos hrcnt, hnone, lt_irrefl, if_false]

/-- INTERNAL: the handler looks into an empty receive FIFO, then the controller executes
everything that is queued and everything the handler queues after it, and STOP is there
before the bytes are fetched.
SOURCE: i2c/PicoI2C.cpp:190-220 -/
theorem early_stop (hS : Slave.Willing S) (hfast : FastFrom T q) {d : PicoI2C Controller}
    (h : Underway wbuffer m n d) (hseen : d.log.stopSeen = false) (hw : d.wctr = 0) (hn : 0 < n)
    (hrcnt : d.rcnt = n) (hmask : d.intrMask = ⟨true, true, true⟩)
    (hempty : (d.hw.advance S q).rxFifo = [])
    (hquiet : Quiet ((d.hw.advance S q).advance S q))
    (hnow : T ≤ ((d.hw.advance S q).advance S q).now) :
    (isr (Controller.hw S q) d).notified = true ∧ (isr (Controller.hw S q) d).wctr = 0 ∧
      (isr (Controller.hw S q) d).rcnt = n := by
  have hlook : ∀ c : Controller, (Controller.hw S q).rawIntrStat c =
      (⟨(c.advance S q).stopDet, (c.advance S q).txFifo.isEmpty,
        decide (14 < (c.advance S q).rxFifo.length)⟩, c.advance S q) := fun _ => rfl
  have hnone : ((Controller.hw S q).rxflr d.hw).1 = 0 := congrArg List.length hempty
  have hdrain : isrDrain (Controller.hw S q) d = { d with hw := d.hw.advance S q } :=
    drainLoop_of_empty (by omega) (by omega) hnone
  have hway1 := step_underway hS h (DriverStep.empty d hnone)
  have hway2 := step_underway (q := q) hS hway1 (DriverStep.status _)
  obtain ⟨e, he, hrctr, hwctr, hercnt, heseen, hpending, htime⟩ := fast_isrRefill hS hfast
    (d := { d with hw := (d.hw.advance S q).advance S q }) hw hquiet hnow
  have hway3 : Underway wbuffer m n { e with intrMask := ⟨true, false, true⟩ } := by
    rw [← he]
    refine (isrRefill_steps _ ?_).invariant (Underway wbuffer m n)
      (fun _ _ h hs => step_underway hS h hs) hway2
    exact congrArg IntrBits.txEmpty hmask
  -- the last look finds everything executed
  have hquiet3 : Quiet (e.hw.advance S q) := advance_quiet hS (hpending.trans (hfast _ htime))
  have hctl3 := advance_ctlInv (S := S) (q := q) hway3.bus
  have hL := hway3.stream.cmds_isPrefix
  have hansw3 := advance_answered (q := q) hS hway3.bus hL hway3.answered
  have hrais3 := advance_raised (q := q) hS hway3.bus hL hway3.answered
    (hway3.raised (heseen.trans hseen))
  have hall : (e.hw.advance S q).executed.length = m + n := by
    have hqueued := congrArg List.length (hctl3.queued hansw3.willing)
    rw [hway3.stream.cmds, List.length_take, commandStream_length] at hqueued
    simp only [hquiet3.1, hquiet3.2, inFlight_idle, List.append_nil, hrctr, hwctr] at hqueued
    omega
  have hstop : (e.hw.advance S q).stopDet = true :=
    (hrais3 hall.ge).resolve_left (by rw [hquiet3.1]; decide)
  have hisr : isr (Controller.hw S q) d = isrStop (Controller.hw S q)
      { e with hw := e.hw.advance S q, intrMask := ⟨true, false, true⟩ } := by
    rw [hmask] at he
    simp [isr, hdrain, hlook, hquiet.2, hmask, he, hstop]
  rw [hisr]
  exact ⟨rfl, hwctr, hercnt.trans hrcnt⟩

/-! ## A controller that stands still -/

/-- The controller has executed nothing and holds only queued commands. -/
structure Stalled (c : Controller) : Prop where
  shift : c.shift = .idle
  rxFifo : c.rxFifo = []
  aborted : c.aborted = false
  room : c.txFifo.length ≤ fifoDepth

/-- The register accesses of a loop with so many commands left and so many free slots. -/
def fillAccesses (room commands : ℕ) : ℕ :=
  if commands ≤ room then 2 * commands else 2 * room + 1

theorem advance_stalled (h : q c.now = 0) : c.advance S q = { c with now := c.now + 1 } := by
  unfold Controller.advance
  rw [h]
  rfl

/-- INTERNAL: a controller that stands still takes what its transmit FIFO holds.
SOURCE: i2c/PicoI2C.cpp:97-116 -/
theorem stalled_rxLoop (fuel : ℕ) (d : PicoI2C Controller) (hfuel : d.rctr = fuel)
    (hc : Stalled d.hw)
    (hq : ∀ i, d.hw.now ≤ i →
      i < d.hw.now + fillAccesses (fifoDepth - d.hw.txFifo.length) fuel → q i = 0) :
    Stalled (rxLoop (Controller.hw S q) fuel d).hw ∧
      (rxLoop (Controller.hw S q) fuel d).hw.now =
        d.hw.now + fillAccesses (fifoDepth - d.hw.txFifo.length) fuel := by
  have hroom := hc.room
  induction fuel generalizing d with
  | zero => exact ⟨hc, rfl⟩
  | succ fuel ih =>
    have hpos : 0 < fillAccesses (fifoDepth - d.hw.txFifo.length) (fuel + 1) := by
      unfold fillAccesses
      split <;> omega
    have hlook : (Controller.hw S q).writeAvailable d.hw =
        (fifoDepth - d.hw.txFifo.length, { d.hw with now := d.hw.now + 1 }) := by
      change (fifoDepth - (d.hw.advance S q).txFifo.length, d.hw.advance S q) = _
      rw [advance_stalled (hq d.hw.now le_rfl (by omega))]
    rw [rxLoop, if_pos (by omega), hlook]
    dsimp only
    by_cases hfree : d.hw.txFifo.length < fifoDepth
    · have hsplit : fillAccesses (fifoDepth - d.hw.txFifo.length) (fuel + 1) =
          2 + fillAccesses (fifoDepth - (d.hw.txFifo.length + 1)) fuel := by
        unfold fillAccesses
        split_ifs <;> omega
      obtain ⟨w, hput⟩ : ∃ w, (rxPut (Controller.hw S q)
          { d with hw := { d.hw with now := d.hw.now + 1 } }).hw =
            { d.hw with now := d.hw.now + 1 + 1, txFifo := d.hw.txFifo ++ [w] } := by
        refine ⟨readWord d.restartOnNext (d.rctr == 1), ?_⟩
        simp only [rxPut, Controller.hw]
        rw [advance_stalled (hq (d.hw.now + 1) (by omega) (by omega))]
        simp only [Controller.push, hc.aborted, Bool.false_eq_true, if_false, hfree, if_true]
      rw [if_pos (by omega)]
      have hlen : (rxPut (Controller.hw S q)
          { d with hw := { d.hw with now := d.hw.now + 1 } }).hw.txFifo.length =
            d.hw.txFifo.length + 1 := by
        rw [hput, List.length_append, List.length_singleton]
      have hnow : (rxPut (Controller.hw S q)
          { d with hw := { d.hw with now := d.hw.now + 1 } }).hw.now = d.hw.now + 2 := by
        rw [hput]
      rw [hsplit] at hq ⊢
      obtain ⟨h1, h2⟩ := ih (rxPut (Controller.hw S q)
        { d with hw := { d.hw with now := d.hw.now + 1 } }) (by simp only [rxPut]; omega)
        (by
          rw [hput]
          refine ⟨hc.shift, hc.rxFifo, hc.aborted, ?_⟩
          simp only [List.length_append, List.length_singleton]
          omega)
        (by
          rw [hlen, hnow]
          exact fun i hi hlt => hq i (by omega) (by omega))
        (by omega)
      refine ⟨h1, ?_⟩
      rw [h2, hlen, hnow]
      omega
    · rw [if_neg (by omega)]
      refine ⟨⟨hc.shift, hc.rxFifo, hc.aborted, hc.room⟩, ?_⟩
      have hfull : fifoDepth - d.hw.txFifo.length = 0 := by omega
      rw [hfull]
      rfl

/-- The time at which the first fill of a transaction that only reads has looked into the
transmit FIFO for the last time. -/
def filledAt (now n : ℕ) : ℕ := now + 3 + fillAccesses fifoDepth n

/-- INTERNAL: the first fill of a transaction that only reads, with a controller that stands
still.
SOURCE: i2c/PicoI2C.cpp:139-157 -/
theorem stalled_transaction (addr : Byte) (d : PicoI2C Controller)
    (hq : ∀ i, i < filledAt d.hw.now n → q i = 0) :
    Stalled (transaction (Controller.hw S q) addr wbuffer 0 n d).drv.hw ∧
      (transaction (Controller.hw S q) addr wbuffer 0 n d).drv.hw.now = filledAt d.hw.now n := by
  have hprogram : (program (Controller.hw S q) addr wbuffer 0 n d).hw =
      Controller.reset (d.hw.now + 3) := by
    have hfirst : (Controller.reset (d.hw.now + 1)).advance S q =
        Controller.reset (d.hw.now + 2) :=
      advance_stalled (hq (d.hw.now + 1) (by unfold filledAt; omega))
    have hsecond : (Controller.reset (d.hw.now + 2)).advance S q =
        Controller.reset (d.hw.now + 3) :=
      advance_stalled (hq (d.hw.now + 2) (by unfold filledAt; omega))
    change ((Controller.reset (d.hw.now + 1)).advance S q).advance S q = _
    rw [hfirst, hsecond]
  have hfill : (transaction (Controller.hw S q) addr wbuffer 0 n d).drv.hw =
      (rxLoop (Controller.hw S q) n (program (Controller.hw S q) addr wbuffer 0 n d)).hw := rfl
  obtain ⟨h1, h2⟩ := stalled_rxLoop (S := S) (q := q) n
    (program (Controller.hw S q) addr wbuffer 0 n d) rfl
    (by rw [hprogram]; exact ⟨rfl, rfl, rfl, Nat.zero_le _⟩)
    (by rw [hprogram]; exact fun i _ hlt => hq i hlt)
  rw [hfill, h2, hprogram]
  exact ⟨h1, rfl⟩

/-! ## Every transaction that reads -/

/-- INTERNAL: before the first read command nothing is received. -/
theorem no_bytes_before_reads (h : CtlInv L r c) (hL : L <+: commandStream wbuffer m n)
    (hlen : L.length ≤ m) (hr : c.refused = false) : c.rxFifo = [] := by
  have hqueued := h.queued hr
  have hstart : c.executed <+: L := by
    rw [← hqueued, List.append_assoc]
    exact List.prefix_append _ _
  have hacked := h.acked
  rw [List.prefix_iff_eq_take.mp (hstart.trans hL), writeWords_take] at hacked
  have hle := hstart.length_le
  have hdelivered := h.delivered
  have hreceived := h.received
  apply List.length_eq_zero_iff.mp
  omega

/-- INTERNAL: what the handler finds after the first fill.
SOURCE: i2c/PicoI2C.cpp:139-157 -/
theorem transaction_fields (addr : Byte) (wbuffer : ℕ → Byte) (m n : ℕ) (d : PicoI2C Controller) :
    (transaction (Controller.hw S q) addr wbuffer m n d).drv.log.stopSeen = false ∧
      (transaction (Controller.hw S q) addr wbuffer m n d).drv.rcnt = n ∧
      (transaction (Controller.hw S q) addr wbuffer m n d).drv.intrMask = ⟨true, true, true⟩ :=
  ⟨beginTransaction_keeps (fun d => d.log.stopSeen) (fun _ _ => rfl) (fun _ => rfl)
      (fun _ => rfl) (fun _ => rfl) addr wbuffer m n d,
    beginTransaction_keeps (fun d => d.rcnt) (fun _ _ => rfl) (fun _ => rfl)
      (fun _ => rfl) (fun _ => rfl) addr wbuffer m n d,
    beginTransaction_keeps (fun d => d.intrMask) (fun _ _ => rfl) (fun _ => rfl)
      (fun _ => rfl) (fun _ => rfl) addr wbuffer m n d⟩

/-- The first run of the handler notifies the task with all `n` bytes missing. -/
def NotifiesEarly (n : ℕ) (d : PicoI2C Controller) : Prop :=
  d.notified = true ∧ d.wctr = 0 ∧ d.rcnt = n

/-- INTERNAL: a transaction that writes first, with a controller faster than the driver. -/
theorem early_after_write (hS : Slave.Willing S) (addr : Byte) (wbuffer : ℕ → Byte) (hm : 0 < m)
    (hn : 0 < n) (d : PicoI2C Controller) :
    NotifiesEarly n (isr (Controller.hw S eager)
      (transaction (Controller.hw S eager) addr wbuffer m n d).drv) := by
  obtain ⟨_, rfl, hdrv, hwctr, hset, -, -⟩ := eager_fill S wbuffer hm n addr d
  have hrctr := txLoop_keeps (R := Controller.hw S eager) (fun d => d.rctr) (fun _ _ => rfl)
    (fun _ => rfl) m (program (Controller.hw S eager) addr wbuffer m n d)
  obtain ⟨hseen, hrcnt, hmask⟩ := transaction_fields (S := S) (q := eager) addr wbuffer m n d
  have hway : Underway wbuffer m n (transaction (Controller.hw S eager) addr wbuffer m n d).drv :=
    transaction_underway hS addr d (show 0 < m + n by omega)
  rw [hdrv] at hseen hrcnt hmask hway ⊢
  have hquiet := eager_settled (S := S) hset
  have hctl := advance_ctlInv (S := S) (q := eager) hway.bus
  have hansw := advance_answered (q := eager) hS hway.bus hway.stream.cmds_isPrefix
    hway.answered
  apply early_stop (T := 0) hS (fun _ _ => le_rfl) hway hseen hwctr hn hrcnt hmask
  · refine no_bytes_before_reads hctl hway.stream.cmds_isPrefix ?_ hansw.willing
    have hreads : n - (txLoop (Controller.hw S eager) m
        (program (Controller.hw S eager) addr wbuffer m n d)).rctr = 0 := by
      rw [hrctr]
      exact Nat.sub_self n
    rw [hway.stream.cmds, List.length_take, hreads]
    exact (Nat.min_le_left _ _).trans (Nat.sub_le m _)
  · exact eager_settled hquiet.settled
  · exact Nat.zero_le _

/-- A controller that stands still before a time and then executes everything that is queued
before each register access. -/
def stalledUntil (T : ℕ) : ℕ → ℕ := fun now => if now < T then 0 else 48

/-- INTERNAL: a transaction that only reads, with a controller that starts after the handler has
looked into the receive FIFO. -/
theorem early_without_write (hS : Slave.Willing S) (addr : Byte) (wbuffer : ℕ → Byte)
    (hn : 0 < n) (d : PicoI2C Controller) :
    NotifiesEarly n (isr (Controller.hw S (stalledUntil (filledAt d.hw.now n + 1)))
      (transaction (Controller.hw S (stalledUntil (filledAt d.hw.now n + 1))) addr wbuffer 0 n
        d).drv) := by
  have hstill : ∀ i, i < filledAt d.hw.now n + 1 →
      stalledUntil (filledAt d.hw.now n + 1) i = 0 := fun i hi => if_pos hi
  have hgoes : ∀ i, filledAt d.hw.now n + 1 ≤ i →
      stalledUntil (filledAt d.hw.now n + 1) i = 48 := fun i hi => if_neg (by omega)
  generalize stalledUntil (filledAt d.hw.now n + 1) = q at hstill hgoes ⊢
  have hwhole : Stalled (transaction (Controller.hw S q) addr wbuffer 0 n d).drv.hw ∧
      (transaction (Controller.hw S q) addr wbuffer 0 n d).drv.hw.now = filledAt d.hw.now n :=
    stalled_transaction addr d (fun i hi => hstill i (by omega))
  obtain ⟨hstalled, hnow⟩ := hwhole
  obtain ⟨hseen, hrcnt, hmask⟩ := transaction_fields (S := S) (q := q) addr wbuffer 0 n d
  have hway : Underway wbuffer 0 n (transaction (Controller.hw S q) addr wbuffer 0 n d).drv :=
    transaction_underway hS addr d (show 0 < 0 + n by omega)
  have hwctr := Nat.le_zero.mp hway.stream.wctr_le
  generalize (transaction (Controller.hw S q) addr wbuffer 0 n d).drv = t at *
  have hlook : t.hw.advance S q = { t.hw with now := t.hw.now + 1 } :=
    advance_stalled (hstill _ (by omega))
  have hnow1 : (t.hw.advance S q).now = filledAt d.hw.now n + 1 := by rw [hlook, hnow]
  apply early_stop hS (T := filledAt d.hw.now n + 1)
    (fun i hi => by rw [hgoes i hi]; omega) hway hseen hwctr hn hrcnt hmask
  · rw [hlook]
    exact hstalled.rxFifo
  · apply advance_quiet hS
    have hroom := hstalled.room
    rw [hgoes _ hnow1.ge, hlook]
    simp only [pending, hstalled.shift, fifoDepth] at hroom ⊢
    omega
  · exact hnow1.ge.trans (Nat.le_succ _)

/-- CONTRACT: for every transaction that reads, with every slave that acknowledges everything,
there is a schedule of the controller under which the call returns without a timeout after
the first run of the handler and counts none of the bytes read.
SOURCE: i2c/PicoI2C.cpp:134-222 -/
theorem reception_never_safe (S : Slave) (hS : Slave.Willing S) (addr : Byte)
    (wbuffer : ℕ → Byte) (m n : ℕ) (hn : 0 < n) (hlt : m + n < 2 ^ 32) (d : PicoI2C Controller) :
    ∃ sched c, (transactionMachine (Controller.hw S sched)).run
        (transaction (Controller.hw S sched) addr wbuffer m n d)
        [.isr, .take, .count, .irqOff] = some c ∧
      c.phase = .returned m ∧ c.timedOut = false := by
  obtain ⟨sched, hnote, hwctr, hrcnt⟩ : ∃ sched, NotifiesEarly n (isr (Controller.hw S sched)
      (transaction (Controller.hw S sched) addr wbuffer m n d).drv) := by
    obtain rfl | hm := Nat.eq_zero_or_pos m
    · exact ⟨_, early_without_write hS addr wbuffer hn d⟩
    · exact ⟨eager, early_after_write hS addr wbuffer hm hn d⟩
  obtain ⟨-, -, hmask⟩ := transaction_fields (S := S) (q := sched) addr wbuffer m n d
  have hvalue : u32 ((u32 (m + n) : ℕ) - (u32 (n + (0 : ℕ)) : ℕ)) = m := by
    rw [count_value hlt (by omega)]
    omega
  generalize ht : transaction (Controller.hw S sched) addr wbuffer m n d = t at *
  have hphase : t.phase = .waiting := by rw [← ht]; rfl
  have hirq : t.drv.irqEnabled = true := by rw [← ht]; rfl
  have hw : t.wlength = m := by rw [← ht]; rfl
  have hr : t.rlength = n := by rw [← ht]; rfl
  have hany : t.drv.intrMask ≠ IntrBits.none := by
    rw [hmask]
    decide
  have htime : t.timedOut = false := by rw [← ht]; rfl
  refine ⟨sched, ?_⟩
  rw [ht]
  refine ⟨_, (CallStep.isr hirq hany).run_cons ((CallStep.take
    (c := { t with drv := isr (Controller.hw S sched) t.drv }) hphase hnote).run_cons
    ((CallStep.count rfl).run_cons ((CallStep.irqOff _ rfl).run_cons rfl))), ?_, htime⟩
  simp only [hw, hr, hrcnt, hwctr, hvalue]

end PicoDrone.Analysis
