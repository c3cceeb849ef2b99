import PicoDrone.Analysis.I2cEager
import PicoDrone.Analysis.I2cRecording
import PicoDrone.Model.I2cWatch

/-!
# Received bytes

With a slave that acknowledges everything, the controller executes all `m + n` commands and
raises STOP behind the last one. No byte is lost as long as every read command is stored with
room left for its byte, and the count is complete if the handler finds the receive FIFO empty
when it sees STOP (`transaction_receives_all`). The driver ensures neither.
-/

set_option autoImplicit false

namespace PicoDrone.Analysis

open PicoDrone.Library PicoDrone.Model

/-- The slave acknowledges its address and every byte. -/
structure Slave.Willing (S : Slave) : Prop where
  addr : ∀ i, S.ackAddr i = true
  byte : ∀ i, S.ackByte i = true

/-- What a willing slave has delivered, in order. -/
def deliveredBytes (S : Slave) (n : ℕ) : List (ℕ × Byte) :=
  (List.range n).map fun i => (i, S.readByte i)

variable {S : Slave} {q : ℕ → ℕ} {wbuffer : ℕ → Byte} {m n : ℕ} {L : List Word} {r : ℕ}
  {c : Controller}

/-! ## The controller -/

/-- What a step of the controller does when the slave is willing. -/
inductive WillingTick (S : Slave) (c : Controller) : Controller → Prop
  | quiet (h : Quiet c) : WillingTick S c c
  | load (w : Word) (ws : List Word) (hshift : c.shift = .idle) (hfifo : c.txFifo = w :: ws) :
      WillingTick S c { c with txFifo := ws, shift := .busy w }
  | read (w : Word) (hshift : c.shift = .busy w) (hread : isRead w = true) (acks : ℕ)
      (need : Bool) :
      WillingTick S c (Controller.completed { c with
        addrAcks := acks
        needAddr := need
        rxFifo := if c.rxFifo.length < fifoDepth then c.rxFifo ++ [S.readByte c.delivered]
          else c.rxFifo
        delivered := c.delivered + 1 } w)
  | write (w : Word) (hshift : c.shift = .busy w) (hread : isRead w = false) (acks : ℕ)
      (need : Bool) :
      WillingTick S c (Controller.completed { c with
        addrAcks := acks, needAddr := need, acked := c.acked + 1 } w)
  | stop (hshift : c.shift = .stopping) :
      WillingTick S c { c with stopDet := true, shift := .idle, needAddr := true }

/-- INTERNAL: a willing slave refuses nothing. -/
theorem willingTick (hS : Slave.Willing S) (c : Controller) : WillingTick S c (c.tick S) := by
  unfold Controller.tick
  cases hshift : c.shift with
  | idle =>
    cases hfifo : c.txFifo with
    | nil => exact WillingTick.quiet ⟨hshift, hfifo⟩
    | cons w ws => exact WillingTick.load w ws hshift hfifo
  | busy w =>
    have hno : ¬ (c.addresses w && !S.ackAddr c.addrAcks) = true := by
      rw [hS.addr]
      simp
    obtain ⟨acks, need, haddressed⟩ : ∃ acks need,
        c.addressed w = { c with addrAcks := acks, needAddr := need } := by
      unfold Controller.addressed
      split
      · exact ⟨_, _, rfl⟩
      · exact ⟨c.addrAcks, c.needAddr, rfl⟩
    dsimp only
    rw [if_neg hno, haddressed]
    unfold Controller.transfer
    cases hread : isRead w with
    | true => exact WillingTick.read w hshift hread acks need
    | false =>
      simp only [hS.byte, if_true, Bool.false_eq_true, if_false]
      exact WillingTick.write w hshift hread acks need
  | stopping => exact WillingTick.stop hshift

/-- Nothing was refused, and STOP comes after all `N` commands. -/
structure Answered (N : ℕ) (c : Controller) : Prop where
  willing : c.refused = false
  ended : c.shift = .stopping → N ≤ c.executed.length
  stopped : c.stopDet = true → N ≤ c.executed.length

/-- INTERNAL: the STOP bit is on the last command and on no other. -/
theorem busy_command {w : Word} (h : CtlInv L r c) (hL : L <+: commandStream wbuffer m n)
    (hr : c.refused = false) (hshift : c.shift = .busy w) :
    hasStop w = true ↔ c.executed.length + 1 = m + n := by
  have hq := h.queued hr
  rw [hshift, inFlight_busy] at hq
  have hat : (commandStream wbuffer m n)[c.executed.length]? = some w := by
    obtain ⟨rest, hrest⟩ := hL
    rw [← hrest, ← hq]
    simp
  exact (commandStream_spec hat).stop_iff

/-- INTERNAL: a command that is done and was not refused. -/
theorem completed_answered {w : Word} {N : ℕ} (hlast : hasStop w = true → c.executed.length + 1 = N)
    (hr : c.refused = false) (hstopped : c.stopDet = true → N ≤ c.executed.length) :
    Answered N (c.completed w) := by
  refine ⟨hr, fun hs => ?_, fun hs => ?_⟩
  · have hstop : hasStop w = true := by
      by_contra hne
      simp [Controller.completed, hne] at hs
    have := hlast hstop
    simp only [Controller.completed, List.length_append, List.length_singleton]
    omega
  · have := hstopped hs
    simp only [Controller.completed, List.length_append, List.length_singleton]
    omega

/-- INTERNAL: a step of the controller with a willing slave. -/
theorem tick_answered (hS : Slave.Willing S) (h : CtlInv L r c)
    (hL : L <+: commandStream wbuffer m n) (hc : Answered (m + n) c) :
    Answered (m + n) (c.tick S) := by
  have hstep := willingTick hS c
  generalize c.tick S = t at hstep ⊢
  cases hstep with
  | quiet => exact hc
  | load => exact ⟨hc.willing, fun hs => (by cases hs), hc.stopped⟩
  | read w hshift | write w hshift =>
    exact completed_answered (busy_command h hL hc.willing hshift).mp hc.willing hc.stopped
  | stop hshift => exact ⟨hc.willing, fun hs => (by cases hs), fun _ => hc.ended hshift⟩

/-- A controller whose driver has fetched `r` bytes: every byte that was delivered was fetched
or is in the receive FIFO, in order, and all outstanding bytes have room there. -/
structure Lossless (S : Slave) (r : ℕ) (c : Controller) : Prop where
  room : c.outstanding ≤ fifoDepth
  kept : r + c.rxFifo.length = c.delivered
  bytes : c.rxFifo = (List.range c.rxFifo.length).map fun i => S.readByte (r + i)

/-- INTERNAL: a step of the controller loses no byte that there is room for. -/
theorem tick_lossless (hS : Slave.Willing S) (hc : Lossless S r c) :
    Lossless S r (c.tick S) := by
  have hroom := hc.room
  have hstep := willingTick hS c
  generalize c.tick S = t at hstep ⊢
  cases hstep with
  | quiet => exact hc
  | load w ws hshift hfifo =>
    refine ⟨?_, hc.kept, hc.bytes⟩
    simp only [Controller.outstanding, hshift, hfifo, List.filter_cons] at hroom ⊢
    by_cases hread : isRead w = true
    · simp only [hread, if_true, List.length_cons] at hroom ⊢
      omega
    · simp only [hread, Bool.false_eq_true, if_false] at hroom ⊢
      omega
  | read w hshift hread =>
    simp only [Controller.outstanding, hshift, hread, if_true] at hroom
    rw [if_pos (by omega)]
    refine ⟨?_, ?_, ?_⟩
    · simp only [Controller.outstanding, Controller.completed, List.length_append,
        List.length_singleton]
      split_ifs <;> omega
    · simp only [Controller.completed, List.length_append, List.length_singleton, ← hc.kept,
        Nat.add_assoc]
    · simp only [Controller.completed, ← hc.kept, List.length_append, List.length_singleton,
        List.range_succ, List.map_append, List.map_cons, List.map_nil]
      rw [← hc.bytes]
  | write w hshift hread =>
    simp only [Controller.outstanding, hshift, hread, Bool.false_eq_true, if_false] at hroom
    refine ⟨?_, hc.kept, hc.bytes⟩
    simp only [Controller.outstanding, Controller.completed]
    split_ifs <;> omega
  | stop hshift =>
    refine ⟨?_, hc.kept, hc.bytes⟩
    simpa [Controller.outstanding, hshift] using hroom

/-- INTERNAL: the steps before a register access with a willing slave. -/
theorem advance_answered (hS : Slave.Willing S) (h : CtlInv L r c)
    (hL : L <+: commandStream wbuffer m n) (hc : Answered (m + n) c) :
    Answered (m + n) (c.advance S q) := by
  have hall := advance_induction (S := S) (q := q) (c := c)
    (fun e => CtlInv L r e ∧ Answered (m + n) e)
    (fun e k he => ⟨he.1.frame e.stopDet k, he.2.willing, he.2.ended, he.2.stopped⟩)
    (fun e he => ⟨tick_ctlInv he.1, tick_answered hS he.1 hL he.2⟩) ⟨h, hc⟩
  exact hall.2

theorem advance_lossless (hS : Slave.Willing S) (hc : Lossless S r c) :
    Lossless S r (c.advance S q) :=
  advance_induction (Lossless S r) (fun _ _ h => ⟨h.room, h.kept, h.bytes⟩)
    (fun _ h => tick_lossless hS h) hc

theorem push_answered {N : ℕ} (w : Word) (h : Answered N c) : Answered N (c.push w) := by
  unfold Controller.push
  split_ifs
  · exact h
  · exact ⟨h.willing, h.ended, h.stopped⟩
  · exact h

/-- INTERNAL: a stored command needs room for its byte. -/
theorem push_lossless {w : Word} (h : Lossless S r c)
    (hroom : isRead w = true → c.outstanding < fifoDepth) : Lossless S r (c.push w) := by
  unfold Controller.push
  split_ifs
  · exact h
  · refine ⟨?_, h.kept, h.bytes⟩
    have hle := h.room
    simp only [Controller.outstanding, List.filter_append, List.length_append] at hroom hle ⊢
    by_cases hread : isRead w = true
    · have := hroom hread
      simp only [hread, List.filter_cons, if_true, List.filter_nil, List.length_singleton]
      omega
    · simp only [hread, Bool.false_eq_true, List.filter_cons, if_false, List.filter_nil,
        List.length_nil]
      omega
  · exact h

theorem pop_answered {N : ℕ} (h : Answered N c) : Answered N c.pop.2 := by
  unfold Controller.pop
  split
  · exact h
  · exact ⟨h.willing, h.ended, h.stopped⟩

/-- INTERNAL: the byte that is fetched is the next one in order. -/
theorem pop_lossless (h : Lossless S r c) (hsome : 0 < c.rxFifo.length) :
    c.pop.1.setWidth 8 = S.readByte r ∧ Lossless S (r + 1) c.pop.2 := by
  have hkept := h.kept
  have hroom := h.room
  have hbytes := h.bytes
  unfold Controller.pop
  cases hfifo : c.rxFifo with
  | nil =>
    rw [hfifo] at hsome
    cases hsome
  | cons b bs =>
    rw [hfifo, List.length_cons] at hkept hbytes
    rw [List.range_succ_eq_map, List.map_cons, List.map_map] at hbytes
    obtain ⟨hb, hbs⟩ := List.cons.inj hbytes
    refine ⟨?_, ?_, ?_, ?_⟩
    · rw [hb]
      simp
    · simp only [Controller.outstanding, hfifo, List.length_cons] at hroom ⊢
      omega
    · simp only
      omega
    · simp only
      refine hbs.trans (List.map_congr_left fun i _ => ?_)
      simp only [Function.comp_apply, Nat.succ_eq_add_one]
      congr 1
      omega

/-! ## The driver -/

/-- The driver without the record of the watched controller. -/
def plain (d : PicoI2C Watched) : PicoI2C Controller := d.mapHw Watched.ctl

theorem watched_answersAlike (S : Slave) (q : ℕ → ℕ) :
    AnswersAlike (Watched.hw S q) (Controller.hw S q) Watched.ctl := by
  refine ⟨fun _ => rfl, fun _ _ => rfl, fun _ => rfl, fun _ => rfl, fun _ => rfl, fun _ => rfl, ?_,
    fun _ _ => rfl⟩
  intro on w
  cases on <;> rfl

/-- INTERNAL: the record changes no step of the driver. -/
theorem step_plain {d d' : PicoI2C Watched} (hs : DriverStep (Watched.hw S q) d d') :
    DriverStep (Controller.hw S q) (plain d) (plain d') := by
  cases hs with
  | full h => exact DriverStep.full (plain d) h
  | txPut hw h => exact DriverStep.txPut (plain d) hw h
  | rxPut hw hr h => exact DriverStep.rxPut (plain d) hw hr h
  | empty h => exact DriverStep.empty (plain d) h
  | rxStore hr h => exact DriverStep.rxStore (plain d) hr h
  | status => exact DriverStep.status (plain d)
  | queued hw hr hm => exact DriverStep.queued (plain d) hw hr hm
  | stop h hm => exact DriverStep.stop (plain d) h hm

theorem StreamInv.plain {d : PicoI2C Watched} (h : StreamInv wbuffer m n d) :
    StreamInv wbuffer m n (plain d) :=
  ⟨h.buffer, h.wctr_le, h.rctr_le, h.rcnt_le, h.order, h.wbuf_eq, h.rbuf_eq, h.restart, h.cmds,
    h.wreads, h.rstores⟩

/-- The call without the record of the watched controller. -/
def plainCall (c : Transaction Watched) : Transaction Controller := c.mapHw Watched.ctl

/-- INTERNAL: the runs of a call with the watched controller are those with the controller
itself.
SOURCE: i2c/PicoI2C.cpp:134-222 -/
theorem plainCall_run (addr : Byte) (wbuffer : ℕ → Byte) (m n : ℕ) (d : PicoI2C Watched)
    (es : List Event) :
    (transactionMachine (Controller.hw S q)).run
        (transaction (Controller.hw S q) addr wbuffer m n (plain d)) es =
      ((transactionMachine (Watched.hw S q)).run
        (transaction (Watched.hw S q) addr wbuffer m n d) es).map plainCall :=
  (watched_answersAlike S q).run addr wbuffer m n d es

/-- The driver of a call with a willing slave. While no read command was stored without room,
nothing is lost and the bytes are stored in order; if STOP never came with bytes in the
receive FIFO either, all of them were stored before STOP was handled. -/
structure Receiving (S : Slave) (wbuffer : ℕ → Byte) (m n : ℕ) (d : PicoI2C Watched) : Prop where
  stream : StreamInv wbuffer m n d
  bus : BusInv (plain d)
  answered : Answered (m + n) d.hw.ctl
  lossless : d.hw.crowded = false → Lossless S d.log.rstores.length d.hw.ctl
  stored : d.hw.crowded = false → d.log.rstores = deliveredBytes S d.log.rstores.length
  stopped : d.hw.crowded = false → d.hw.unread = false → d.log.stopSeen = true →
    d.log.cmds.length = m + n ∧ d.log.rstores.length = n

/-- INTERNAL: what is missing says the counters. -/
theorem Receiving.counters {d : PicoI2C Watched} (h : Receiving S wbuffer m n d) :
    d.log.cmds.length = m - d.wctr + (n - d.rctr) ∧ d.log.rstores.length = n - d.rcnt := by
  refine ⟨?_, h.stream.rstores_length⟩
  rw [h.stream.cmds, List.length_take, commandStream_length]
  omega

/-- INTERNAL: a controller that has executed everything and whose bytes are all fetched.
SOURCE: i2c/PicoI2C.cpp:216-220 -/
theorem all_received {d : PicoI2C Controller} (hstream : StreamInv wbuffer m n d) (hbus : BusInv d)
    (hansw : Answered (m + n) d.hw) (hloss : Lossless S d.log.rstores.length d.hw)
    (hstop : d.hw.stopDet = true) (hnone : d.hw.rxFifo = []) :
    d.log.cmds.length = m + n ∧ d.log.rstores.length = n := by
  have hall := hansw.stopped hstop
  have hkept := hloss.kept
  have hdelivered := hbus.delivered
  obtain ⟨hlen, hacked⟩ := executed_acked hstream hbus
  rw [hnone, List.length_nil] at hkept
  have hqueued := congrArg List.length (hbus.queued hansw.willing)
  have hcmds := hstream.cmds_isPrefix.length_le
  rw [commandStream_length] at hcmds
  simp only [List.length_append] at hqueued
  constructor
  · omega
  · omega

theorem step_receiving (hS : Slave.Willing S) {d d' : PicoI2C Watched}
    (h : Receiving S wbuffer m n d) (hs : DriverStep (Watched.hw S q) d d') :
    Receiving S wbuffer m n d' := by
  have hL := h.stream.cmds_isPrefix
  have hstream := step_streamInv h.stream hs
  have hbus := step_busInv h.bus (step_plain hs)
  obtain ⟨hcmds, hbytes⟩ := h.counters
  have hctl1 : CtlInv d.log.cmds d.log.rstores.length (d.hw.ctl.advance S q) :=
    advance_ctlInv h.bus
  have hansw1 : Answered (m + n) (d.hw.ctl.advance S q) :=
    advance_answered hS h.bus hL h.answered
  have hansw2 : Answered (m + n) ((d.hw.ctl.advance S q).advance S q) :=
    advance_answered hS hctl1 hL hansw1
  have hloss1 : d.hw.crowded = false → Lossless S d.log.rstores.length (d.hw.ctl.advance S q) :=
    fun hc => advance_lossless hS (h.lossless hc)
  have hloss2 : d.hw.crowded = false →
      Lossless S d.log.rstores.length ((d.hw.ctl.advance S q).advance S q) :=
    fun hc => advance_lossless hS (hloss1 hc)
  cases hs with
  | full => exact ⟨hstream, hbus, hansw1, hloss1, h.stored, h.stopped⟩
  | empty => exact ⟨hstream, hbus, hansw1, hloss1, h.stored, h.stopped⟩
  | queued => exact ⟨hstream, hbus, h.answered, h.lossless, h.stored, h.stopped⟩
  | txPut hw _ =>
    have hle := h.stream.wctr_le
    have hread := (writeWord_fields d.restartOnNext (d.wctr == 1 && d.rctr == 0)
      (d.wbuffer d.wbuf)).2.2.1
    refine ⟨hstream, hbus, push_answered _ hansw2, fun hc => ?_, fun hc => ?_,
      fun hc hu hseen => ?_⟩
    · apply push_lossless (hloss2 (Bool.or_eq_false_iff.mp hc).1)
      intro hr
      cases hread.symm.trans hr
    · exact h.stored (Bool.or_eq_false_iff.mp hc).1
    · have := h.stopped (Bool.or_eq_false_iff.mp hc).1 hu hseen
      omega
  | rxPut hw hr _ =>
    have hle := h.stream.rctr_le
    have hread := (readWord_fields d.restartOnNext (d.rctr == 1)).2.2
    refine ⟨hstream, hbus, push_answered _ hansw2, fun hc => ?_, fun hc => ?_,
      fun hc hu hseen => ?_⟩
    · apply push_lossless (hloss2 (Bool.or_eq_false_iff.mp hc).1)
      intro _
      obtain hno | hroom := Bool.and_eq_false_iff.mp (Bool.or_eq_false_iff.mp hc).2
      · cases hread.symm.trans hno
      · exact Nat.lt_of_not_le (of_decide_eq_false hroom)
    · exact h.stored (Bool.or_eq_false_iff.mp hc).1
    · have := h.stopped (Bool.or_eq_false_iff.mp hc).1 hu hseen
      omega
  | rxStore hr hsome =>
    have hle := h.stream.rcnt_le
    have hfifo := (advance_fifos (S := S) (q := q) (d.hw.ctl.advance S q)).2
    have hsome' : 0 < (d.hw.ctl.advance S q).rxFifo.length := hsome
    have hpop := fun hc => pop_lossless (hloss2 hc) (by omega)
    refine ⟨hstream, hbus, pop_answered hansw2, fun hc => ?_, fun hc => ?_,
      fun hc hu hseen => ?_⟩
    · have := (hpop hc).2
      simpa [rxStore, Watched.hw, Controller.hw] using this
    · have hbyte := (hpop hc).1
      have hindex : d.rbuf = d.log.rstores.length := h.stream.rbuf_eq.trans hbytes.symm
      simp only [rxStore, deliveredBytes, List.length_append, List.length_singleton,
        List.range_succ, List.map_append, List.map_cons, List.map_nil, hindex]
      rw [← deliveredBytes, ← h.stored hc]
      congr 3
    · have := h.stopped hc hu hseen
      omega
  | status =>
    refine ⟨hstream, hbus, hansw1, hloss1, h.stored, fun hc hu => ?_⟩
    exact h.stopped hc (Bool.or_eq_false_iff.mp hu).1
  | stop hdet _ =>
    refine ⟨hstream, hbus, ⟨hansw2.willing, hansw2.ended, fun hs => (by cases hs)⟩,
      fun hc => ?_, h.stored, fun hc hu _ => ?_⟩
    · have hl := hloss2 hc
      exact ⟨hl.room, hl.kept, hl.bytes⟩
    · have hnone : (d.hw.ctl.advance S q).rxFifo = [] := by
        have hlook := (Bool.or_eq_false_iff.mp hu).2
        change ((d.hw.ctl.advance S q).stopDet && !(d.hw.ctl.advance S q).rxFifo.isEmpty) = false
          at hlook
        rw [show (d.hw.ctl.advance S q).stopDet = true from hdet] at hlook
        simpa using hlook
      exact all_received (d := { plain d with hw := d.hw.ctl.advance S q })
        (h.stream.plain.frame _ _ _ _ _) hctl1 hansw1 (hloss1 hc) hdet hnone

/-- INTERNAL: a freshly programmed controller has lost nothing.
SOURCE: i2c/PicoI2C.cpp:139-149 -/
theorem program_receiving (hS : Slave.Willing S) (addr : Byte) (d : PicoI2C Watched) :
    Receiving S wbuffer m n (program (Watched.hw S q) addr wbuffer m n d) := by
  have hreset : ∀ now, Lossless S 0 (Controller.reset now) := by
    intro now
    constructor <;> simp [Controller.reset, Controller.outstanding]
  have hstart : ∀ now, Answered (m + n) (Controller.reset now) := by
    intro now
    constructor <;> simp [Controller.reset]
  have hnil : ([] : List Word) <+: commandStream wbuffer m n := List.nil_prefix
  have hctl := reset_ctlInv ((d.hw.ctl.advance S q).now)
  have hansw := advance_answered (q := q) hS hctl hnil (hstart _)
  exact ⟨program_streamInv addr d, program_busInv addr wbuffer m n (plain d),
    advance_answered hS (advance_ctlInv (q := q) hctl) hnil hansw,
    fun _ => advance_lossless hS (advance_lossless hS (hreset _)),
    fun _ => rfl, fun _ _ hseen => (by cases hseen)⟩

/-! ## The call -/

/-- CONTRACT: a transaction that reads, with a slave that acknowledges everything and with no
notification pending at the start, under every schedule of the controller, with the handler
and the timeout at any points: as long as no read command is stored without room for its
byte, every byte delivered so far has been stored or is in the receive FIFO; and if the
handler never finds STOP with bytes in the receive FIFO either, a call that does not time
out returns `m + n`, and `rbuffer` holds the delivered bytes in order.
SOURCE: i2c/PicoI2C.cpp:97-222 -/
theorem transaction_receives_all (S : Slave) (hS : Slave.Willing S) (sched : ℕ → ℕ) (addr : Byte)
    (wbuffer : ℕ → Byte) (m n : ℕ) (hlt : m + n < 2 ^ 32) (d : PicoI2C Watched)
    (hd : d.notified = false) (es : List Event) (c : Transaction Watched)
    (hrun : (transactionMachine (Watched.hw S sched)).run
      (transaction (Watched.hw S sched) addr wbuffer m n d) es = some c)
    (hcrowded : c.drv.hw.crowded = false) :
    c.drv.log.rstores.length + c.drv.hw.ctl.rxFifo.length = c.drv.hw.ctl.delivered ∧
      (c.drv.hw.unread = false → ∀ v, c.phase = .returned v → c.timedOut = false →
        v = m + n ∧ c.drv.log.rstores = deliveredBytes S n) := by
  have h := run_driver (Receiving S wbuffer m n) (fun _ _ h hs => step_receiving hS h hs)
    (fun _ _ _ h => ⟨h.stream.frame _ _ _ _ _, h.bus, h.answered, h.lossless, h.stored, h.stopped⟩)
    (program_receiving hS addr d) hrun
  have hcall := run_callInv hlt hrun
  refine ⟨(h.lossless hcrowded).kept, fun hunread v hv htime => ?_⟩
  obtain ⟨htimed, -⟩ | ⟨hseen, -⟩ := (run_endsByStop hd hrun).count v (Or.inr hv)
  · cases htime.symm.trans htimed
  obtain ⟨hval, -, hstop⟩ := hcall.count v (Or.inr hv)
  have htally := hstop hseen
  obtain ⟨hcmds, hbytes⟩ := h.stopped hcrowded hunread (htally ▸ hseen)
  have hstored := h.stored hcrowded
  rw [hbytes] at hstored
  refine ⟨?_, hstored⟩
  obtain ⟨htimed, -⟩ | hcount := hval
  · cases htime.symm.trans htimed
  · have hstream : c.drv.log.cmds = commandStream wbuffer m n :=
      hcall.stream.cmds_isPrefix.eq_of_length (by rw [hcmds, commandStream_length])
    have hwrites : writeWords (commandStream wbuffer m n) = m := by
      have : writeWords ((commandStream wbuffer m n).take (m + n)) = min (m + n) m :=
        writeWords_take (m + n)
      rwa [List.take_of_length_le (by simp), Nat.min_eq_right (Nat.le_add_right m n)] at this
    rw [hcount, htally, hstream, hwrites, hbytes]

/-- A controller that stands still once, while the handler tests for STOP after it has queued
the read command. -/
def pausing : ℕ → ℕ := fun now => if now = 9 then 0 else 3

/-- One byte written and one read; the handler sees the byte and STOP in its second run. -/
theorem transaction_receives_all_pausing :
    ∃ c, (transactionMachine (Watched.hw willingSlave pausing)).run
        (transaction (Watched.hw willingSlave pausing) 0x50#8 (fun _ => 0x61#8) 1 1
          (PicoI2C.construct ⟨Controller.reset 0, false, false⟩))
        [.isr, .isr, .take, .count, .irqOff] = some c ∧
      c.phase = .returned (1 + 1) ∧ c.drv.log.rstores = deliveredBytes willingSlave 1 := by
  have hrun : ((transactionMachine (Watched.hw willingSlave pausing)).run
      (transaction (Watched.hw willingSlave pausing) 0x50#8 (fun _ => 0x61#8) 1 1
        (PicoI2C.construct ⟨Controller.reset 0, false, false⟩))
      [.isr, .isr, .take, .count, .irqOff]).map (fun c => (c.phase, c.timedOut,
        c.drv.hw.crowded, c.drv.hw.unread)) = some (.returned 2, false, false, false) := by
    rfl
  obtain ⟨c, hc, hsome⟩ := Option.map_eq_some_iff.mp hrun
  simp only [Prod.mk.injEq] at hsome
  obtain ⟨hphase, htime, hcrowded, hunread⟩ := hsome
  obtain ⟨hv, hbytes⟩ := (transaction_receives_all willingSlave ⟨fun _ => rfl, fun _ => rfl⟩
    pausing 0x50#8 (fun _ => 0x61#8) 1 1 (by decide) _ rfl _ c hc hcrowded).2 hunread 2 hphase
    htime
  exact ⟨c, hc, hphase, hbytes⟩

/-- One byte written and one read: the byte and STOP arrive after the handler has looked into
the receive FIFO and before it tests for STOP. The call returns 1 with nothing stored. -/
theorem stop_before_last_byte :
    ((transactionMachine (Controller.hw willingSlave eager)).run
        (transaction (Controller.hw willingSlave eager) 0x50#8 (fun _ => 0x61#8) 1 1
          (PicoI2C.construct (Controller.reset 0))) [.isr, .take, .count, .irqOff]).map
      (fun c => (c.phase, c.timedOut, c.drv.log.rstores, c.drv.hw.delivered,
        c.drv.hw.rxFifo.length)) = some (.returned 1, false, [], 1, 1) := by
  rfl

/-- Seventeen bytes read: the first fill stores all read commands while the controller executes
them, and the last byte meets a full receive FIFO. -/
theorem byte_meets_full_fifo :
    ((transactionMachine (Controller.hw willingSlave eager)).run
        (transaction (Controller.hw willingSlave eager) 0x50#8 (fun _ => 0#8) 0 17
          (PicoI2C.construct (Controller.reset 0))) [.isr, .take, .count, .irqOff]).map
      (fun c => (c.phase, c.timedOut, c.drv.log.rstores.length, c.drv.hw.delivered,
        c.drv.hw.rxFifo.length)) = some (.returned 16, false, 16, 17, 0) := by
  rfl

end PicoDrone.Analysis
