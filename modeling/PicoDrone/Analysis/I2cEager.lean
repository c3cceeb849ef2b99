import PicoDrone.Analysis.I2cWilling

/-!
# Transfers that are refused

Under the schedule `eager` the controller executes a queued command before the driver looks
at it again. A write transfer is then pushed completely, whether the slave refuses it or
not, and the STOP of the abort, or a notification left over from an earlier call, ends the
wait with the full count (`not_accepted_run`).
-/

set_option autoImplicit false

namespace PicoDrone.Analysis

open PicoDrone.Library PicoDrone.Model

variable {S : Slave} {q : ℕ → ℕ} {wbuffer : ℕ → Byte} {m r : ℕ} {c : Controller}

/-! ## A controller faster than the driver -/

/-- The schedule under which a queued command is executed before the next access. -/
def eager : ℕ → ℕ := fun _ => 3

/-- The controller is between two commands and at most one is queued. -/
def Settled (c : Controller) : Prop := c.shift = .idle ∧ c.txFifo.length ≤ 1

/-- A controller that knows the slave's answers: what was acknowledged was going to be, and
a refusal has raised STOP or is about to. -/
structure AnswerInv (S : Slave) (c : Controller) : Prop where
  addr : 0 < c.addrAcks → S.ackAddr 0 = true
  bytes : ∀ i < c.acked, S.ackByte i = true
  stop : c.refused = true → c.stopDet = true ∨ c.shift = .stopping

/-- INTERNAL: the byte phase of a command keeps what is known of the slave's answers. -/
theorem transfer_answerInv (w : Word) (haddr : 0 < c.addrAcks → S.ackAddr 0 = true)
    (hbytes : ∀ i < c.acked, S.ackByte i = true) (hstop : c.refused = true → c.stopDet = true) :
    AnswerInv S (c.transfer S w) := by
  unfold Controller.transfer
  by_cases hread : isRead w = true
  · rw [if_pos hread]
    exact ⟨haddr, hbytes, fun hr => Or.inl (hstop hr)⟩
  · rw [if_neg hread]
    by_cases hack : S.ackByte c.acked = true
    · rw [if_pos hack]
      refine ⟨haddr, ?_, fun hr => Or.inl (hstop hr)⟩
      intro i hi
      obtain hlt | rfl := Nat.lt_succ_iff_lt_or_eq.mp hi
      · exact hbytes i hlt
      · exact hack
    · rw [if_neg hack]
      exact ⟨haddr, hbytes, fun _ => Or.inr rfl⟩

/-- INTERNAL: a step of the controller keeps what is known of the slave's answers. -/
theorem tick_answerInv (h : AnswerInv S c) : AnswerInv S (c.tick S) := by
  unfold Controller.tick
  cases hshift : c.shift with
  | idle =>
    have hstop : c.refused = true → c.stopDet = true := fun hr =>
      (h.stop hr).resolve_right (by rw [hshift]; decide)
    cases hfifo : c.txFifo with
    | nil => exact h
    | cons w ws => exact ⟨h.addr, h.bytes, fun hr => Or.inl (hstop hr)⟩
  | stopping => exact ⟨h.addr, h.bytes, fun _ => Or.inl rfl⟩
  | busy w =>
    have hstop : c.refused = true → c.stopDet = true := fun hr =>
      (h.stop hr).resolve_right (by rw [hshift]; simp)
    by_cases haddr : c.addresses w = true
    · by_cases hack : S.ackAddr c.addrAcks = true
      · have hfirst : S.ackAddr 0 = true := by
          obtain hz | hz := Nat.eq_zero_or_pos c.addrAcks
          · rwa [hz] at hack
          · exact h.addr hz
        simp only [haddr, hack, Bool.not_true, Bool.and_false, Bool.false_eq_true, if_false,
          Controller.addressed, if_true]
        exact transfer_answerInv w (fun _ => hfirst) h.bytes hstop
      · simp only [haddr, hack, Bool.not_false, Bool.and_self, if_true]
        exact ⟨h.addr, h.bytes, fun _ => Or.inr rfl⟩
    · simp only [haddr, Bool.false_and, Bool.false_eq_true, if_false, Controller.addressed]
      exact transfer_answerInv w h.addr h.bytes hstop

/-- INTERNAL: the steps before a register access keep what is known of the slave's
answers. -/
theorem advance_answerInv (h : AnswerInv S c) : AnswerInv S (c.advance S q) :=
  advance_induction (AnswerInv S) (fun _ _ h => ⟨h.addr, h.bytes, h.stop⟩)
    (fun _ h => tick_answerInv h) h

def Quiet (c : Controller) : Prop := c.shift = .idle ∧ c.txFifo = []

theorem Quiet.settled (h : Quiet c) : Settled c := by
  refine ⟨h.1, ?_⟩
  rw [h.2]
  exact Nat.zero_le 1

theorem tick_quiet (h : Quiet c) : c.tick S = c := by
  simp only [Controller.tick, h.1, h.2]

/-- INTERNAL: the last command is followed by STOP or by nothing. -/
theorem tick_busy {w : Word} (hshift : c.shift = .busy w) (hfifo : c.txFifo = []) :
    (c.tick S).txFifo = [] ∧ ((c.tick S).shift = .idle ∨ (c.tick S).shift = .stopping) := by
  have htransfer : ∀ e : Controller, e.txFifo = [] → (e.transfer S w).txFifo = [] ∧
      ((e.transfer S w).shift = .idle ∨ (e.transfer S w).shift = .stopping) := by
    intro e he
    unfold Controller.transfer Controller.completed Controller.abort
    split_ifs <;> simp [he]
  simp only [Controller.tick, hshift]
  split
  · exact ⟨rfl, Or.inr rfl⟩
  · apply htransfer
    unfold Controller.addressed
    split
    · exact hfifo
    · exact hfifo

theorem tick_stopping (hshift : c.shift = .stopping) (hfifo : c.txFifo = []) :
    Quiet (c.tick S) := by
  simp only [Quiet, Controller.tick, hshift]
  exact ⟨trivial, hfifo⟩

/-- INTERNAL: three steps are enough for one queued command, or for its refusal. -/
theorem eager_settled (h : Settled c) : Quiet (c.advance S eager) := by
  obtain ⟨hshift, hlen⟩ := h
  change Quiet { (c.tick S |>.tick S |>.tick S) with now := c.now + 1 }
  suffices hq : Quiet (c.tick S |>.tick S |>.tick S) from hq
  cases hfifo : c.txFifo with
  | nil =>
    have hq : Quiet c := ⟨hshift, hfifo⟩
    rw [tick_quiet hq, tick_quiet hq, tick_quiet hq]
    exact hq
  | cons w ws =>
    rw [hfifo, List.length_cons] at hlen
    obtain rfl : ws = [] := List.length_eq_zero_iff.mp (by omega)
    have hfirst : c.tick S = { c with txFifo := [], shift := .busy w } := by
      simp only [Controller.tick, hshift, hfifo]
    obtain ⟨hnone, hend⟩ := tick_busy (S := S) (c := c.tick S) (by rw [hfirst]) (by rw [hfirst])
    obtain hidle | hstop := hend
    · rw [tick_quiet ⟨hidle, hnone⟩]
      exact ⟨hidle, hnone⟩
    · exact tick_stopping hstop hnone

/-- INTERNAL: a word stored into a controller with nothing to do is queued, or discarded
after a refusal. -/
theorem push_eager (w : Word) (hq : Quiet c) (h : AnswerInv S c) :
    Settled (c.push w) ∧ AnswerInv S (c.push w) ∧
      ((c.push w).aborted = true ∨ (c.push w).txFifo ≠ []) := by
  unfold Controller.push
  by_cases ha : c.aborted = true
  · rw [if_pos ha]
    exact ⟨hq.settled, h, Or.inl ha⟩
  · rw [if_neg ha, hq.2, if_pos (by decide)]
    exact ⟨⟨hq.1, le_rfl⟩, ⟨h.addr, h.bytes, h.stop⟩, Or.inr (by simp)⟩

/-- INTERNAL: with a controller faster than the driver the first fill stores every write
word; the last one is still queued, unless a refusal came before it.
SOURCE: i2c/PicoI2C.cpp:73-90 -/
theorem eager_txLoop (fuel : ℕ) (d : PicoI2C Controller) (hfuel : d.wctr = fuel)
    (hset : Settled d.hw) (hans : AnswerInv S d.hw) :
    (txLoop (Controller.hw S eager) fuel d).wctr = 0 ∧
      Settled (txLoop (Controller.hw S eager) fuel d).hw ∧
      AnswerInv S (txLoop (Controller.hw S eager) fuel d).hw ∧
      (0 < fuel → (txLoop (Controller.hw S eager) fuel d).hw.aborted = true ∨
        (txLoop (Controller.hw S eager) fuel d).hw.txFifo ≠ []) := by
  induction fuel generalizing d with
  | zero => exact ⟨hfuel, hset, hans, fun h => absurd h (lt_irrefl 0)⟩
  | succ fuel ih =>
    have hquiet := eager_settled (S := S) hset
    have hquiet' := eager_settled (S := S) hquiet.settled
    have hans' : AnswerInv S ((d.hw.advance S eager).advance S eager) :=
      advance_answerInv (advance_answerInv hans)
    have hroom : (Controller.hw S eager).writeAvailable d.hw =
        (fifoDepth, d.hw.advance S eager) := by
      simp [Controller.hw, hquiet.2]
    have hloop : txLoop (Controller.hw S eager) (fuel + 1) d =
        txLoop (Controller.hw S eager) fuel
          (txPut (Controller.hw S eager) { d with hw := d.hw.advance S eager }) := by
      rw [txLoop, if_pos (by omega), hroom]
      rfl
    rw [hloop]
    obtain ⟨w, hput⟩ : ∃ w, (txPut (Controller.hw S eager)
        { d with hw := d.hw.advance S eager }).hw =
          ((d.hw.advance S eager).advance S eager).push w := ⟨_, rfl⟩
    obtain ⟨hsetp, hansp, hlastp⟩ := push_eager (S := S) w hquiet' hans'
    rw [← hput] at hsetp hansp hlastp
    have hctr : (txPut (Controller.hw S eager)
        { d with hw := d.hw.advance S eager }).wctr = fuel := by
      simp only [txPut]
      omega
    obtain ⟨h1, h2, h3, h4⟩ := ih _ hctr hsetp hansp
    refine ⟨h1, h2, h3, fun _ => ?_⟩
    obtain rfl | hpos := Nat.eq_zero_or_pos fuel
    · exact hlastp
    · exact h4 hpos

/-- A write transfer whose words are all stored, with a controller faster than the
driver. -/
structure EagerDriver (S : Slave) (wbuffer : ℕ → Byte) (m : ℕ) (d : PicoI2C Controller) :
    Prop where
  stream : StreamInv wbuffer m 0 d
  bus : BusInv d
  stored : d.wctr = 0
  settled : Settled d.hw
  answers : AnswerInv S d.hw

/-- INTERNAL: the first fill of a transaction that writes, under the eager schedule.
SOURCE: i2c/PicoI2C.cpp:139-157 -/
theorem eager_fill (S : Slave) (wbuffer : ℕ → Byte) (hm : 0 < m) (n : ℕ) (addr : Byte)
    (d : PicoI2C Controller) :
    ∃ e, e = txLoop (Controller.hw S eager) m (program (Controller.hw S eager) addr wbuffer m n d) ∧
      (transaction (Controller.hw S eager) addr wbuffer m n d).drv =
        { e with irqEnabled := true } ∧
      e.wctr = 0 ∧ Settled e.hw ∧ AnswerInv S e.hw ∧
      (e.hw.aborted = true ∨ e.hw.txFifo ≠ []) := by
  have hfirst : ∀ now, Quiet (Controller.reset now) := fun now => ⟨rfl, rfl⟩
  have hans : ∀ now, AnswerInv S (Controller.reset now) := by
    intro now
    constructor <;> simp [Controller.reset]
  obtain ⟨now, hhw⟩ : ∃ now, (program (Controller.hw S eager) addr wbuffer m n d).hw =
      ((Controller.reset now).advance S eager).advance S eager := ⟨_, rfl⟩
  have hquiet := eager_settled (S := S) (eager_settled (S := S) (hfirst now).settled).settled
  obtain ⟨h1, h2, h3, h4⟩ := eager_txLoop (S := S) m
    (program (Controller.hw S eager) addr wbuffer m n d) rfl (by rw [hhw]; exact hquiet.settled)
    (by rw [hhw]; exact advance_answerInv (advance_answerInv (hans now)))
  refine ⟨_, rfl, ?_, h1, h2, h3, h4 hm⟩
  have hpos : 0 < (program (Controller.hw S eager) addr wbuffer m n d).wctr := hm
  simp only [transaction, beginTransaction, txFillFifo, if_pos hpos]
  rfl

/-- INTERNAL: the first fill of a write transfer under the eager schedule. -/
theorem eager_transaction (S : Slave) (wbuffer : ℕ → Byte) (hm : 0 < m) (addr : Byte)
    (d : PicoI2C Controller) :
    EagerDriver S wbuffer m
        (transaction (Controller.hw S eager) addr wbuffer m 0 d).drv ∧
      ((transaction (Controller.hw S eager) addr wbuffer m 0 d).drv.hw.aborted = true ∨
        (transaction (Controller.hw S eager) addr wbuffer m 0 d).drv.hw.txFifo ≠ []) ∧
      (transaction (Controller.hw S eager) addr wbuffer m 0 d).drv.notified = d.notified ∧
      (transaction (Controller.hw S eager) addr wbuffer m 0 d).drv.intrMask =
        ⟨true, true, true⟩ ∧
      (transaction (Controller.hw S eager) addr wbuffer m 0 d).drv.irqEnabled = true := by
  obtain ⟨_, rfl, hdrv, h1, h2, h3, h4⟩ := eager_fill S wbuffer hm 0 addr d
  have hsteps := txLoop_steps (R := Controller.hw S eager) m
    (program (Controller.hw S eager) addr wbuffer m 0 d)
  have hstream := hsteps.invariant (StreamInv wbuffer m 0)
    (fun _ _ h hs => step_streamInv h hs) (program_streamInv addr d)
  have hbus := hsteps.invariant BusInv (fun _ _ h hs => step_busInv h hs)
    (program_busInv addr wbuffer m 0 d)
  have hnote := txLoop_keeps (R := Controller.hw S eager) PicoI2C.notified (fun _ _ => rfl)
    (fun _ => rfl) m (program (Controller.hw S eager) addr wbuffer m 0 d)
  have hmask := txLoop_keeps (R := Controller.hw S eager) PicoI2C.intrMask (fun _ _ => rfl)
    (fun _ => rfl) m (program (Controller.hw S eager) addr wbuffer m 0 d)
  rw [hdrv]
  exact ⟨⟨hstream.frame _ _ _ _ _, hbus, h1, h2, h3⟩, h4, hnote, hmask, rfl⟩

/-- INTERNAL: a controller that has nothing left of a write transfer has met a refusal,
unless the slave accepts the transfer. -/
theorem refused_of_quiet (hm : 0 < m) (hS : ¬ Slave.Accepts S m)
    (h : CtlInv (commandStream wbuffer m 0) r c) (hq : Quiet c) (hans : AnswerInv S c) :
    c.refused = true := by
  by_contra hne
  rw [Bool.not_eq_true] at hne
  have hL := h.queued hne
  rw [hq.1, hq.2, inFlight_idle, List.append_nil, List.append_nil] at hL
  have hacked : c.acked = m := by
    rw [h.acked, hL]
    have : writeWords ((commandStream wbuffer m 0).take m) = min m m := writeWords_take m
    rw [List.take_of_length_le (by simp)] at this
    rw [this, min_self]
  refine hS ⟨hans.addr (h.addressed ?_), fun i hi => hans.bytes i (by omega)⟩
  intro hnil
  have := congrArg List.length (hL.symm.trans hnil)
  simp at this
  omega

/-- INTERNAL: the handler takes the STOP of an abort for the end of the transfer.
SOURCE: i2c/PicoI2C.cpp:200-220 -/
theorem eager_isr (hm : 0 < m) (hS : ¬ Slave.Accepts S m) {d : PicoI2C Controller}
    (h : EagerDriver S wbuffer m d) (hmask : d.intrMask = ⟨true, true, true⟩) :
    (isr (Controller.hw S eager) d).notified = true ∧
      (isr (Controller.hw S eager) d).wctr = 0 ∧
      (isr (Controller.hw S eager) d).rcnt = 0 ∧
      (isr (Controller.hw S eager) d).hw.refused = true := by
  have hrcnt : d.rcnt = 0 := Nat.le_zero.mp h.stream.rcnt_le
  have hrctr : d.rctr = 0 := Nat.le_zero.mp h.stream.rctr_le
  -- the three looks at the controller, each of which finds it with nothing to do
  have hq1 := eager_settled (S := S) h.settled
  have hq2 := eager_settled (S := S) hq1.settled
  have hq3 := eager_settled (S := S) hq2.settled
  have hcmds : d.log.cmds = commandStream wbuffer m 0 := by
    rw [h.stream.cmds, h.stored]
    exact List.take_of_length_le (by simp)
  have hbus : CtlInv (commandStream wbuffer m 0) d.log.rstores.length d.hw := by
    rw [← hcmds]
    exact h.bus
  have hb2 := advance_ctlInv (S := S) (q := eager) (advance_ctlInv (S := S) (q := eager) hbus)
  have ha2 := advance_answerInv (q := eager) (advance_answerInv (q := eager) h.answers)
  have hstop : ((d.hw.advance S eager).advance S eager).stopDet = true :=
    (ha2.stop (refused_of_quiet hm hS hb2 hq2 ha2)).resolve_right (by rw [hq2.1]; decide)
  have hrefused := refused_of_quiet hm hS (advance_ctlInv (S := S) (q := eager) hb2) hq3
    (advance_answerInv (q := eager) ha2)
  have hisr : isr (Controller.hw S eager) d = isrStop (Controller.hw S eager)
      { d with hw := (d.hw.advance S eager).advance S eager, intrMask := ⟨true, false, true⟩ } := by
    have hdrain : isrDrain (Controller.hw S eager) d = d := by
      unfold isrDrain
      rw [hrcnt, drainLoop]
    have hlook : ∀ c : Controller, (Controller.hw S eager).rawIntrStat c =
        (⟨(c.advance S eager).stopDet, (c.advance S eager).txFifo.isEmpty,
          decide (14 < (c.advance S eager).rxFifo.length)⟩, c.advance S eager) := fun _ => rfl
    simp [isr, isrRefill, hdrain, hlook, hq1.2, hmask, h.stored, hrctr, hstop]
  rw [hisr]
  exact ⟨rfl, h.stored, hrcnt, hrefused⟩

/-- INTERNAL: a woken call whose counters are all zero returns the full count.
SOURCE: i2c/PicoI2C.cpp:155-168 -/
theorem woken_returns {σ : Type} (R : I2cHw σ) {c : Transaction σ} (hlt : m < 2 ^ 32)
    (hw : c.wlength = m) (hr : c.rlength = 0) (hphase : c.phase = .woken)
    (hwctr : c.drv.wctr = 0) (hrcnt : c.drv.rcnt = 0) :
    ∃ c', (transactionMachine R).run c [.count, .irqOff] = some c' ∧
      c'.phase = .returned m ∧ c'.drv.hw = c.drv.hw := by
  have hvalue : u32 ((u32 (c.wlength + c.rlength) : ℕ) -
      (u32 (c.drv.rcnt + c.drv.wctr) : ℕ)) = m := by
    rw [count_value (by omega) (by omega), hw, hr, hwctr, hrcnt]
    rfl
  refine ⟨_, (CallStep.count hphase).run_cons ((CallStep.irqOff _ rfl).run_cons rfl), ?_, rfl⟩
  simp only [hvalue]

/-- INTERNAL: a write transfer that is not accepted, or that starts with a notification
pending, may return its full length before every byte is acknowledged. -/
theorem not_accepted_run (wbuffer : ℕ → Byte) (hlt : m < 2 ^ 32) (hm : 0 < m) (addr : Byte)
    (d : PicoI2C Controller) (hbad : ¬ (Slave.Accepts S m ∧ d.notified = false)) :
    ∃ es c, (transactionMachine (Controller.hw S eager)).run
        (transaction (Controller.hw S eager) addr wbuffer m 0 d) es = some c ∧
      c.phase = .returned m ∧ ¬ Accepted m 0 c.drv.hw := by
  obtain ⟨heager, hlast, hnote, hmask, hirq⟩ :=
    eager_transaction S wbuffer hm addr d
  generalize ht : transaction (Controller.hw S eager) addr wbuffer m 0 d = t at *
  have hphase : t.phase = .waiting := by rw [← ht]; rfl
  have hw : t.wlength = m := by rw [← ht]; rfl
  have hr : t.rlength = 0 := by rw [← ht]; rfl
  have hrcnt : t.drv.rcnt = 0 := Nat.le_zero.mp heager.stream.rcnt_le
  by_cases hn : d.notified = true
  · -- the pending notification ends the wait while the last byte is still queued
    obtain ⟨c, hrun, hret, hhw⟩ := woken_returns (Controller.hw S eager)
      (c := { t with drv := { t.drv with notified := false }, phase := .woken })
      hlt hw hr rfl heager.stored hrcnt
    refine ⟨[.take, .count, .irqOff], c, (CallStep.take hphase (hnote.trans hn)).run_cons hrun,
      hret, ?_⟩
    intro hacc
    rw [hhw] at hacc
    have hL := heager.bus.queued hacc.willing
    have hlen : t.drv.hw.executed.length + t.drv.hw.txFifo.length ≤ m := by
      have hcmds := heager.stream.cmds_isPrefix.length_le
      rw [commandStream_length, ← hL] at hcmds
      simp only [List.length_append] at hcmds
      omega
    obtain hab | hne := hlast
    · rw [heager.bus.held, hacc.willing] at hab
      cases hab
    · have hsome := List.length_pos_of_ne_nil hne
      have hack := (executed_acked heager.stream heager.bus).2
      have hfull : t.drv.hw.acked = m := hacc.acked
      omega
  · -- the STOP of the abort notifies the task
    have hS : ¬ Slave.Accepts S m := fun h => hbad ⟨h, by simpa using hn⟩
    obtain ⟨h1, h2, h3, h4⟩ := eager_isr hm hS heager hmask
    obtain ⟨c, hrun, hret, hhw⟩ := woken_returns (Controller.hw S eager)
      (c := { t with
        drv := { isr (Controller.hw S eager) t.drv with notified := false }
        phase := .woken })
      hlt hw hr rfl h2 h3
    have hany : t.drv.intrMask ≠ IntrBits.none := by
      rw [hmask]
      decide
    refine ⟨[.isr, .take, .count, .irqOff], c, (CallStep.isr hirq hany).run_cons
      ((CallStep.take (c := { t with drv := isr (Controller.hw S eager) t.drv }) hphase
        h1).run_cons hrun), hret, ?_⟩
    intro hacc
    rw [hhw] at hacc
    cases hacc.willing.symm.trans h4

end PicoDrone.Analysis
