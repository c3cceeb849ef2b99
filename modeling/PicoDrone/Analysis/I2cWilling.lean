import PicoDrone.Analysis.I2cBus

/-!
# Transfers that are accepted

A slave that acknowledges its address and every byte of a write transfer lets STOP come only
after the last byte (`WillingInv`), so a call that returns the full count after STOP has had
every byte acknowledged (`accepted_of_willing`). A call that reads needs no such slave: the
bytes it has fetched show what the slave has accepted (`accepted_of_read`).
-/

set_option autoImplicit false

namespace PicoDrone.Analysis

open PicoDrone.Library PicoDrone.Model

/-- The slave acknowledges its address and every one of `m` bytes written. -/
def Slave.Accepts (S : Slave) (m : ℕ) : Prop :=
  S.ackAddr 0 = true ∧ ∀ i < m, S.ackByte i = true

variable {S : Slave} {q : ℕ → ℕ} {wbuffer : ℕ → Byte} {m : ℕ} {L : List Word} {r : ℕ}
  {c : Controller}

/-! ## A willing slave -/

/-- A slave that accepts a transfer of `m` written bytes has refused nothing, and STOP
means that all of them are executed. -/
structure WillingInv (m : ℕ) (c : Controller) : Prop where
  willing : c.refused = false
  fresh : c.needAddr = true → c.addrAcks = 0 ∨ m ≤ c.executed.length
  ended : c.shift = .stopping → m ≤ c.executed.length
  stopped : c.stopDet = true → m ≤ c.executed.length

/-- INTERNAL: the next command of a write transfer is its next write word. -/
theorem busy_write {w : Word} (h : CtlInv L r c) (hL : L <+: commandStream wbuffer m 0)
    (hr : c.refused = false) (hshift : c.shift = .busy w) :
    c.executed.length < m ∧ isRead w = false ∧ hasRestart w = false ∧
      (hasStop w = true → c.executed.length + 1 = m) := by
  have hq := h.queued hr
  rw [hshift, inFlight_busy] at hq
  have hlen : c.executed.length < m := by
    have := hL.length_le
    rw [commandStream_length, ← hq] at this
    simp only [List.length_append, List.length_singleton] at this
    omega
  have hat : (commandStream wbuffer m 0)[c.executed.length]? = some w := by
    obtain ⟨rest, hrest⟩ := hL
    rw [← hrest, ← hq]
    simp
  have hspec := commandStream_spec hat
  refine ⟨hlen, ?_, ?_, fun hs => hspec.stop_iff.mp hs⟩
  · rw [← Bool.not_eq_true, hspec.read_iff]
    omega
  · rw [← Bool.not_eq_true, hspec.restart_iff]
    omega

/-- INTERNAL: a step of the controller keeps a willing slave willing. -/
theorem tick_willingInv (hS : Slave.Accepts S m) (h : CtlInv L r c)
    (hL : L <+: commandStream wbuffer m 0) (hw : WillingInv m c) :
    WillingInv m (c.tick S) := by
  unfold Controller.tick
  cases hshift : c.shift with
  | idle =>
    cases hfifo : c.txFifo with
    | nil => exact hw
    | cons w ws => exact ⟨hw.willing, hw.fresh, fun hs => (by cases hs), hw.stopped⟩
  | busy w =>
    obtain ⟨hlt, hread, hrestart, hlast⟩ := busy_write h hL hw.willing hshift
    have hacked : c.acked < m := by
      have := h.delivered
      omega
    have hneed : c.addresses w = c.needAddr := by
      simp [Controller.addresses, hrestart]
    have hno : (c.addresses w && !S.ackAddr c.addrAcks) = false := by
      by_cases hn : c.needAddr = true
      · obtain hz | hfull := hw.fresh hn
        · simp [hz, hS.1]
        · omega
      · rw [Bool.not_eq_true] at hn
        simp [hneed, hn]
    have hdone : ∀ e : Controller, e.refused = c.refused → e.executed = c.executed →
        e.stopDet = c.stopDet → e.needAddr = false → WillingInv m (e.completed w) := by
      intro e h1 h2 h3 h4
      refine ⟨h1.trans hw.willing, fun hf => ?_, fun hs => ?_, fun hs => ?_⟩
      · cases h4.symm.trans hf
      · have hstop : hasStop w = true := by
          by_contra hne
          simp [Controller.completed, hne] at hs
        have := hlast hstop
        simp only [Controller.completed, h2, List.length_append, List.length_singleton]
        omega
      · have := hw.stopped (h3.symm.trans hs)
        omega
    dsimp only
    rw [if_neg (by rw [hno]; decide)]
    unfold Controller.transfer Controller.addressed
    by_cases hn : c.needAddr = true
    · simp only [hneed, hn, hread, hS.2 _ hacked, if_true, Bool.false_eq_true, if_false]
      exact hdone _ rfl rfl rfl rfl
    · rw [Bool.not_eq_true] at hn
      simp only [hneed, hn, hread, hS.2 _ hacked, if_true, Bool.false_eq_true, if_false]
      exact hdone _ rfl rfl rfl rfl
  | stopping =>
    have hfull := hw.ended hshift
    exact ⟨hw.willing, fun _ => Or.inr hfull, fun hs => (by cases hs), fun _ => hfull⟩

theorem tick_executed (c : Controller) : c.executed.length ≤ (c.tick S).executed.length := by
  unfold Controller.tick Controller.transfer Controller.completed Controller.addressed
    Controller.abort
  split
  · split <;> exact le_rfl
  · split_ifs <;> simp
  · exact le_rfl

/-- The driver of a write transfer with a willing slave. -/
structure WillingDriver (wbuffer : ℕ → Byte) (m : ℕ) (d : PicoI2C Controller) : Prop where
  stream : StreamInv wbuffer m 0 d
  bus : BusInv d
  slave : WillingInv m d.hw
  stopSeen : d.log.stopSeen = true → m ≤ d.hw.executed.length

/-- INTERNAL: the steps before a register access keep a willing slave willing, and
executed commands executed. -/
theorem advance_willing (hS : Slave.Accepts S m) (h : CtlInv L r c)
    (hL : L <+: commandStream wbuffer m 0) (hw : WillingInv m c) :
    WillingInv m (c.advance S q) ∧
      c.executed.length ≤ (c.advance S q).executed.length := by
  have hall := advance_induction (S := S) (q := q) (c := c)
    (fun e => CtlInv L r e ∧ WillingInv m e ∧ c.executed.length ≤ e.executed.length)
    (fun e k he => ⟨he.1.frame e.stopDet k,
      ⟨he.2.1.willing, he.2.1.fresh, he.2.1.ended, he.2.1.stopped⟩, he.2.2⟩)
    (fun e he => ⟨tick_ctlInv he.1, tick_willingInv hS he.1 hL he.2.1,
      he.2.2.trans (tick_executed e)⟩)
    ⟨h, hw, le_rfl⟩
  exact hall.2

/-- INTERNAL: a stored word leaves the slave willing. -/
theorem push_willing (w : Word) (hw : WillingInv m c) :
    WillingInv m (c.push w) ∧ (c.push w).executed = c.executed := by
  unfold Controller.push
  split_ifs
  · exact ⟨hw, rfl⟩
  · exact ⟨⟨hw.willing, hw.fresh, hw.ended, hw.stopped⟩, rfl⟩
  · exact ⟨hw, rfl⟩

/-- INTERNAL: every piece of work of the driver keeps a willing slave willing. -/
theorem step_willingDriver (hS : Slave.Accepts S m) {d d' : PicoI2C Controller}
    (h : WillingDriver wbuffer m d) (hs : DriverStep (Controller.hw S q) d d') :
    WillingDriver wbuffer m d' := by
  have hL := h.stream.cmds_isPrefix
  obtain ⟨hw1, hx1⟩ := advance_willing (q := q) hS h.bus hL h.slave
  obtain ⟨hw2, hx2⟩ := advance_willing (q := q) hS
    (advance_ctlInv (q := q) h.bus) hL hw1
  have hstream := step_streamInv h.stream hs
  have hbus := step_busInv h.bus hs
  have hseen1 : d.log.stopSeen = true → m ≤ (d.hw.advance S q).executed.length :=
    fun hd => (h.stopSeen hd).trans hx1
  have hseen2 : d.log.stopSeen = true →
      m ≤ ((d.hw.advance S q).advance S q).executed.length :=
    fun hd => (hseen1 hd).trans hx2
  cases hs with
  | full => exact ⟨hstream, hbus, hw1, hseen1⟩
  | txPut _ _ =>
    obtain ⟨hp, hpx⟩ := push_willing (writeWord d.restartOnNext (d.wctr == 1 && d.rctr == 0)
      (d.wbuffer d.wbuf)) hw2
    refine ⟨hstream, hbus, hp, fun hd => ?_⟩
    have hfull := hseen2 hd
    rw [← hpx] at hfull
    exact hfull
  | rxPut _ hr _ =>
    have := h.stream.rctr_le
    omega
  | empty => exact ⟨hstream, hbus, hw1, hseen1⟩
  | rxStore hr _ =>
    have := h.stream.rcnt_le
    omega
  | status => exact ⟨hstream, hbus, hw1, hseen1⟩
  | queued => exact ⟨hstream, hbus, h.slave, h.stopSeen⟩
  | stop hdet _ =>
    have hfull : m ≤ (d.hw.advance S q).executed.length := hw1.stopped hdet
    refine ⟨hstream, hbus, ?_, fun _ => hfull.trans hx2⟩
    exact ⟨hw2.willing, hw2.fresh, hw2.ended, fun hf => (by cases hf)⟩

/-- INTERNAL: a willing slave and a freshly programmed controller. -/
theorem program_willingDriver (addr : Byte) (d : PicoI2C Controller) (hS : Slave.Accepts S m) :
    WillingDriver wbuffer m (program (Controller.hw S q) addr wbuffer m 0 d) := by
  have hreset : WillingInv m (Controller.reset ((d.hw.advance S q).now)) := by
    constructor <;> simp [Controller.reset]
  have hL : ([] : List Word) <+: commandStream wbuffer m 0 := List.nil_prefix
  obtain ⟨hw1, -⟩ := advance_willing (q := q) hS (reset_ctlInv _) hL hreset
  obtain ⟨hw2, -⟩ := advance_willing (q := q) hS
    (advance_ctlInv (q := q) (reset_ctlInv _)) hL hw1
  exact ⟨program_streamInv addr d, program_busInv addr wbuffer m 0 d, hw2,
    fun hs => (by cases hs)⟩

/-- INTERNAL: with a willing slave and no notification pending at the start, a write call
that returns its length has had every byte acknowledged. -/
theorem accepted_of_willing (hS : Slave.Accepts S m) (hm : 0 < m) {addr : Byte}
    {d : PicoI2C Controller} (hd : d.notified = false) {es : List Event}
    {c : Transaction Controller}
    (hrun : (transactionMachine (Controller.hw S q)).run
      (transaction (Controller.hw S q) addr wbuffer m 0 d) es = some c)
    (hv : c.phase = .returned m) : Accepted m 0 c.drv.hw := by
  have h := run_driver (WillingDriver wbuffer m) (fun _ _ h hs => step_willingDriver hS h hs)
    (fun _ _ _ h => ⟨h.stream.frame _ _ _ _ _, h.bus, h.slave, h.stopSeen⟩)
    (program_willingDriver addr d hS) hrun
  have hseen : c.drv.log.stopSeen = true := by
    obtain ⟨-, hzero⟩ | ⟨-, hseen⟩ := (run_endsByStop hd hrun).count m (Or.inr hv)
    · omega
    · exact hseen
  have hfull := h.stopSeen hseen
  have hbus := h.bus
  obtain ⟨hlen, hacked⟩ := executed_acked h.stream hbus
  have hdel := hbus.delivered
  refine ⟨hbus.addressed ?_, h.slave.willing, by omega, by omega⟩
  intro hnil
  rw [hnil, List.length_nil] at hfull
  omega

/-! ## A transfer that reads -/

/-- INTERNAL: every run of a call keeps the controller in line with the log.
SOURCE: i2c/PicoI2C.cpp:134-222 -/
theorem run_busInv {n : ℕ} {addr : Byte} {d : PicoI2C Controller} {es : List Event}
    {c : Transaction Controller}
    (hrun : (transactionMachine (Controller.hw S q)).run
      (transaction (Controller.hw S q) addr wbuffer m n d) es = some c) : BusInv c.drv :=
  run_driver BusInv (fun _ _ h hs => step_busInv h hs) (fun _ _ _ h => h)
    (program_busInv addr wbuffer m n d) hrun

/-- INTERNAL: a call that reads at least one byte returns its full length only after the
slave has accepted everything.
SOURCE: i2c/PicoI2C.cpp:155-168 -/
theorem accepted_of_read {n : ℕ} (hlt : m + n < 2 ^ 32) (hn : 0 < n) {addr : Byte}
    {d : PicoI2C Controller} {es : List Event} {c : Transaction Controller}
    (hrun : (transactionMachine (Controller.hw S q)).run
      (transaction (Controller.hw S q) addr wbuffer m n d) es = some c)
    (hv : c.phase = .returned (m + n)) : Accepted m n c.drv.hw := by
  have hcall := run_callInv hlt hrun
  have hstream := hcall.stream
  obtain ⟨hval, hle, -⟩ := hcall.count _ (Or.inr hv)
  apply accepted_of_received hn hstream (run_busInv hrun)
  -- the log holds at least the bytes counted, and never more than `n`
  have hcount : m + n = writeWords c.tally.cmds + c.tally.rstores.length := by
    obtain ⟨-, hzero⟩ | hsum := hval
    · omega
    · exact hsum
  have hwrites : writeWords c.tally.cmds ≤ m := by
    rw [List.prefix_iff_eq_take.mp (hle.cmds.trans hstream.cmds_isPrefix), writeWords_take]
    exact min_le_right _ _
  have hbytes := hle.rstores.length_le
  have hstored := hstream.rstores_length
  omega

end PicoDrone.Analysis
