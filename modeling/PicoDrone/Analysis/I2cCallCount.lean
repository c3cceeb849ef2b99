import PicoDrone.Analysis.I2cProgress
import PicoDrone.Analysis.I2cRecording
import PicoDrone.Model.I2cCalls

/-!
# What a call has stored and what it returns

Whatever the register block answers and whenever the handler runs, a call keeps to its command
sequence and stores the bytes it receives in order. The value it returns is evaluated while the
interrupt is still enabled. It counts what was stored by then, which is everything if the
wait has ended with a STOP of the same call; if a notification left over from an earlier call
has ended it, the handler goes on behind the count (`transaction_command_stream`).
-/

set_option autoImplicit false

namespace PicoDrone.Analysis

open PicoDrone.Library PicoDrone.Model

variable {σ : Type} {R : I2cHw σ} {wbuffer : ℕ → Byte} {m n : ℕ}

/-- A call and the run it has made so far: the words stored to `data_cmd` are the first ones of
one sequence, with the STOP bit on its last word and the RESTART bit on the first read
command of a combined transfer; byte `i` stored to `rbuffer` is stored at index `i`, below `n`, and
is the low byte of the `i`-th word loaded from `data_cmd`; `wbuffer` is read below `m`; and what the
call returns is `0` after a timeout, or the number of write words and bytes it has
stored. -/
structure CommandStreamed (R : I2cHw σ) (addr : Byte) (wbuffer : ℕ → Byte) (m n : ℕ)
    (d : PicoI2C σ) (es : List Event) (c : Transaction σ) : Prop where
  length : (commandStream wbuffer m n).length = m + n
  words : ∀ i w, (commandStream wbuffer m n)[i]? = some w → WordSpec wbuffer m n i w
  cmds : c.drv.log.cmds <+: commandStream wbuffer m n
  bytes : ∃ loads, (transactionMachine R.recording).run
      (transaction R.recording addr wbuffer m n (d.mapHw fun s => (s, []))) es =
        some (c.mapHw fun s => (s, loads)) ∧
    c.drv.log.rstores = receivedBytes loads ∧ loads.length ≤ n
  wreads : ∀ i ∈ c.drv.log.wreads, i < m
  count : ∀ v, c.phase = .returned v → c.timedOut = true ∧ v = 0 ∨
    v = writeWords c.drv.log.cmds + c.drv.log.rstores.length

/-- INTERNAL: a call that begins with no notification pending counts all it has stored.
SOURCE: i2c/PicoI2C.cpp:69-222 -/
theorem commandStreamed_of_clean {addr : Byte} {d : PicoI2C σ} {es : List Event}
    {c : Transaction σ} (hlt : m + n < 2 ^ 32) (hd : d.notified = false)
    (hrun : (transactionMachine R).run (transaction R addr wbuffer m n d) es = some c) :
    CommandStreamed R addr wbuffer m n d es c := by
  have hcall := run_callInv hlt hrun
  have hstream := hcall.stream
  refine ⟨commandStream_length, fun i w hw => commandStream_spec hw, hstream.cmds_isPrefix, ?_, ?_,
    ?_⟩
  · obtain ⟨loads, hrec, hbytes⟩ := recording_run hrun
    refine ⟨loads, hrec, hbytes, ?_⟩
    have hlen := hstream.rstores_length
    rw [hbytes, receivedBytes_length] at hlen
    omega
  · intro i hi
    rw [hstream.wreads, List.mem_range] at hi
    omega
  · intro v hv
    obtain ⟨hval, -, hstop⟩ := hcall.count v (Or.inr hv)
    obtain htimed | ⟨hseen, -⟩ := (run_endsByStop hd hrun).count v (Or.inr hv)
    · exact Or.inl htimed
    · rw [← hstop hseen]
      exact hval

/-! ## A call that finds a notification -/

/-- INTERNAL: a first fill that finds no room.
SOURCE: i2c/PicoI2C.cpp:152-153 -/
theorem initialFill_full {d : PicoI2C σ} (h : R.writeAvailable d.hw = (0, d.hw)) :
    (if 0 < d.wctr then txFillFifo R d else rxFillFifo R d) = d := by
  have hlook : ({ d with hw := (R.writeAvailable d.hw).2 } : PicoI2C σ) = d := by rw [h]
  have hnone : ¬ 0 < (R.writeAvailable d.hw).1 := by rw [h]; exact lt_irrefl 0
  split
  · unfold txFillFifo
    cases d.wctr with
    | zero => rfl
    | succ k => simp only [txLoop, if_neg hnone, hlook, ite_self]
  · unfold rxFillFifo
    cases d.rctr with
    | zero => rfl
    | succ k => simp only [rxLoop, if_neg hnone, hlook, ite_self]

/-- INTERNAL: the wait of a call that finds a notification may end at once, and the handler may
run behind the count.
SOURCE: i2c/PicoI2C.cpp:155-168 -/
theorem handler_behind_count {t : Transaction σ} (hphase : t.phase = .waiting)
    (hnote : t.drv.notified = true) (hirq : t.drv.irqEnabled = true)
    (hmask : t.drv.intrMask ≠ IntrBits.none) :
    ∃ c, (transactionMachine R).run t [.take, .count, .isr, .irqOff] = some c ∧
      c.phase = .returned (u32 ((u32 (t.wlength + t.rlength) : ℕ) -
        (u32 (t.drv.rcnt + t.drv.wctr) : ℕ))) ∧
      c.timedOut = t.timedOut ∧
      c.drv = { isr R { t.drv with notified := false } with irqEnabled := false } := by
  refine ⟨_, (CallStep.take hphase hnote).run_cons ((CallStep.count rfl).run_cons
    ((CallStep.isr ?_ ?_).run_cons ((CallStep.irqOff _ rfl).run_cons rfl))), rfl, rfl, rfl⟩
  · exact hirq
  · exact hmask

/-- INTERNAL: no piece of work takes a fetched byte back. -/
theorem step_rcnt {d d' : PicoI2C σ} (hs : DriverStep R d d') : d'.rcnt ≤ d.rcnt := by
  cases hs with
  | rxStore => exact Nat.sub_le _ _
  | _ => exact le_rfl

theorem steps_rcnt {d d' : PicoI2C σ} (hs : DriverSteps R d d') : d'.rcnt ≤ d.rcnt :=
  hs.invariant (fun e => e.rcnt ≤ d.rcnt) (fun _ _ h hlast => (step_rcnt hlast).trans h) le_rfl

/-- INTERNAL: a run of the handler fetches a byte if it finds one and wants one.
SOURCE: i2c/PicoI2C.cpp:190-196 -/
theorem isr_rcnt_lt {d : PicoI2C σ} (hwant : 0 < d.rcnt) (hsome : 0 < (R.rxflr d.hw).1) :
    (isr R d).rcnt < d.rcnt := by
  obtain ⟨k, hk⟩ := Nat.exists_eq_add_of_lt hwant
  rw [Nat.zero_add] at hk
  have hfirst : isrDrain R d = drainLoop R k (rxStore R { d with hw := (R.rxflr d.hw).2 }) := by
    simp only [isrDrain, hk, drainLoop, if_pos hsome, Nat.zero_lt_succ, if_true]
  have hdrain : (isrDrain R d).rcnt < d.rcnt := by
    have hrest := steps_rcnt
      (drainLoop_steps (R := R) k (rxStore R { d with hw := (R.rxflr d.hw).2 }))
    rw [hfirst]
    refine Nat.lt_of_le_of_lt hrest ?_
    simp only [rxStore]
    omega
  exact Nat.lt_of_le_of_lt (steps_rcnt (isrDrain_steps d)) hdrain

/-- A controller whose FIFO has no room until the handler has looked at the interrupt status, and
that always has a byte to fetch. -/
def roomLater : I2cHw Bool where
  writeAvailable s := (s.toNat, s)
  storeDataCmd _ s := s
  rxflr s := (1, s)
  loadDataCmd s := (0#32, s)
  rawIntrStat _ := (⟨false, true, false⟩, true)
  clrStopDet s := s
  enable _ s := s
  tar _ s := s

/-- INTERNAL: with room from the second look on, a run of the handler stores something.
SOURCE: i2c/PicoI2C.cpp:190-212 -/
theorem roomLater_isr {d : PicoI2C Bool} (hpos : 0 < m + n) (hwctr : d.wctr = m)
    (hrctr : d.rctr = n) (hrcnt : d.rcnt = n) (hmask : MaskOpen d) :
    (isr roomLater d).wctr < m ∨ (isr roomLater d).rcnt < n := by
  obtain hn | hn := Nat.eq_zero_or_pos n
  · have hless := isr_remaining_lt (R := roomLater) hmask
      (by simp only [remaining]; omega) ⟨rfl, Nat.one_pos⟩
    simp only [remaining] at hless
    omega
  · have hless := isr_rcnt_lt (R := roomLater) (d := d) (by omega) Nat.one_pos
    omega

/-- INTERNAL: a call that finds a notification may return `0` without a timeout after it has
stored something.
SOURCE: i2c/PicoI2C.cpp:152-168 -/
theorem stale_run (addr : Byte) (wbuffer : ℕ → Byte) (hpos : 0 < m + n) (hlt : m + n < 2 ^ 32) :
    ∃ c, (transactionMachine roomLater).run (transaction roomLater addr wbuffer m n
        { PicoI2C.construct false with notified := true }) [.take, .count, .isr, .irqOff] =
          some c ∧
      c.phase = .returned 0 ∧ c.timedOut = false ∧
      0 < writeWords c.drv.log.cmds + c.drv.log.rstores.length := by
  generalize hd : ({ PicoI2C.construct false with notified := true } : PicoI2C Bool) = d
  have hprogram : (program roomLater addr wbuffer m n d).hw = false ∧ d.notified = true := by
    rw [← hd]
    exact ⟨rfl, rfl⟩
  have hdrv : (transaction roomLater addr wbuffer m n d).drv =
      { program roomLater addr wbuffer m n d with irqEnabled := true } := by
    have hfull := initialFill_full (R := roomLater)
      (d := program roomLater addr wbuffer m n d) (by rw [hprogram.1]; rfl)
    simp only [transaction, beginTransaction, hfull]
  obtain ⟨c, hrun, hphase, htime, hc⟩ := handler_behind_count (R := roomLater)
    (t := transaction roomLater addr wbuffer m n d) rfl (by rw [hdrv]; exact hprogram.2)
    (by rw [hdrv]) (by rw [hdrv]; exact fun h => by cases h)
  have hstream := run_streamInv hrun
  refine ⟨c, hrun, ?_, htime, ?_⟩
  · rw [hphase, hdrv]
    have hvalue := count_value hlt (show n + m ≤ m + n by omega)
    rw [show m + n - (n + m) = 0 by omega] at hvalue
    exact congrArg Phase.returned hvalue
  · have hless := roomLater_isr (d := { (transaction roomLater addr wbuffer m n d).drv with
      notified := false }) hpos (by rw [hdrv]; rfl) (by rw [hdrv]; rfl) (by rw [hdrv]; rfl)
      (by rw [hdrv]; exact ⟨rfl, rfl, fun _ => rfl⟩)
    have hwctr : c.drv.wctr = (isr roomLater { (transaction roomLater addr wbuffer m n d).drv with
      notified := false }).wctr := by rw [hc]
    have hrcnt : c.drv.rcnt = (isr roomLater { (transaction roomLater addr wbuffer m n d).drv with
      notified := false }).rcnt := by rw [hc]
    rw [hstream.writeWords_eq, hstream.rstores_length]
    omega

/-- CONTRACT: for every block of registers and every schedule of the handler and the timeout, the
words a call stores, the bytes it stores and its reads of `wbuffer` are those of its arguments, in
order, and it returns `0` after a timeout or else the number of write words and bytes it has
stored, exactly if no notification is pending for the calling task when the call begins.
SOURCE: i2c/PicoI2C.cpp:69-222 -/
theorem transaction_command_stream (addr : Byte) (wbuffer : ℕ → Byte) (m n : ℕ)
    (hpos : 0 < m + n) (hlt : m + n < 2 ^ 32) (pending : Bool) :
    (∀ (σ : Type) (R : I2cHw σ) (d : PicoI2C σ), d.notified = pending →
      ∀ (es : List Event) (c : Transaction σ),
        (transactionMachine R).run (transaction R addr wbuffer m n d) es = some c →
          CommandStreamed R addr wbuffer m n d es c) ↔ pending = false := by
  constructor
  · intro hall
    by_contra hne
    obtain rfl : pending = true := by simpa using hne
    obtain ⟨c, hrun, hphase, htime, hstored⟩ := stale_run addr wbuffer hpos hlt
    obtain ⟨htimed, -⟩ | hcount := (hall Bool roomLater _ rfl _ c hrun).count 0 hphase
    · cases htime.symm.trans htimed
    · omega
  · rintro rfl σ R d hd es c hrun
    exact commandStreamed_of_clean hlt hd hrun

/-- One byte written and one byte read: two runs of the handler, then the task is notified and
returns 2. -/
theorem transaction_command_stream_combined :
    ∃ c, (transactionMachine (Controller.hw willingSlave fun _ => 1)).run
        (transaction (Controller.hw willingSlave fun _ => 1) 0x50#8 (fun _ => 0xA5#8) 1 1
          (PicoI2C.construct (Controller.reset 0)))
        [.isr, .isr, .take, .count, .irqOff] = some c ∧
      c.phase = .returned 2 ∧ CommandStreamed (Controller.hw willingSlave fun _ => 1) 0x50#8
        (fun _ => 0xA5#8) 1 1 (PicoI2C.construct (Controller.reset 0))
        [.isr, .isr, .take, .count, .irqOff] c :=
  ⟨_, rfl, rfl, (transaction_command_stream 0x50#8 (fun _ => 0xA5#8) 1 1 (by decide) (by decide)
    false).mpr rfl Controller (Controller.hw willingSlave fun _ => 1) _ rfl _ _ rfl⟩

/-- A write to a device that acknowledges everything. -/
def writeOf (sched : ℕ → ℕ) (m : ℕ) : CallArgs :=
  ⟨willingSlave, sched, 0x50#8, fun _ => 0x61#8, m, 0⟩

/-- The first call times out and the handler then sees its STOP. The second call takes the
notification with 16 of 17 words stored and counts them; the handler stores the last word before
the interrupt is disabled. -/
theorem handler_stores_behind_count :
    ((callsMachine.run (Calls.start (Controller.reset 0) : Calls ℕ)
        [.enter 0 (writeOf (fun _ => 3) 1), .event .timeout, .event .isr, .event .irqOff, .leave,
          .enter 0 (writeOf (fun now => if now < 44 then 0 else 60) 17), .event .take,
          .event .count, .event .isr, .event .irqOff]).bind Calls.call).map
      (fun c => (c.transaction.phase, c.transaction.timedOut,
        writeWords c.transaction.drv.log.cmds + c.transaction.drv.log.rstores.length)) =
      some (.returned 16, false, 17) := by
  rfl

end PicoDrone.Analysis
