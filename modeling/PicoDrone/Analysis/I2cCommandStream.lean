import Mathlib.Data.List.Basic
import Mathlib.Data.List.Range
import PicoDrone.Analysis.I2cSteps
import PicoDrone.Model.I2cController

/-!
# The command stream of an I2C transaction

`commandStream wbuffer m n` is the one sequence of words a transaction with `m` bytes to
write and `n` bytes to read may store to `data_cmd`. The first fill and every run of the
interrupt handler extend the stored words along it (`StreamInv`), whatever the register
block answers, and the two pointers move in step with the three counters. The count the
call returns is read off these counters (`count_eq_log`), and a call that begins with no
notification pending returns it after a STOP of its own (`run_endsByStop`).
-/

set_option autoImplicit false

namespace PicoDrone.Analysis

open PicoDrone.Library PicoDrone.Model

/-! ## The fields of a command word -/

/-- INTERNAL: a write word carries the byte and the two bits it was made from.
SOURCE: i2c/PicoI2C.cpp:76-81 -/
theorem writeWord_fields (restart stop : Bool) (b : Byte) :
    hasStop (writeWord restart stop b) = stop ∧
      hasRestart (writeWord restart stop b) = restart ∧
      isRead (writeWord restart stop b) = false ∧
      dataByte (writeWord restart stop b) = b := by
  unfold hasStop hasRestart isRead dataByte writeWord i2cIcDataCmdStopLsb
    i2cIcDataCmdRestartLsb boolToBit
  cases restart <;> cases stop <;> simp [BitVec.setWidth_or]

/-- INTERNAL: a read command carries the two bits it was made from.
SOURCE: i2c/PicoI2C.cpp:104-109 -/
theorem readWord_fields (restart stop : Bool) :
    hasStop (readWord restart stop) = stop ∧ hasRestart (readWord restart stop) = restart ∧
      isRead (readWord restart stop) = true := by
  cases restart <;> cases stop <;> decide

/-! ## The sequence -/

/-- The words a transaction may store to `data_cmd`, in order. -/
def commandStream (wbuffer : ℕ → Byte) (m n : ℕ) : List Word :=
  (List.range m).map (fun i => writeWord false (decide (n = 0 ∧ i + 1 = m)) (wbuffer i)) ++
    (List.range n).map fun j => readWord (decide (0 < m ∧ j = 0)) (decide (j + 1 = n))

variable {wbuffer : ℕ → Byte} {m n : ℕ}

@[simp] theorem commandStream_length : (commandStream wbuffer m n).length = m + n := by
  simp [commandStream]

/-- INTERNAL: the first `m` words of the sequence are the write words. -/
theorem commandStream_write {i : ℕ} (hi : i < m) :
    (commandStream wbuffer m n)[i]? =
      some (writeWord false (decide (n = 0 ∧ i + 1 = m)) (wbuffer i)) := by
  unfold commandStream
  rw [List.getElem?_append_left (by simpa using hi)]
  simp [hi]

/-- INTERNAL: the other words of the sequence are the read commands. -/
theorem commandStream_read {j : ℕ} (hj : j < n) :
    (commandStream wbuffer m n)[m + j]? =
      some (readWord (decide (0 < m ∧ j = 0)) (decide (j + 1 = n))) := by
  unfold commandStream
  rw [List.getElem?_append_right (by simp)]
  simp [hj]

/-- What the fields of the `i`-th word of a sequence must be. -/
structure WordSpec (wbuffer : ℕ → Byte) (m n i : ℕ) (w : Word) : Prop where
  read_iff : isRead w = true ↔ m ≤ i
  data : i < m → dataByte w = wbuffer i
  stop_iff : hasStop w = true ↔ i + 1 = m + n
  restart_iff : hasRestart w = true ↔ 0 < m ∧ 0 < n ∧ i = m

/-- INTERNAL: every word of the sequence has the fields it must have. -/
theorem commandStream_spec {i : ℕ} {w : Word} (h : (commandStream wbuffer m n)[i]? = some w) :
    WordSpec wbuffer m n i w := by
  have hi : i < m + n := by
    have := (List.getElem?_eq_some_iff.mp h).1
    simpa using this
  by_cases hm : i < m
  · rw [commandStream_write hm] at h
    obtain rfl := Option.some.inj h
    obtain ⟨hs, hr, hc, hd⟩ :=
      writeWord_fields false (decide (n = 0 ∧ i + 1 = m)) (wbuffer i)
    refine ⟨?_, fun _ => hd, ?_, ?_⟩
    · rw [hc]; simp; omega
    · rw [hs, decide_eq_true_iff]; omega
    · rw [hr]; simp; omega
  · obtain ⟨j, rfl⟩ : ∃ j, i = m + j := ⟨i - m, by omega⟩
    rw [commandStream_read (by omega)] at h
    obtain rfl := Option.some.inj h
    obtain ⟨hs, hr, hc⟩ := readWord_fields (decide (0 < m ∧ j = 0)) (decide (j + 1 = n))
    refine ⟨?_, fun hlt => absurd hlt hm, ?_, ?_⟩
    · rw [hc]; simp
    · rw [hs, decide_eq_true_iff]; omega
    · rw [hr, decide_eq_true_iff]; omega

/-- The write words among the stored ones. -/
def writeWords (cmds : List Word) : ℕ := (cmds.filter fun w => !isRead w).length

/-- INTERNAL: a part of the sequence cut off at the front contains its first write words
and nothing but read commands after them. -/
theorem writeWords_take (k : ℕ) :
    writeWords ((commandStream wbuffer m n).take k) = min k m := by
  unfold writeWords commandStream
  rw [List.take_append, List.filter_append]
  have hwrite : (((List.range m).map fun i =>
      writeWord false (decide (n = 0 ∧ i + 1 = m)) (wbuffer i)).take k).filter
        (fun w => !isRead w) =
      ((List.range m).map fun i =>
        writeWord false (decide (n = 0 ∧ i + 1 = m)) (wbuffer i)).take k := by
    rw [List.filter_eq_self]
    intro w hw
    obtain ⟨i, -, rfl⟩ := List.mem_map.mp (List.mem_of_mem_take hw)
    rw [(writeWord_fields _ _ _).2.2.1]
    rfl
  have hread : (((List.range n).map fun j =>
      readWord (decide (0 < m ∧ j = 0)) (decide (j + 1 = n))).take (k - ((List.range m).map
        fun i => writeWord false (decide (n = 0 ∧ i + 1 = m)) (wbuffer i)).length)).filter
        (fun w => !isRead w) = [] := by
    rw [List.filter_eq_nil_iff]
    intro w hw
    obtain ⟨j, -, rfl⟩ := List.mem_map.mp (List.mem_of_mem_take hw)
    rw [(readWord_fields _ _).2.2]
    simp
  rw [hwrite, hread]
  simp

/-! ## The driver stays on the sequence -/

variable {σ : Type} {R : I2cHw σ}

/-- The counters, the pointers and the log of a transaction with `m` bytes to write and
`n` bytes to read belong together. -/
structure StreamInv (wbuffer : ℕ → Byte) (m n : ℕ) (d : PicoI2C σ) : Prop where
  buffer : d.wbuffer = wbuffer
  wctr_le : d.wctr ≤ m
  rctr_le : d.rctr ≤ n
  rcnt_le : d.rcnt ≤ n
  order : 0 < d.wctr → d.rctr = n
  wbuf_eq : d.wbuf = m - d.wctr
  rbuf_eq : d.rbuf = n - d.rcnt
  restart : d.restartOnNext = decide (0 < m ∧ 0 < n ∧ d.wctr = 0 ∧ d.rctr = n)
  cmds : d.log.cmds = (commandStream wbuffer m n).take (m - d.wctr + (n - d.rctr))
  wreads : d.log.wreads = List.range (m - d.wctr)
  rstores : d.log.rstores.map Prod.fst = List.range (n - d.rcnt)

/-- INTERNAL: the invariant mentions neither the register block, the mask, the
notification, the NVIC nor the STOP record. -/
theorem StreamInv.frame {d : PicoI2C σ} (h : StreamInv wbuffer m n d) (hw : σ)
    (mask : IntrBits) (notified irqEnabled stopSeen : Bool) :
    StreamInv wbuffer m n { d with
      hw := hw
      intrMask := mask
      notified := notified
      irqEnabled := irqEnabled
      log := { d.log with stopSeen := stopSeen } } :=
  ⟨h.buffer, h.wctr_le, h.rctr_le, h.rcnt_le, h.order, h.wbuf_eq, h.rbuf_eq, h.restart,
    h.cmds, h.wreads, h.rstores⟩

/-- INTERNAL: a freshly programmed controller has stored nothing.
SOURCE: i2c/PicoI2C.cpp:139-149 -/
theorem program_streamInv (addr : Byte) (d : PicoI2C σ) :
    StreamInv wbuffer m n (program R addr wbuffer m n d) := by
  constructor <;> simp [program, BusLog.empty]
  omega

/-- INTERNAL: storing a write word takes the next word of the sequence.
SOURCE: i2c/PicoI2C.cpp:74-86 -/
theorem txPut_streamInv {d : PicoI2C σ} (h : StreamInv wbuffer m n d) (hw : 0 < d.wctr) :
    StreamInv wbuffer m n (txPut R d) := by
  have hr := h.order hw
  have hle := h.wctr_le
  have hoff : d.restartOnNext = false := by
    rw [h.restart, decide_eq_false_iff_not]
    omega
  have hstop : (d.wctr == 1 && d.rctr == 0) = decide (n = 0 ∧ m - d.wctr + 1 = m) := by
    rw [Bool.eq_iff_iff]
    simp only [Bool.and_eq_true, beq_iff_eq, decide_eq_true_eq]
    omega
  have hlen : m - (d.wctr - 1) + (n - d.rctr) = m - d.wctr + (n - d.rctr) + 1 := by omega
  have hzero : n - d.rctr = 0 := by omega
  refine ⟨h.buffer, ?_, h.rctr_le, h.rcnt_le, fun _ => hr, ?_, h.rbuf_eq, ?_, ?_, ?_,
    h.rstores⟩
  · simp only [txPut]; omega
  · simp only [txPut, h.wbuf_eq]; omega
  · simp only [txPut, hoff]
    rw [Bool.eq_iff_iff]
    simp only [Bool.and_eq_true, beq_iff_eq, Bool.not_eq_true', beq_eq_false_iff_ne, ne_eq,
      Bool.false_eq_true, if_false, decide_eq_true_eq]
    split_ifs <;> simp <;> omega
  · simp only [txPut, hoff, hstop, h.cmds, h.buffer, h.wbuf_eq]
    rw [hlen, List.take_add_one, hzero, Nat.add_zero, commandStream_write (by omega)]
    rfl
  · have hsucc : m - (d.wctr - 1) = m - d.wctr + 1 := by omega
    simp only [txPut, h.wreads, h.wbuf_eq]
    rw [hsucc, List.range_succ]

/-- INTERNAL: storing a read command takes the next word of the sequence, once no write
word is left.
SOURCE: i2c/PicoI2C.cpp:103-112 -/
theorem rxPut_streamInv {d : PicoI2C σ} (h : StreamInv wbuffer m n d) (hw : d.wctr = 0)
    (hr : 0 < d.rctr) : StreamInv wbuffer m n (rxPut R d) := by
  have hle := h.rctr_le
  have hrestart : d.restartOnNext = decide (0 < m ∧ n - d.rctr = 0) := by
    rw [h.restart]
    apply decide_eq_decide.mpr
    omega
  have hstop : (d.rctr == 1) = decide (n - d.rctr + 1 = n) := by
    rw [Bool.eq_iff_iff]
    simp only [beq_iff_eq, decide_eq_true_eq]
    omega
  have hlen : m - d.wctr + (n - (d.rctr - 1)) = m + (n - d.rctr) + 1 := by omega
  have hlen' : m - d.wctr + (n - d.rctr) = m + (n - d.rctr) := by omega
  refine ⟨h.buffer, h.wctr_le, ?_, h.rcnt_le, ?_, h.wbuf_eq, h.rbuf_eq, ?_, ?_, h.wreads,
    h.rstores⟩
  · simp only [rxPut]; omega
  · simp only [rxPut]; omega
  · simp only [rxPut]
    rw [show (if d.restartOnNext then false else d.restartOnNext) = false by
      cases d.restartOnNext <;> rfl]
    exact (decide_eq_false (by omega)).symm
  · simp only [rxPut, hrestart, hstop, h.cmds]
    rw [hlen, List.take_add_one, commandStream_read (by omega), hlen']
    rfl

/-- INTERNAL: a received byte is stored at the next index of `rbuffer`.
SOURCE: i2c/PicoI2C.cpp:190-192 -/
theorem rxStore_streamInv {d : PicoI2C σ} (h : StreamInv wbuffer m n d) (hr : 0 < d.rcnt) :
    StreamInv wbuffer m n (rxStore R d) := by
  have hle := h.rcnt_le
  have hsucc : n - (d.rcnt - 1) = n - d.rcnt + 1 := by omega
  refine ⟨h.buffer, h.wctr_le, h.rctr_le, ?_, h.order, h.wbuf_eq, ?_, h.restart, h.cmds,
    h.wreads, ?_⟩
  · simp only [rxStore]; omega
  · simp only [rxStore, h.rbuf_eq]; omega
  · simp only [rxStore, List.map_append, h.rstores, h.rbuf_eq]
    rw [hsucc, List.range_succ]
    rfl

theorem step_streamInv {d d' : PicoI2C σ} (h : StreamInv wbuffer m n d)
    (hs : DriverStep R d d') : StreamInv wbuffer m n d' := by
  cases hs with
  | full => exact h.frame _ _ _ _ _
  | txPut hw _ => exact txPut_streamInv (h.frame _ _ _ _ _) hw
  | rxPut hw hr _ => exact rxPut_streamInv (h.frame _ _ _ _ _) hw hr
  | empty => exact h.frame _ _ _ _ _
  | rxStore hr _ => exact rxStore_streamInv (h.frame _ _ _ _ _) hr
  | status => exact h.frame _ _ _ _ _
  | queued _ _ _ => exact h.frame _ _ _ _ _
  | stop _ _ => exact h.frame _ _ _ _ _

/-- INTERNAL: the words stored so far are a prefix of the sequence. -/
theorem StreamInv.cmds_isPrefix {d : PicoI2C σ} (h : StreamInv wbuffer m n d) :
    d.log.cmds <+: commandStream wbuffer m n := by
  rw [h.cmds]
  exact List.take_prefix _ _

/-- INTERNAL: every call stays on the sequence.
SOURCE: i2c/PicoI2C.cpp:134-222 -/
theorem run_streamInv {addr : Byte} {d : PicoI2C σ} {es : List Event} {c : Transaction σ}
    (hrun : (transactionMachine R).run (transaction R addr wbuffer m n d) es = some c) :
    StreamInv wbuffer m n c.drv :=
  run_driver (StreamInv wbuffer m n) (fun _ _ h hs => step_streamInv h hs)
    (fun _ _ _ h => h.frame _ _ _ _ _) (program_streamInv addr d) hrun

/-! ## The log only grows, and stops growing at STOP -/

/-- One log continues another. -/
structure LogLe (a b : BusLog) : Prop where
  cmds : a.cmds <+: b.cmds
  rstores : a.rstores <+: b.rstores

theorem LogLe.refl (a : BusLog) : LogLe a a := ⟨List.prefix_refl _, List.prefix_refl _⟩

theorem LogLe.trans {a b c : BusLog} (h : LogLe a b) (h' : LogLe b c) : LogLe a c :=
  ⟨h.cmds.trans h'.cmds, h.rstores.trans h'.rstores⟩

/-- INTERNAL: no piece of work takes anything back. -/
theorem step_logLe {d d' : PicoI2C σ} (hs : DriverStep R d d') : LogLe d.log d'.log := by
  cases hs with
  | txPut => exact ⟨List.prefix_append _ _, List.prefix_refl _⟩
  | rxPut => exact ⟨List.prefix_append _ _, List.prefix_refl _⟩
  | rxStore => exact ⟨List.prefix_refl _, List.prefix_append _ _⟩
  | stop => exact ⟨List.prefix_refl _, List.prefix_refl _⟩
  | _ => exact LogLe.refl _

/-- INTERNAL: once STOP is handled every interrupt source is masked.
SOURCE: i2c/PicoI2C.cpp:217 -/
theorem step_masked {d d' : PicoI2C σ} (hs : DriverStep R d d')
    (h : d.log.stopSeen = true → d.intrMask = IntrBits.none) :
    d'.log.stopSeen = true → d'.intrMask = IntrBits.none := by
  cases hs with
  | queued _ _ hm =>
    intro hseen
    rw [h hseen] at hm
    exact absurd hm (by decide)
  | stop => exact fun _ => rfl
  | _ => exact h

/-! ## The whole call -/

/-- A call of `transaction` in progress: the driver is on the sequence, and a count that
has been computed counts the log at the time it was computed. -/
structure CallInv (wbuffer : ℕ → Byte) (m n : ℕ) (c : Transaction σ) : Prop where
  wlength_eq : c.wlength = m
  rlength_eq : c.rlength = n
  stream : StreamInv wbuffer m n c.drv
  masked : c.drv.log.stopSeen = true → c.drv.intrMask = IntrBits.none
  count : ∀ v, c.phase = .counted v ∨ c.phase = .returned v →
    (c.timedOut = true ∧ v = 0 ∨ v = writeWords c.tally.cmds + c.tally.rstores.length) ∧
      LogLe c.tally c.drv.log ∧ (c.tally.stopSeen = true → c.tally = c.drv.log)

/-- INTERNAL: the call starts with the invariant.
SOURCE: i2c/PicoI2C.cpp:139-157 -/
theorem transaction_callInv (addr : Byte) (d : PicoI2C σ) :
    CallInv wbuffer m n (transaction R addr wbuffer m n d) := by
  have hfill := initialFill_steps (R := R) (program R addr wbuffer m n d)
  have hstream := hfill.invariant (StreamInv wbuffer m n)
    (fun _ _ h hs => step_streamInv h hs) (program_streamInv addr d)
  have hmask := hfill.invariant
    (fun d => d.log.stopSeen = true → d.intrMask = IntrBits.none)
    (fun _ _ h hs => step_masked hs h) (fun h => absurd h (by simp [program, BusLog.empty]))
  refine ⟨rfl, rfl, hstream.frame _ _ _ _ _, hmask, ?_⟩
  rintro v (h | h) <;> cases h

/-- INTERNAL: the unsigned subtraction of the count does not wrap.
SOURCE: i2c/PicoI2C.cpp:155-163 -/
theorem count_value {m n r w : ℕ} (hlt : m + n < 2 ^ 32) (hle : r + w ≤ m + n) :
    u32 ((u32 (m + n) : ℕ) - (u32 (r + w) : ℕ)) = m + n - (r + w) := by
  rw [u32_add (by omega), u32_add (by omega)]
  exact u32_sub hle hlt

theorem StreamInv.writeWords_eq {d : PicoI2C σ} (h : StreamInv wbuffer m n d) :
    writeWords d.log.cmds = m - d.wctr := by
  have hw := h.wctr_le
  have hord := h.order
  rw [h.cmds, writeWords_take]
  omega

theorem StreamInv.rstores_length {d : PicoI2C σ} (h : StreamInv wbuffer m n d) :
    d.log.rstores.length = n - d.rcnt := by
  have hbytes := congrArg List.length h.rstores
  rwa [List.length_map, List.length_range] at hbytes

/-- INTERNAL: the counters say how many write words and bytes the log holds.
SOURCE: i2c/PicoI2C.cpp:155-163 -/
theorem count_eq_log {d : PicoI2C σ} (h : StreamInv wbuffer m n d) (hlt : m + n < 2 ^ 32) :
    u32 ((u32 (m + n) : ℕ) - (u32 (d.rcnt + d.wctr) : ℕ)) =
      writeWords d.log.cmds + d.log.rstores.length := by
  have hw := h.wctr_le
  have hc := h.rcnt_le
  rw [count_value hlt (by omega), h.writeWords_eq, h.rstores_length]
  omega

theorem step_callInv {c c' : Transaction σ} {e : Event} (hlt : m + n < 2 ^ 32)
    (h : CallInv wbuffer m n c) (hs : CallStep R c e c') : CallInv wbuffer m n c' := by
  cases hs with
  | isr hirq hmask =>
    have hsteps := isr_steps (R := R) c.drv
    refine ⟨h.wlength_eq, h.rlength_eq,
      hsteps.invariant (StreamInv wbuffer m n) (fun _ _ h hs => step_streamInv h hs) h.stream,
      hsteps.invariant (fun d => d.log.stopSeen = true → d.intrMask = IntrBits.none)
        (fun _ _ h hs => step_masked hs h) h.masked, ?_⟩
    intro v hv
    obtain ⟨hval, hle, hstop⟩ := h.count v hv
    refine ⟨hval, hle.trans ?_, ?_⟩
    · exact hsteps.invariant (fun d => LogLe c.drv.log d.log)
        (fun _ _ h hs => h.trans (step_logLe hs)) (LogLe.refl _)
    · -- after STOP the mask is empty, so the handler cannot have run
      intro hseen
      have := hstop hseen
      exact absurd (h.masked (this ▸ hseen)) hmask
  | take =>
    refine ⟨h.wlength_eq, h.rlength_eq, h.stream.frame _ _ _ _ _, h.masked, ?_⟩
    rintro v (hv | hv) <;> cases hv
  | timeout =>
    refine ⟨h.wlength_eq, h.rlength_eq, h.stream, h.masked, ?_⟩
    rintro v (hv | hv) <;> cases hv
    exact ⟨Or.inl ⟨rfl, rfl⟩, LogLe.refl _, fun _ => rfl⟩
  | count =>
    refine ⟨h.wlength_eq, h.rlength_eq, h.stream, h.masked, ?_⟩
    rintro v (hv | hv) <;> cases hv
    refine ⟨Or.inr ?_, LogLe.refl _, fun _ => rfl⟩
    rw [h.wlength_eq, h.rlength_eq]
    exact count_eq_log h.stream hlt
  | irqOff v hphase =>
    refine ⟨h.wlength_eq, h.rlength_eq, h.stream.frame _ _ _ _ _, h.masked, ?_⟩
    rintro v' (hv' | hv') <;> cases hv'
    exact h.count v (Or.inl hphase)

theorem run_callInv {c : Transaction σ} {addr : Byte} {d : PicoI2C σ} {es : List Event}
    (hlt : m + n < 2 ^ 32)
    (hrun : (transactionMachine R).run (transaction R addr wbuffer m n d) es = some c) :
    CallInv wbuffer m n c :=
  (transactionMachine R).run_invariant (CallInv wbuffer m n)
    (fun _ _ _ h hs => step_callInv hlt h (callStep_iff.mp hs)) (transaction_callInv addr d)
    hrun

/-! ## The STOP that ends a call -/

/-- INTERNAL: a STOP that was seen stays seen. -/
theorem step_stopSeen {d d' : PicoI2C σ} (hs : DriverStep R d d')
    (h : d.log.stopSeen = true) : d'.log.stopSeen = true := by
  cases hs with
  | stop => rfl
  | _ => exact h

/-- INTERNAL: the handler notifies only when it has seen a STOP.
SOURCE: i2c/PicoI2C.cpp:216-220 -/
theorem step_notified {d d' : PicoI2C σ} (h : d.notified = true → d.log.stopSeen = true)
    (hs : DriverStep R d d') : d'.notified = true → d'.log.stopSeen = true := by
  cases hs with
  | stop => exact fun _ => rfl
  | _ => exact h

/-- A call that a STOP of its own ends, unless it times out. -/
structure EndsByStop (c : Transaction σ) : Prop where
  notified : c.drv.notified = true → c.drv.log.stopSeen = true
  woken : c.phase = .woken → c.drv.log.stopSeen = true
  count : ∀ v, c.phase = .counted v ∨ c.phase = .returned v →
    c.timedOut = true ∧ v = 0 ∨ c.tally.stopSeen = true ∧ c.drv.log.stopSeen = true

/-- INTERNAL: every event of the call keeps the invariant.
SOURCE: i2c/PicoI2C.cpp:155-168 -/
theorem step_endsByStop {c c' : Transaction σ} {e : Event} (h : EndsByStop c)
    (hs : CallStep R c e c') : EndsByStop c' := by
  cases hs with
  | isr =>
    have hsteps := isr_steps (R := R) c.drv
    have hkeep : c.drv.log.stopSeen = true → (isr R c.drv).log.stopSeen = true :=
      hsteps.invariant (fun d => d.log.stopSeen = true) (fun _ _ h hs => step_stopSeen hs h)
    refine ⟨hsteps.invariant _ (fun _ _ => step_notified) h.notified,
      fun hp => hkeep (h.woken hp), fun v hv => ?_⟩
    exact (h.count v hv).imp_right fun hseen => ⟨hseen.1, hkeep hseen.2⟩
  | take _ hnote =>
    refine ⟨fun hf => (by cases hf), fun _ => h.notified hnote, ?_⟩
    rintro v (hv | hv) <;> cases hv
  | timeout =>
    refine ⟨h.notified, fun hp => (by cases hp), ?_⟩
    rintro v (hv | hv) <;> cases hv
    exact Or.inl ⟨rfl, rfl⟩
  | count hphase =>
    exact ⟨h.notified, fun hp => (by cases hp),
      fun _ _ => Or.inr ⟨h.woken hphase, h.woken hphase⟩⟩
  | irqOff v hphase =>
    refine ⟨h.notified, fun hp => (by cases hp), ?_⟩
    rintro v' (hv' | hv') <;> cases hv'
    exact h.count v (Or.inl hphase)

/-- INTERNAL: a call that begins with no notification pending.
SOURCE: i2c/PicoI2C.cpp:134-168 -/
theorem run_endsByStop {c : Transaction σ} {addr : Byte} {d : PicoI2C σ} {es : List Event}
    (hd : d.notified = false)
    (hrun : (transactionMachine R).run (transaction R addr wbuffer m n d) es = some c) :
    EndsByStop c := by
  refine (transactionMachine R).run_invariant EndsByStop
    (fun _ _ _ h hs => step_endsByStop h (callStep_iff.mp hs)) ?_ hrun
  have hnote : (transaction R addr wbuffer m n d).drv.notified = false :=
    (beginTransaction_keeps (fun d => d.notified) (fun _ _ => rfl) (fun _ => rfl)
      (fun _ => rfl) (fun _ => rfl) addr wbuffer m n d).trans hd
  refine ⟨fun hn => ?_, fun hp => (by cases hp), ?_⟩
  · cases hnote.symm.trans hn
  · rintro v (hv | hv) <;> cases hv

/-- A slave that acknowledges everything. -/
def willingSlave : Slave := ⟨fun _ => true, fun _ => true, fun i => BitVec.ofNat 8 i⟩

end PicoDrone.Analysis
