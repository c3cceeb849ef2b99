import PicoDrone.Analysis.I2cCommandStream

/-!
# A transfer does not stall in the driver

Until the handler has seen STOP, the sources that drive the transfer on are unmasked
(`MaskOpen`): STOP and RX_FULL always, TX_EMPTY as long as commands are left. A run of the
handler that finds TX_EMPTY raised and a free slot queues a command (`isr_remaining_lt`), and
the last command of the sequence asks for STOP (`StreamInv.last_hasStop`). So there is no state
in which the driver waits for a STOP that no command has requested (`transfer_never_stalls`).
-/

set_option autoImplicit false

namespace PicoDrone.Analysis

open PicoDrone.Library PicoDrone.Model

variable {σ : Type} {R : I2cHw σ} {wbuffer : ℕ → Byte} {m n : ℕ}

/-- The commands that the driver has not queued yet. -/
def remaining (d : PicoI2C σ) : ℕ := d.wctr + d.rctr

/-- The sources the driver still needs are unmasked. -/
structure MaskOpen (d : PicoI2C σ) : Prop where
  stopDet : d.intrMask.stopDet = true
  rxFull : d.intrMask.rxFull = true
  txEmpty : 0 < remaining d → d.intrMask.txEmpty = true

/-! ## The mask -/

/-- INTERNAL: only the handling of STOP masks a source that is still needed.
SOURCE: i2c/PicoI2C.cpp:208-217 -/
theorem step_maskOpen {d d' : PicoI2C σ} (hs : DriverStep R d d')
    (h : d.log.stopSeen = false → MaskOpen d) : d'.log.stopSeen = false → MaskOpen d' := by
  intro hseen
  cases hs with
  | txPut hw _ =>
    have hmask := h hseen
    refine ⟨hmask.stopDet, hmask.rxFull, fun _ => hmask.txEmpty ?_⟩
    simp only [remaining]
    omega
  | rxPut _ hr _ =>
    have hmask := h hseen
    refine ⟨hmask.stopDet, hmask.rxFull, fun _ => hmask.txEmpty ?_⟩
    simp only [remaining]
    omega
  | queued hw hr _ =>
    -- TX_EMPTY is masked here, but no command is left
    refine ⟨rfl, rfl, fun hleft => ?_⟩
    simp only [remaining, hw, hr] at hleft
    omega
  | stop => exact absurd hseen (by simp [isrStop])
  | _ =>
    have hmask := h hseen
    exact ⟨hmask.stopDet, hmask.rxFull, hmask.txEmpty⟩

/-! ## Commands are queued -/

/-- INTERNAL: no piece of work takes a queued command back. -/
theorem step_remaining {d d' : PicoI2C σ} (hs : DriverStep R d d') :
    remaining d' ≤ remaining d := by
  cases hs with
  | txPut => simp only [remaining, txPut]; omega
  | rxPut => simp only [remaining, rxPut]; omega
  | _ => exact Nat.le_refl _

theorem steps_remaining {d d' : PicoI2C σ} (hs : DriverSteps R d d') :
    remaining d' ≤ remaining d :=
  hs.invariant (fun e => remaining e ≤ remaining d)
    (fun _ _ h hlast => (step_remaining hlast).trans h) le_rfl

/-- INTERNAL: the transmit loop queues a command if the first check finds a free slot.
SOURCE: i2c/PicoI2C.cpp:73-90 -/
theorem txFillFifo_remaining_lt {d : PicoI2C σ} (hw : 0 < d.wctr)
    (hslot : 0 < (R.writeAvailable d.hw).1) : remaining (txFillFifo R d) < remaining d := by
  obtain ⟨k, hk⟩ := Nat.exists_eq_add_of_lt hw
  rw [Nat.zero_add] at hk
  have hfirst : txFillFifo R d =
      txLoop R k (txPut R { d with hw := (R.writeAvailable d.hw).2 }) := by
    simp only [txFillFifo, hk, txLoop, if_pos hslot, Nat.zero_lt_succ, if_true]
  have hrest := steps_remaining
    (txLoop_steps (R := R) k (txPut R { d with hw := (R.writeAvailable d.hw).2 }))
  rw [hfirst]
  refine Nat.lt_of_le_of_lt hrest ?_
  simp only [remaining, txPut]
  omega

/-- INTERNAL: the loop that queues read commands queues one if the first check finds a free
slot.
SOURCE: i2c/PicoI2C.cpp:102-116 -/
theorem rxFillFifo_remaining_lt {d : PicoI2C σ} (hw : d.wctr = 0) (hr : 0 < d.rctr)
    (hslot : 0 < (R.writeAvailable d.hw).1) : remaining (rxFillFifo R d) < remaining d := by
  obtain ⟨k, hk⟩ := Nat.exists_eq_add_of_lt hr
  rw [Nat.zero_add] at hk
  have hfirst : rxFillFifo R d =
      rxLoop R k (rxPut R { d with hw := (R.writeAvailable d.hw).2 }) := by
    simp only [rxFillFifo, hk, rxLoop, if_pos hslot, Nat.zero_lt_succ, if_true]
  have hrest := steps_remaining
    (rxLoop_steps (R := R) k (rxPut R { d with hw := (R.writeAvailable d.hw).2 }) hw)
  rw [hfirst]
  refine Nat.lt_of_le_of_lt hrest ?_
  simp only [remaining, rxPut]
  omega

/-- INTERNAL: the refill of the handler queues a command if there is one and a free slot.
SOURCE: i2c/PicoI2C.cpp:203-212 -/
theorem isrRefill_remaining_lt {d : PicoI2C σ} (hleft : 0 < remaining d)
    (hslot : 0 < (R.writeAvailable d.hw).1) : remaining (isrRefill R d) < remaining d := by
  have hmask : ∀ e : PicoI2C σ, remaining (if e.wctr == 0 && e.rctr == 0 then
      { e with intrMask := ⟨true, false, true⟩ } else e) = remaining e := by
    intro e
    split <;> rfl
  simp only [isrRefill, hmask]
  by_cases hw : 0 < d.wctr
  · rw [if_pos hw]
    exact txFillFifo_remaining_lt hw hslot
  · have hr : 0 < d.rctr := by
      simp only [remaining] at hleft
      omega
    rw [if_neg hw, if_pos hr]
    exact rxFillFifo_remaining_lt (by omega) hr hslot

/-- The look of the handler at the status shows TX_EMPTY, and its first check for room finds a
free slot. -/
structure SeesRoom (R : I2cHw σ) (d : PicoI2C σ) : Prop where
  txEmpty : (R.rawIntrStat (isrDrain R d).hw).1.txEmpty = true
  slot : 0 < (R.writeAvailable (R.rawIntrStat (isrDrain R d).hw).2).1

/-- INTERNAL: a run of the handler that sees room queues a command.
SOURCE: i2c/PicoI2C.cpp:172-222 -/
theorem isr_remaining_lt {d : PicoI2C σ} (hmask : MaskOpen d) (hleft : 0 < remaining d)
    (hroom : SeesRoom R d) : remaining (isr R d) < remaining d := by
  have hkeep : remaining (isrDrain R d) = remaining d :=
    drainLoop_keeps remaining (fun _ _ => rfl) (fun _ => rfl) _ d
  have hopen : (isrDrain R d).intrMask = d.intrMask :=
    drainLoop_keeps PicoI2C.intrMask (fun _ _ => rfl) (fun _ => rfl) _ d
  have hsees : ((R.rawIntrStat (isrDrain R d).hw).1.txEmpty &&
      (isrDrain R d).intrMask.txEmpty) = true := by
    rw [hroom.txEmpty, hopen, hmask.txEmpty hleft]
    rfl
  have hrefill : remaining (isrRefill R
      { isrDrain R d with hw := (R.rawIntrStat (isrDrain R d).hw).2 }) < remaining d := by
    rw [← hkeep]
    exact isrRefill_remaining_lt (hkeep ▸ hleft) hroom.slot
  -- the rest of the handler queues nothing and takes nothing back
  refine Nat.lt_of_le_of_lt ?_ hrefill
  unfold isr
  simp only [hsees, if_true]
  exact steps_remaining (isrLast_steps _)

/-! ## The whole call -/

/-- INTERNAL: when every command is queued the last one has the STOP bit.
SOURCE: i2c/PicoI2C.cpp:74-108 -/
theorem StreamInv.last_hasStop {d : PicoI2C σ} (h : StreamInv wbuffer m n d) (hpos : 0 < m + n)
    (hnone : remaining d = 0) : ∃ w, d.log.cmds.getLast? = some w ∧ hasStop w = true := by
  simp only [remaining, Nat.add_eq_zero_iff] at hnone
  have hall : d.log.cmds = commandStream wbuffer m n := by
    rw [h.cmds, hnone.1, hnone.2, List.take_of_length_le (by simp)]
  have hlt : m + n - 1 < (commandStream wbuffer m n).length := by
    rw [commandStream_length]
    omega
  have hlast := List.getElem?_eq_getElem hlt
  refine ⟨_, ?_, (commandStream_spec hlast).stop_iff.mpr (by omega)⟩
  rw [hall, List.getLast?_eq_getElem?, commandStream_length, hlast]

/-- INTERNAL: a call that the handler has not seen the STOP of.
SOURCE: i2c/PicoI2C.cpp:134-222 -/
theorem run_maskOpen {addr : Byte} {d : PicoI2C σ} {es : List Event} {c : Transaction σ}
    (hrun : (transactionMachine R).run (transaction R addr wbuffer m n d) es = some c)
    (hseen : c.drv.log.stopSeen = false) : MaskOpen c.drv := by
  refine run_driver (fun d => d.log.stopSeen = false → MaskOpen d)
    (fun _ _ h hs => step_maskOpen hs h) (fun _ _ _ h hno => ?_) (fun _ => ⟨rfl, rfl, fun _ => rfl⟩)
    hrun hseen
  have hmask := h hno
  exact ⟨hmask.stopDet, hmask.rxFull, hmask.txEmpty⟩

/-- CONTRACT: in every state of a transaction in which the handler has not seen STOP: TX_EMPTY
is unmasked while commands are left, and every run of the handler that sees it with a free slot
queues one of them; once none is left the last word stored carries the STOP bit; STOP and
RX_FULL are unmasked.
SOURCE: i2c/PicoI2C.cpp:134-222 -/
theorem transfer_never_stalls (R : I2cHw σ) (addr : Byte) (wbuffer : ℕ → Byte) (m n : ℕ)
    (hpos : 0 < m + n) (d : PicoI2C σ) (es : List Event) (c : Transaction σ)
    (hrun : (transactionMachine R).run (transaction R addr wbuffer m n d) es = some c)
    (hseen : c.drv.log.stopSeen = false) :
    (0 < c.drv.wctr + c.drv.rctr → c.drv.intrMask.txEmpty = true ∧
      (SeesRoom R c.drv →
        (isr R c.drv).wctr + (isr R c.drv).rctr < c.drv.wctr + c.drv.rctr)) ∧
    (c.drv.wctr + c.drv.rctr = 0 → ∃ w, c.drv.log.cmds.getLast? = some w ∧ hasStop w = true) ∧
    c.drv.intrMask.stopDet = true ∧ c.drv.intrMask.rxFull = true := by
  have hmask := run_maskOpen hrun hseen
  have hstream := run_streamInv hrun
  refine ⟨fun hleft => ⟨hmask.txEmpty hleft, fun hroom => ?_⟩, fun hnone => ?_, hmask.stopDet,
    hmask.rxFull⟩
  · exact isr_remaining_lt hmask hleft hroom
  · exact hstream.last_hasStop hpos hnone

/-- One byte written and one to be read: the write word has left the FIFO, and the handler queues
the read command. -/
theorem transfer_never_stalls_handover :
    ∃ c, (transactionMachine (Controller.hw willingSlave fun _ => 1)).run
        (transaction (Controller.hw willingSlave fun _ => 1) 0x50#8 (fun _ => 0xA5#8) 1 1
          (PicoI2C.construct (Controller.reset 0))) [] = some c ∧
      c.drv.wctr + c.drv.rctr = 1 ∧
      (isr (Controller.hw willingSlave fun _ => 1) c.drv).wctr +
        (isr (Controller.hw willingSlave fun _ => 1) c.drv).rctr < 1 := by
  refine ⟨_, rfl, rfl, ?_⟩
  exact ((transfer_never_stalls (Controller.hw willingSlave fun _ => 1) 0x50#8
    (fun _ => 0xA5#8) 1 1 (by decide) (PicoI2C.construct (Controller.reset 0)) [] _ rfl
    rfl).1 (by decide)).2 ⟨by decide, by decide⟩

end PicoDrone.Analysis
