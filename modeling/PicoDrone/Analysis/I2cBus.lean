import PicoDrone.Analysis.I2cCommandStream

/-!
# Driver and controller together

What the controller has executed is tied to the words the driver has stored and to the
bytes the driver has fetched (`BusInv`), under every schedule and for every slave. A
refusal cuts the executed commands off for good: the driver may go on storing words, but
the controller takes none of them.

A driver that has fetched all `n > 0` bytes of a transaction therefore knows that every
command before them was executed (`accepted_of_received`).
-/

set_option autoImplicit false

namespace PicoDrone.Analysis

open PicoDrone.Library PicoDrone.Model

/-- The command in the shift register. -/
def inFlight : Shift → List Word
  | .busy w => [w]
  | _ => []

@[simp] theorem inFlight_idle : inFlight .idle = [] := rfl

@[simp] theorem inFlight_stopping : inFlight .stopping = [] := rfl

@[simp] theorem inFlight_busy (w : Word) : inFlight (.busy w) = [w] := rfl

/-- The slave acknowledged its address and `m` bytes, refused nothing and delivered `n`
bytes. -/
structure Accepted (m n : ℕ) (c : Controller) : Prop where
  addressed : 0 < c.addrAcks
  willing : c.refused = false
  acked : c.acked = m
  delivered : c.delivered = n

/-- The controller after the driver has stored the words `L` and fetched `r` bytes. -/
structure CtlInv (L : List Word) (r : ℕ) (c : Controller) : Prop where
  held : c.aborted = c.refused
  queued : c.refused = false → c.executed ++ inFlight c.shift ++ c.txFifo = L
  cut : c.refused = true → c.executed <+: L ∧ c.executed.length < L.length ∧
    c.txFifo = [] ∧ inFlight c.shift = []
  acked : c.acked = writeWords c.executed
  delivered : c.acked + c.delivered = c.executed.length
  received : r + c.rxFifo.length ≤ c.delivered
  needAddr : c.needAddr = false → 0 < c.addrAcks
  addressed : c.executed ≠ [] → 0 < c.addrAcks

variable {L : List Word} {r : ℕ} {c : Controller} {S : Slave} {q : ℕ → ℕ}

theorem writeWords_append (l : List Word) (w : Word) :
    writeWords (l ++ [w]) = writeWords l + if isRead w then 0 else 1 := by
  unfold writeWords
  rw [List.filter_append, List.length_append]
  cases h : isRead w <;> simp [h]

/-- INTERNAL: a controller that was just disabled matches a driver that has done nothing. -/
theorem reset_ctlInv (now : ℕ) : CtlInv [] 0 (Controller.reset now) := by
  constructor <;> simp [Controller.reset, writeWords]

theorem CtlInv.frame (h : CtlInv L r c) (stopDet : Bool) (now : ℕ) :
    CtlInv L r { c with stopDet := stopDet, now := now } :=
  ⟨h.held, h.queued, h.cut, h.acked, h.delivered, h.received, h.needAddr, h.addressed⟩

/-- INTERNAL: no command is executed after a refusal. -/
theorem CtlInv.not_refused {w : Word} (h : CtlInv L r c) (hshift : c.shift = .busy w) :
    c.refused = false := by
  by_contra hr
  rw [Bool.not_eq_false] at hr
  obtain ⟨-, -, -, hflight⟩ := h.cut hr
  rw [hshift] at hflight
  cases hflight

/-- INTERNAL: a refusal cuts off the command it concerns and all queued ones. -/
theorem abort_ctlInv {w : Word} (h : CtlInv L r c) (hshift : c.shift = .busy w) :
    CtlInv L r c.abort := by
  have hnot := h.not_refused hshift
  have hL := h.queued hnot
  rw [hshift] at hL
  refine ⟨rfl, fun hf => (by cases hf), fun _ => ⟨?_, ?_, rfl, rfl⟩, h.acked, h.delivered,
    h.received, h.needAddr, h.addressed⟩
  · rw [← hL, List.append_assoc]
    exact List.prefix_append _ _
  · rw [← hL]
    simp [Controller.abort]

/-- INTERNAL: the byte phase of a command, after its address phase. -/
theorem transfer_ctlInv {w : Word} (h : CtlInv L r c) (hshift : c.shift = .busy w)
    (haddr : 0 < c.addrAcks) : CtlInv L r (c.transfer S w) := by
  have hnot := h.not_refused hshift
  have hL := h.queued hnot
  rw [hshift] at hL
  have hflight : inFlight (if hasStop w then Shift.stopping else Shift.idle) = [] := by
    split <;> rfl
  unfold Controller.transfer
  cases hread : isRead w with
  | true =>
    refine ⟨h.held, fun _ => ?_, fun hr => ?_, ?_, ?_, ?_, h.needAddr, fun _ => haddr⟩
    · simpa [Controller.completed, hflight] using hL
    · cases hnot.symm.trans hr
    · simp [Controller.completed, writeWords_append, hread, h.acked]
    · have := h.delivered
      simp [Controller.completed]
      omega
    · have := h.received
      simp only [Controller.completed, if_true]
      split <;> simp <;> omega
  | false =>
    cases hack : S.ackByte c.acked with
    | false => simpa [hack] using abort_ctlInv h hshift
    | true =>
      refine ⟨h.held, fun _ => ?_, fun hr => ?_, ?_, ?_, h.received, h.needAddr,
        fun _ => haddr⟩
      · simpa [Controller.completed, hflight] using hL
      · cases hnot.symm.trans hr
      · simp [Controller.completed, writeWords_append, hread, h.acked]
      · have := h.delivered
        simp [Controller.completed]
        omega

/-- INTERNAL: a step of the controller keeps it in line with the driver. -/
theorem tick_ctlInv (h : CtlInv L r c) : CtlInv L r (c.tick S) := by
  unfold Controller.tick
  cases hshift : c.shift with
  | idle =>
    cases hfifo : c.txFifo with
    | nil => exact h
    | cons w ws =>
      refine ⟨h.held, fun hr => ?_, fun hr => ?_, h.acked, h.delivered, h.received,
        h.needAddr, h.addressed⟩
      · have := h.queued hr
        rw [hshift, hfifo] at this
        simpa using this
      · have := (h.cut hr).2.2.1
        rw [hfifo] at this
        cases this
  | busy w =>
    dsimp only
    split
    · exact abort_ctlInv h hshift
    · by_cases haddr : c.addresses w = true
      · have hc : CtlInv L r (c.addressed w) := by
          simp only [Controller.addressed, haddr, if_true]
          exact ⟨h.held, h.queued, h.cut, h.acked, h.delivered, h.received,
            fun _ => Nat.succ_pos _, fun _ => Nat.succ_pos _⟩
        refine transfer_ctlInv hc ?_ ?_
        · simpa [Controller.addressed, haddr] using hshift
        · simp [Controller.addressed, haddr]
      · have hsame : c.addressed w = c := by simp [Controller.addressed, haddr]
        have hneed : c.needAddr = false := by
          simp only [Controller.addresses, Bool.or_eq_true, not_or, Bool.not_eq_true] at haddr
          exact haddr.1
        rw [hsame]
        exact transfer_ctlInv h hshift (h.needAddr hneed)
  | stopping =>
    refine ⟨h.held, fun hr => ?_, fun hr => ?_, h.acked, h.delivered, h.received,
      fun hf => (by cases hf), h.addressed⟩
    · have := h.queued hr
      rw [hshift] at this
      simpa using this
    · obtain ⟨h1, h2, h3, -⟩ := h.cut hr
      exact ⟨h1, h2, h3, rfl⟩

/-- INTERNAL: what every step of the controller keeps, the steps before a register access
keep. -/
theorem advance_induction (I : Controller → Prop) (hnow : ∀ c k, I c → I { c with now := k })
    (htick : ∀ c, I c → I (c.tick S)) (h : I c) : I (c.advance S q) := by
  have hiter : ∀ k c, I c → I ((Controller.tick S)^[k] c) := by
    intro k
    induction k with
    | zero => exact fun c hc => hc
    | succ k ih =>
      intro c hc
      rw [Function.iterate_succ_apply]
      exact ih _ (htick c hc)
  exact hnow _ _ (hiter _ _ h)

theorem advance_ctlInv (h : CtlInv L r c) : CtlInv L r (c.advance S q) :=
  advance_induction (CtlInv L r) (fun c k h => h.frame c.stopDet k) (fun _ h => tick_ctlInv h) h

/-- INTERNAL: a step of the controller only takes commands out of the transmit FIFO and
only puts bytes into the receive FIFO. -/
theorem tick_fifos (c : Controller) :
    (c.tick S).txFifo.length ≤ c.txFifo.length ∧ c.rxFifo.length ≤ (c.tick S).rxFifo.length := by
  have htransfer : ∀ (c : Controller) (w : Word),
      (c.transfer S w).txFifo.length ≤ c.txFifo.length ∧
        c.rxFifo.length ≤ (c.transfer S w).rxFifo.length := by
    intro c w
    unfold Controller.transfer Controller.completed Controller.abort
    split_ifs <;> simp
  unfold Controller.tick
  split
  · split
    · exact ⟨le_rfl, le_rfl⟩
    · rename_i heq
      simp [heq]
  · split
    · simp [Controller.abort]
    · rename_i w _ _
      have := htransfer (c.addressed w) w
      unfold Controller.addressed at this ⊢
      split_ifs at this ⊢ <;> exact this
  · exact ⟨le_rfl, le_rfl⟩

/-- INTERNAL: room in the transmit FIFO stays, and so do received bytes, until the driver
comes back. -/
theorem advance_fifos (c : Controller) :
    (c.advance S q).txFifo.length ≤ c.txFifo.length ∧
      c.rxFifo.length ≤ (c.advance S q).rxFifo.length :=
  advance_induction
    (fun e => e.txFifo.length ≤ c.txFifo.length ∧ c.rxFifo.length ≤ e.rxFifo.length)
    (fun _ _ h => h)
    (fun e h => ⟨(tick_fifos e).1.trans h.1, h.2.trans (tick_fifos e).2⟩) ⟨le_rfl, le_rfl⟩

/-- INTERNAL: a stored word is queued, or discarded after a refusal. -/
theorem push_ctlInv (w : Word) (h : CtlInv L r c) (hroom : c.txFifo.length < fifoDepth) :
    CtlInv (L ++ [w]) r (c.push w) := by
  unfold Controller.push
  by_cases hr : c.refused = true
  · obtain ⟨h1, h2, h3, h4⟩ := h.cut hr
    rw [if_pos (h.held.trans hr)]
    refine ⟨h.held, fun hf => ?_, fun _ => ⟨h1.trans (List.prefix_append _ _), ?_, h3, h4⟩,
      h.acked, h.delivered, h.received, h.needAddr, h.addressed⟩
    · cases hf.symm.trans hr
    · simp only [List.length_append]
      omega
  · rw [Bool.not_eq_true] at hr
    rw [if_neg (by rw [h.held, hr]; decide), if_pos hroom]
    refine ⟨h.held, fun _ => ?_, fun hf => ?_, h.acked, h.delivered, h.received, h.needAddr,
      h.addressed⟩
    · have := h.queued hr
      simp only [← this, List.append_assoc]
    · cases hr.symm.trans hf

/-- INTERNAL: a byte fetched from a receive FIFO that holds one was delivered. -/
theorem pop_ctlInv (h : CtlInv L r c) (hsome : 0 < c.rxFifo.length) :
    CtlInv L (r + 1) c.pop.2 := by
  unfold Controller.pop
  cases hfifo : c.rxFifo with
  | nil =>
    rw [hfifo] at hsome
    cases hsome
  | cons b bs =>
    have := h.received
    rw [hfifo, List.length_cons] at this
    exact ⟨h.held, h.queued, h.cut, h.acked, h.delivered, by simp only; omega, h.needAddr,
      h.addressed⟩

/-- The controller is in line with the log of the driver. -/
def BusInv (d : PicoI2C Controller) : Prop :=
  CtlInv d.log.cmds d.log.rstores.length d.hw

/-- INTERNAL: programming the controller brings it in line with the empty log.
SOURCE: i2c/PicoI2C.cpp:139-149 -/
theorem program_busInv (addr : Byte) (wbuffer : ℕ → Byte) (m n : ℕ) (d : PicoI2C Controller) :
    BusInv (program (Controller.hw S q) addr wbuffer m n d) := by
  apply advance_ctlInv
  apply advance_ctlInv
  exact reset_ctlInv _

/-- INTERNAL: every piece of work of the driver keeps the controller in line. -/
theorem step_busInv {d d' : PicoI2C Controller} (h : BusInv d)
    (hs : DriverStep (Controller.hw S q) d d') : BusInv d' := by
  have hadv : CtlInv d.log.cmds d.log.rstores.length (d.hw.advance S q) :=
    advance_ctlInv h
  have hfifo := advance_fifos (S := S) (q := q) (d.hw.advance S q)
  cases hs with
  | full => exact hadv
  | txPut _ hroom =>
    have hroom' : 0 < fifoDepth - (d.hw.advance S q).txFifo.length := hroom
    have hlt : ((d.hw.advance S q).advance S q).txFifo.length < fifoDepth := by
      omega
    exact push_ctlInv _ (advance_ctlInv hadv) hlt
  | rxPut _ _ hroom =>
    have hroom' : 0 < fifoDepth - (d.hw.advance S q).txFifo.length := hroom
    have hlt : ((d.hw.advance S q).advance S q).txFifo.length < fifoDepth := by
      omega
    exact push_ctlInv _ (advance_ctlInv hadv) hlt
  | empty => exact hadv
  | rxStore _ hsome =>
    have hsome' : 0 < (d.hw.advance S q).rxFifo.length := hsome
    have := pop_ctlInv (advance_ctlInv (S := S) (q := q) hadv) (by omega)
    simpa [BusInv, rxStore, Controller.hw] using this
  | status => exact hadv
  | queued => exact h
  | stop => exact (advance_ctlInv hadv).frame false _

/-- INTERNAL: the executed commands are the first ones of the sequence, and the bytes
acknowledged are the write words among them. -/
theorem executed_acked {wbuffer : ℕ → Byte} {m n : ℕ} {d : PicoI2C Controller}
    (hstream : StreamInv wbuffer m n d) (hbus : BusInv d) :
    d.hw.executed.length ≤ m + n ∧ d.hw.acked = min d.hw.executed.length m := by
  have hprefix : d.hw.executed <+: commandStream wbuffer m n := by
    refine List.IsPrefix.trans ?_ hstream.cmds_isPrefix
    by_cases hr : d.hw.refused = true
    · exact (hbus.cut hr).1
    · rw [Bool.not_eq_true] at hr
      rw [← hbus.queued hr, List.append_assoc]
      exact List.prefix_append _ _
  have hlen := hprefix.length_le
  rw [commandStream_length] at hlen
  refine ⟨hlen, ?_⟩
  rw [hbus.acked, List.prefix_iff_eq_take.mp hprefix, writeWords_take, List.length_take,
    commandStream_length]
  omega

/-- INTERNAL: a driver that has fetched all bytes of a transaction that reads has an
accepting slave, since the read commands come last.
SOURCE: i2c/PicoI2C.cpp:151-163 -/
theorem accepted_of_received {wbuffer : ℕ → Byte} {m n : ℕ} {d : PicoI2C Controller}
    (hn : 0 < n) (hstream : StreamInv wbuffer m n d) (hbus : BusInv d)
    (hall : d.log.rstores.length = n) : Accepted m n d.hw := by
  obtain ⟨hlen, hacked⟩ := executed_acked hstream hbus
  have hdel := hbus.delivered
  have hrec := hbus.received
  rw [hall] at hrec
  have hlast : d.hw.executed.length = m + n := by omega
  refine ⟨?_, ?_, by omega, by omega⟩
  · apply hbus.addressed
    intro hnil
    rw [hnil, List.length_nil] at hlast
    omega
  · by_contra hr
    rw [Bool.not_eq_false] at hr
    -- a refused transfer never executes the last of the `m + n` words
    have hcut := (hbus.cut hr).2.1
    have hcmds := hstream.cmds_isPrefix.length_le
    rw [commandStream_length] at hcmds
    omega

end PicoDrone.Analysis
