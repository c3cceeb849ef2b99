import PicoDrone.Model.OsUart

/-!
# The steps of the UART driver

`UartStep` lists what a step of the system can do, with the conditions it is taken under.
The invariants of the transmit side are proved by cases on it.
-/

set_option autoImplicit false

namespace PicoDrone.Analysis

open PicoDrone.Library PicoDrone.Model

/-- What each label does. -/
inductive UartStep (P : UartParams) (s : OsUart) : UartLabel → OsUart → Prop
  | lock (task : ℕ) (buffer : ℕ → Byte) (size : ℤ) (hidle : s.handler = .idle)
      (hfree : s.holder = none) :
      UartStep P s (.lock task buffer size)
        { s with holder := some ⟨task, buffer, size, 0, .enqueue⟩ }
  | send (c : WriteCall) (hc : s.holder = some c) (hidle : s.handler = .idle)
      (hpc : c.pc = .enqueue) (hlt : c.count < c.size) (hroom : s.tx.length < P.txSize) :
      UartStep P s .send { s with
        tx := s.tx ++ [c.buffer c.count]
        holder := some { c with count := c.count + 1 } }
  | timeout (c : WriteCall) (hc : s.holder = some c) (hidle : s.handler = .idle)
      (hpc : c.pc = .enqueue) (hlt : c.count < c.size) (hfull : P.txSize ≤ s.tx.length) :
      UartStep P s .timeout (s.goto c .irqOff)
  | enqueued (c : WriteCall) (hc : s.holder = some c) (hidle : s.handler = .idle)
      (hpc : c.pc = .enqueue) (hle : c.size ≤ c.count) :
      UartStep P s .write (s.goto c .irqOff)
  | irqOff (c : WriteCall) (hc : s.holder = some c) (hidle : s.handler = .idle)
      (hpc : c.pc = .irqOff) :
      UartStep P s .write ({ s with nvic := false }.goto c .testIm)
  | enabled (c : WriteCall) (hc : s.holder = some c) (hidle : s.handler = .idle)
      (hpc : c.pc = .testIm) (him : s.txim = true) :
      UartStep P s .write (s.goto c .irqOn)
  | disabled (c : WriteCall) (hc : s.holder = some c) (hidle : s.handler = .idle)
      (hpc : c.pc = .testIm) (him : s.txim = false) :
      UartStep P s .write (s.goto c .writable)
  | writable (c : WriteCall) (hc : s.holder = some c) (hidle : s.handler = .idle)
      (hpc : c.pc = .writable) (hroom : s.level < P.depth) :
      UartStep P s .write (s.goto c .receive)
  | full (c : WriteCall) (hc : s.holder = some c) (hidle : s.handler = .idle)
      (hpc : c.pc = .writable) (hfull : P.depth ≤ s.level) :
      UartStep P s .write (s.goto c .waiting)
  | nothing (c : WriteCall) (hc : s.holder = some c) (hidle : s.handler = .idle)
      (hpc : c.pc = .receive) (htx : s.tx = []) :
      UartStep P s .write (s.goto c .waiting)
  | receive (c : WriteCall) (ch : Byte) (tx : List Byte) (hc : s.holder = some c)
      (hidle : s.handler = .idle) (hpc : c.pc = .receive) (htx : s.tx = ch :: tx) :
      UartStep P s .write ({ s with tx := tx }.goto c (.store ch))
  | store (c : WriteCall) (ch : Byte) (hc : s.holder = some c) (hidle : s.handler = .idle)
      (hpc : c.pc = .store ch) :
      UartStep P s .write ((s.storeDr P ch).goto c .writable)
  | left (c : WriteCall) (hc : s.holder = some c) (hidle : s.handler = .idle)
      (hpc : c.pc = .waiting) (htx : s.tx ≠ []) :
      UartStep P s .write (s.goto c .enableIm)
  | gone (c : WriteCall) (hc : s.holder = some c) (hidle : s.handler = .idle)
      (hpc : c.pc = .waiting) (htx : s.tx = []) :
      UartStep P s .write (s.goto c .irqOn)
  | enableIm (c : WriteCall) (hc : s.holder = some c) (hidle : s.handler = .idle)
      (hpc : c.pc = .enableIm) :
      UartStep P s .write ({ s with txim := true }.goto c .irqOn)
  | irqOn (c : WriteCall) (hc : s.holder = some c) (hidle : s.handler = .idle)
      (hpc : c.pc = .irqOn) :
      UartStep P s .write ({ s with nvic := true }.goto c .unlock)
  | unlock (c : WriteCall) (hc : s.holder = some c) (hidle : s.handler = .idle)
      (hpc : c.pc = .unlock) :
      UartStep P s .write { s with holder := none, done := s.done ++ [c] }
  | interrupt (hidle : s.handler = .idle) (hnvic : s.nvic = true) :
      UartStep P s .interrupt { s with handler := .rx }
  | rxDone (hpc : s.handler = .rx) (hfifo : s.rxFifo = []) :
      UartStep P s .handler { s with handler := .writable }
  | rxMore (b : Byte) (rxFifo : List Byte) (hpc : s.handler = .rx)
      (hfifo : s.rxFifo = b :: rxFifo) :
      UartStep P s .handler { s with
        rxFifo := rxFifo
        rx := if s.rx.length < P.rxSize then s.rx ++ [b] else s.rx
        handler := .rx }
  | isrWritable (hpc : s.handler = .writable) (hroom : s.level < P.depth) :
      UartStep P s .handler { s with handler := .receive }
  | isrFull (hpc : s.handler = .writable) (hfull : P.depth ≤ s.level) :
      UartStep P s .handler { s with handler := .empty }
  | isrNothing (hpc : s.handler = .receive) (htx : s.tx = []) :
      UartStep P s .handler { s with handler := .empty }
  | isrReceive (ch : Byte) (tx : List Byte) (hpc : s.handler = .receive) (htx : s.tx = ch :: tx) :
      UartStep P s .handler { s with tx := tx, handler := .store ch }
  | isrStore (ch : Byte) (hpc : s.handler = .store ch) :
      UartStep P s .handler { s.storeDr P ch with handler := .writable }
  | isrEmpty (hpc : s.handler = .empty) (htx : s.tx = []) :
      UartStep P s .handler { s with handler := .disableIm }
  | isrLeft (hpc : s.handler = .empty) (htx : s.tx ≠ []) :
      UartStep P s .handler { s with handler := .idle }
  | isrDisable (hpc : s.handler = .disableIm) :
      UartStep P s .handler { s with txim := false, handler := .idle }
  | rxByte (b : Byte) : UartStep P s (.rxByte b) { s with rxFifo := s.rxFifo ++ [b] }
  | drain (hlevel : 0 < s.level) : UartStep P s .drain (s.drain P)

variable {P : UartParams} {s s' : OsUart}

/-- INTERNAL: the steps of `write` are the ones listed.
SOURCE: uart/PicoOsUart.cpp:75-103 -/
theorem uartStep_of_writeStep {c : WriteCall} (hc : s.holder = some c) (hidle : s.handler = .idle)
    (h : s.writeStep P c = some s') : UartStep P s .write s' := by
  unfold OsUart.writeStep at h
  cases hpc : c.pc with
  | enqueue =>
    simp only [hpc] at h
    split at h
    · cases h
    · rename_i hle
      obtain rfl := Option.some.inj h
      exact .enqueued c hc hidle hpc (by omega)
  | irqOff =>
    simp only [hpc] at h
    obtain rfl := Option.some.inj h
    exact .irqOff c hc hidle hpc
  | testIm =>
    simp only [hpc] at h
    obtain rfl := Option.some.inj h
    by_cases him : s.txim = true
    · rw [if_pos him]
      exact .enabled c hc hidle hpc him
    · rw [if_neg him]
      exact .disabled c hc hidle hpc (by simpa using him)
  | writable =>
    simp only [hpc] at h
    obtain rfl := Option.some.inj h
    by_cases hroom : s.level < P.depth
    · rw [if_pos hroom]
      exact .writable c hc hidle hpc hroom
    · rw [if_neg hroom]
      exact .full c hc hidle hpc (by omega)
  | receive =>
    simp only [hpc] at h
    split at h
    · rename_i htx
      obtain rfl := Option.some.inj h
      exact .nothing c hc hidle hpc htx
    · rename_i ch tx htx
      obtain rfl := Option.some.inj h
      exact .receive c ch tx hc hidle hpc htx
  | store ch =>
    simp only [hpc] at h
    obtain rfl := Option.some.inj h
    exact .store c ch hc hidle hpc
  | waiting =>
    simp only [hpc] at h
    obtain rfl := Option.some.inj h
    by_cases htx : 0 < s.tx.length
    · rw [if_pos htx]
      exact .left c hc hidle hpc (List.ne_nil_of_length_pos htx)
    · rw [if_neg htx]
      exact .gone c hc hidle hpc (List.length_eq_zero_iff.mp (by omega))
  | enableIm =>
    simp only [hpc] at h
    obtain rfl := Option.some.inj h
    exact .enableIm c hc hidle hpc
  | irqOn =>
    simp only [hpc] at h
    obtain rfl := Option.some.inj h
    exact .irqOn c hc hidle hpc
  | unlock =>
    simp only [hpc] at h
    obtain rfl := Option.some.inj h
    exact .unlock c hc hidle hpc

/-- INTERNAL: the steps of the handler are the ones listed.
SOURCE: uart/PicoOsUart.cpp:125-147 -/
theorem uartStep_of_handlerStep (h : s.handlerStep P = some s') : UartStep P s .handler s' := by
  unfold OsUart.handlerStep at h
  cases hpc : s.handler with
  | idle =>
    simp only [hpc] at h
    cases h
  | rx =>
    simp only [hpc] at h
    split at h
    · rename_i hfifo
      obtain rfl := Option.some.inj h
      exact .rxDone hpc hfifo
    · rename_i b rxFifo hfifo
      obtain rfl := Option.some.inj h
      exact .rxMore b rxFifo hpc hfifo
  | writable =>
    simp only [hpc] at h
    obtain rfl := Option.some.inj h
    by_cases hroom : s.level < P.depth
    · rw [if_pos hroom]
      exact .isrWritable hpc hroom
    · rw [if_neg hroom]
      exact .isrFull hpc (by omega)
  | receive =>
    simp only [hpc] at h
    split at h
    · rename_i htx
      obtain rfl := Option.some.inj h
      exact .isrNothing hpc htx
    · rename_i ch tx htx
      obtain rfl := Option.some.inj h
      exact .isrReceive ch tx hpc htx
  | store ch =>
    simp only [hpc] at h
    obtain rfl := Option.some.inj h
    exact .isrStore ch hpc
  | empty =>
    simp only [hpc] at h
    obtain rfl := Option.some.inj h
    by_cases htx : s.tx = []
    · rw [if_pos htx]
      exact .isrEmpty hpc htx
    · rw [if_neg htx]
      exact .isrLeft hpc htx
  | disableIm =>
    simp only [hpc] at h
    obtain rfl := Option.some.inj h
    exact .isrDisable hpc

/-- INTERNAL: the steps of the system are the ones listed. -/
theorem uartStep_of_step {l : UartLabel} (h : (OsUart.machine P).step s l = some s') :
    UartStep P s l s' := by
  cases l with
  | lock task buffer size =>
    simp only [OsUart.machine, OsUart.step, Option.ite_none_right_eq_some,
      Option.isNone_iff_eq_none, Option.some.injEq] at h
    obtain ⟨⟨hidle, hfree⟩, rfl⟩ := h
    exact .lock task buffer size hidle hfree
  | send =>
    simp only [OsUart.machine, OsUart.step] at h
    split at h
    · rename_i c hc
      simp only [Option.ite_none_right_eq_some, Option.some.injEq] at h
      obtain ⟨⟨hidle, hpc, hlt, hroom⟩, rfl⟩ := h
      exact .send c hc hidle hpc hlt hroom
    · cases h
  | timeout =>
    simp only [OsUart.machine, OsUart.step] at h
    split at h
    · rename_i c hc
      simp only [Option.ite_none_right_eq_some, Option.some.injEq] at h
      obtain ⟨⟨hidle, hpc, hlt, hfull⟩, rfl⟩ := h
      exact .timeout c hc hidle hpc hlt (by omega)
    · cases h
  | write =>
    simp only [OsUart.machine, OsUart.step] at h
    split at h
    · rename_i c hc
      simp only [Option.ite_none_right_eq_some] at h
      exact uartStep_of_writeStep hc h.1 h.2
    · cases h
  | interrupt =>
    simp only [OsUart.machine, OsUart.step, Option.ite_none_right_eq_some, Option.some.injEq] at h
    obtain ⟨⟨hidle, hnvic⟩, rfl⟩ := h
    exact .interrupt hidle hnvic
  | handler => exact uartStep_of_handlerStep h
  | rxByte b =>
    obtain rfl := Option.some.inj h
    exact .rxByte b
  | drain =>
    simp only [OsUart.machine, OsUart.step, Option.ite_none_right_eq_some, Option.some.injEq] at h
    obtain ⟨hlevel, rfl⟩ := h
    exact .drain hlevel

end PicoDrone.Analysis
