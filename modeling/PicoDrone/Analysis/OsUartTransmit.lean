import PicoDrone.Analysis.OsUartSteps

/-!
# The transmit stream of the UART driver

Two consumers take bytes out of the transmit queue, the initial fill of `write` and the
interrupt handler, and each of them holds a byte between taking and storing it. The bytes
stored, the byte in hand and the queue are, in this order, the bytes accepted by the calls
in the order they obtained the mutex (`transmit_stream`).
-/

set_option autoImplicit false

namespace PicoDrone.Analysis

open PicoDrone.Library PicoDrone.Model

variable {P : UartParams} {s s' : OsUart} {l : UartLabel}

/-- The interrupt is off in the interrupt controller while a call is at these places. -/
def WritePc.Masked : WritePc → Prop
  | .enqueue | .irqOff | .unlock => False
  | _ => True

/-- While a call manages the transmit interrupt, the handler neither runs nor starts. -/
def Masked (s : OsUart) : Prop :=
  ∀ c, s.holder = some c → WritePc.Masked c.pc → s.nvic = false ∧ s.handler = .idle

/-- INTERNAL: the window of `irq_set_enabled` shuts the handler out.
SOURCE: uart/PicoOsUart.cpp:85-100 -/
theorem step_masked_window (h : Masked s) (hs : UartStep P s l s') : Masked s' := by
  intro c' hc' hpc'
  cases hs with
  | lock =>
    obtain rfl := Option.some.inj hc'
    exact hpc'.elim
  | send c hc _ hpc =>
    obtain rfl := Option.some.inj hc'
    dsimp only at hpc'
    rw [hpc] at hpc'
    exact hpc'.elim
  | timeout c | enqueued c =>
    obtain rfl := Option.some.inj hc'
    exact hpc'.elim
  | irqOff c _ hidle => exact ⟨rfl, hidle⟩
  | irqOn c =>
    obtain rfl := Option.some.inj hc'
    exact hpc'.elim
  | unlock => cases hc'
  | interrupt _ hnvic =>
    rw [(h c' hc' hpc').1] at hnvic
    cases hnvic
  | enabled c hc _ hpc | disabled c hc _ hpc | writable c hc _ hpc | full c hc _ hpc
  | nothing c hc _ hpc | receive c ch tx hc _ hpc | store c ch hc _ hpc | left c hc _ hpc
  | gone c hc _ hpc | enableIm c hc _ hpc =>
    exact h c hc (by rw [hpc]; trivial)
  | rxDone hpc | rxMore _ _ hpc | isrWritable hpc | isrFull hpc | isrNothing hpc
  | isrReceive _ _ hpc | isrStore _ hpc | isrEmpty hpc | isrLeft hpc | isrDisable hpc =>
    -- the handler runs, so no call is in its window
    rw [(h c' hc' hpc').2] at hpc
    cases hpc
  | rxByte | drain => exact h c' hc' hpc'

/-! ## The stream -/

/-- The byte a call has taken and not yet stored. -/
def WritePc.hand : WritePc → List Byte
  | .store ch => [ch]
  | _ => []

/-- The byte the handler has taken and not yet stored. -/
def HandlerPc.hand : HandlerPc → List Byte
  | .store ch => [ch]
  | _ => []

/-- The byte that was taken out of the queue and not yet stored to `dr`, if there is one. -/
def inHand (s : OsUart) : List Byte :=
  (s.holder.elim [] fun c => WritePc.hand c.pc) ++ HandlerPc.hand s.handler

/-- The bytes accepted by the calls, in the order they obtained the mutex. -/
def acceptedBytes (s : OsUart) : List Byte :=
  s.done.flatMap WriteCall.accepted ++ s.holder.elim [] WriteCall.accepted

/-- Every byte accepted is stored, in hand or queued, in the order of the calls. -/
structure TxStream (s : OsUart) : Prop where
  masked : Masked s
  stream : s.dr ++ inHand s ++ s.tx = acceptedBytes s

theorem accepted_succ (c : WriteCall) :
    WriteCall.accepted { c with count := c.count + 1 } =
      WriteCall.accepted c ++ [c.buffer c.count] := by
  simp [WriteCall.accepted, List.range_succ]

/-- INTERNAL: a call that goes to another place with nothing in its hand, from a place with
nothing in its hand, leaves the stream as it is. -/
theorem stream_goto {c : WriteCall} {pc : WritePc} (hc : s.holder = some c)
    (hold : WritePc.hand c.pc = []) (hnew : WritePc.hand pc = [])
    (hstream : s.dr ++ inHand s ++ s.tx = acceptedBytes s) :
    (s.goto c pc).dr ++ inHand (s.goto c pc) ++ (s.goto c pc).tx =
      acceptedBytes (s.goto c pc) := by
  unfold inHand acceptedBytes at hstream ⊢
  rw [hc] at hstream
  simp only [Option.elim_some, hold] at hstream
  simp only [OsUart.goto, Option.elim_some, hnew]
  exact hstream

/-- INTERNAL: while the handler runs, no call has a byte in its hand. -/
theorem call_hand_nil (h : Masked s) (hrun : s.handler ≠ .idle) :
    (s.holder.elim [] fun c => WritePc.hand c.pc) = [] := by
  cases hc : s.holder with
  | none => rfl
  | some c =>
    cases hpc : c.pc with
    | store ch =>
      have hidle := (h c hc (by rw [hpc]; trivial)).2
      exact absurd hidle hrun
    | _ =>
      simp only [Option.elim_some, hpc]
      rfl

/-- INTERNAL: every step keeps the stream. -/
theorem step_txStream (h : TxStream s) (hs : UartStep P s l s') : TxStream s' := by
  refine ⟨step_masked_window h.masked hs, ?_⟩
  have hstream := h.stream
  cases hs with
  | lock task buffer size _ hfree =>
    unfold inHand acceptedBytes at hstream ⊢
    rw [hfree] at hstream
    simpa [WriteCall.accepted, WritePc.hand] using hstream
  | send c hc =>
    unfold inHand acceptedBytes at hstream ⊢
    rw [hc] at hstream
    simp only [Option.elim_some] at hstream ⊢
    rw [accepted_succ, ← List.append_assoc (s.done.flatMap _), ← hstream]
    simp only [List.append_assoc]
  | timeout c hc _ hpc | enqueued c hc _ hpc | irqOff c hc _ hpc | enabled c hc _ hpc
  | disabled c hc _ hpc | writable c hc _ hpc | full c hc _ hpc | nothing c hc _ hpc
  | left c hc _ hpc | gone c hc _ hpc | enableIm c hc _ hpc | irqOn c hc _ hpc =>
    exact stream_goto hc (by rw [hpc]; rfl) rfl hstream
  | receive c ch tx hc hidle hpc htx =>
    unfold inHand acceptedBytes at hstream ⊢
    rw [hc, hidle, htx] at hstream
    simp only [Option.elim_some, hpc, WritePc.hand, HandlerPc.hand] at hstream
    simpa [OsUart.goto, hidle, WritePc.hand, HandlerPc.hand, WriteCall.accepted] using hstream
  | store c ch hc hidle hpc =>
    unfold inHand acceptedBytes at hstream ⊢
    rw [hc, hidle] at hstream
    simp only [Option.elim_some, hpc, WritePc.hand, HandlerPc.hand] at hstream
    simpa [OsUart.goto, OsUart.storeDr, hidle, WritePc.hand, HandlerPc.hand,
      WriteCall.accepted] using hstream
  | unlock c hc hidle hpc =>
    unfold inHand acceptedBytes at hstream ⊢
    rw [hc, hidle] at hstream
    simp only [Option.elim_some, hpc, WritePc.hand, HandlerPc.hand] at hstream
    simpa [hidle, HandlerPc.hand] using hstream
  | interrupt hpc | rxDone hpc | rxMore _ _ hpc | isrWritable hpc | isrFull hpc | isrNothing hpc
  | isrEmpty hpc | isrLeft hpc | isrDisable hpc =>
    unfold inHand acceptedBytes at hstream ⊢
    rw [hpc] at hstream
    exact hstream
  | isrReceive ch tx hpc htx =>
    unfold inHand acceptedBytes at hstream ⊢
    rw [hpc, htx] at hstream
    simpa [HandlerPc.hand] using hstream
  | isrStore ch hpc =>
    have hnone := call_hand_nil h.masked (by rw [hpc]; simp)
    unfold inHand acceptedBytes at hstream ⊢
    rw [hnone, hpc] at hstream
    simp only [OsUart.storeDr, hnone]
    simpa [HandlerPc.hand] using hstream
  | rxByte | drain => exact hstream

/-- CONTRACT: in every reachable state, the bytes stored to `dr`, the byte that a consumer has
taken and not yet stored, if any, and the bytes in the queue are the first `count` bytes of
the calls in the order they obtained the mutex.
SOURCE: uart/PicoOsUart.cpp:75-147 -/
theorem transmit_stream (P : UartParams) (ls : List UartLabel) (s : OsUart)
    (hrun : (OsUart.machine P).run OsUart.construct ls = some s) :
    s.dr ++ inHand s ++ s.tx = acceptedBytes s ∧ (inHand s).length ≤ 1 := by
  have h : TxStream s := (OsUart.machine P).run_invariant TxStream
    (fun _ _ _ h hs => step_txStream h (uartStep_of_step hs))
    ⟨fun c hc => (by cases hc), rfl⟩ hrun
  refine ⟨h.stream, ?_⟩
  have hcall : ∀ pc, (WritePc.hand pc).length ≤ 1 := by
    intro pc
    cases pc <;> simp [WritePc.hand]
  have hhandler : ∀ pc, (HandlerPc.hand pc).length ≤ 1 := by
    intro pc
    cases pc <;> simp [HandlerPc.hand]
  unfold inHand
  by_cases hidle : s.handler = .idle
  · rw [hidle, show HandlerPc.hand .idle = [] from rfl, List.append_nil]
    cases s.holder with
    | none => simp
    | some c => exact hcall c.pc
  · rw [call_hand_nil h.masked hidle, List.nil_append]
    exact hhandler s.handler

/-- A UART with a FIFO of 32 bytes and its lowest trigger level, and queues of 256 bytes. -/
def uartParams : UartParams := ⟨256, 256, 32, 4, by decide⟩

/-- Two bytes enqueued; the first one is stored, the second one in the hand of the call. -/
theorem transmit_stream_fill :
    ∃ s, (OsUart.machine uartParams).run OsUart.construct
        [.lock 0 (fun i => BitVec.ofNat 8 i) 2, .send, .send, .write, .write, .write, .write,
          .write, .write, .write, .write] = some s ∧
      s.dr ++ inHand s ++ s.tx = [0#8, 1#8] ∧ acceptedBytes s = [0#8, 1#8] := by
  refine ⟨_, rfl, ?_, rfl⟩
  exact (transmit_stream uartParams
    [.lock 0 (fun i => BitVec.ofNat 8 i) 2, .send, .send, .write, .write, .write, .write,
      .write, .write, .write, .write] _ rfl).1

/-- A byte in the hand of the initial fill is neither stored nor queued. -/
theorem byte_in_hand :
    ∃ s, (OsUart.machine uartParams).run OsUart.construct
        [.lock 0 (fun _ => 0x41#8) 1, .send, .write, .write, .write, .write, .write] = some s ∧
      s.dr ++ s.tx ≠ acceptedBytes s :=
  ⟨_, rfl, by decide⟩

end PicoDrone.Analysis
