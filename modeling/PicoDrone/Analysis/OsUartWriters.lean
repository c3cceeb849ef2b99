import PicoDrone.Analysis.OsUartArmed

/-!
# Writers that wait for room

A writer that waits for room in the queue has an enabled interrupt as long as its bytes would
have fitted into an empty queue (`Fits`). A longer write fills the queue of an idle UART before
it enables the interrupt, and waits for nobody (`run_fillQueue`). So writers have somebody to
wait for exactly if no write is larger than the queue (`writer_has_drain_iff`).
-/

set_option autoImplicit false

namespace PicoDrone.Analysis

open PicoDrone.Library PicoDrone.Model

variable {P : UartParams} {s s' : OsUart} {l : UartLabel}

/-! ## Writes that fit -/

/-- A call of `write` waits in `xQueueSendToBack` for room in the queue. -/
def WaitsForRoom (P : UartParams) (s : OsUart) (c : WriteCall) : Prop :=
  s.holder = some c ∧ c.pc = .enqueue ∧ c.count < c.size ∧ P.txSize ≤ s.tx.length

/-- A UART that keeps transmitting: before `xQueueSendToBack` gives up, the FIFO has fallen to
its trigger level and an enabled interrupt has been served. -/
def KeepsTransmitting (P : UartParams) (s : OsUart) : UartLabel → Prop
  | .timeout => s.level ≤ P.trigger ∧ ¬ (s.txim = true ∧ s.txris = true)
  | _ => True

/-- The write is one of the allowed sizes. -/
def UartLabel.SizeIn (A : ℤ → Prop) : UartLabel → Prop
  | .lock _ _ size => A size
  | _ => True

/-- The call has left its enqueue loop, so its return value is fixed. -/
def PastLoop (s : OsUart) (c : WriteCall) : Prop :=
  c ∈ s.done ∨ s.holder = some c ∧ c.pc ≠ .enqueue

/-- The bytes a call has still to enqueue fit into the queue, or the interrupt is enabled. -/
structure Fits (P : UartParams) (s : OsUart) : Prop where
  armed : Armed P s
  size_le : ∀ c, s.holder = some c → c.size ≤ P.txSize
  room : ∀ c, s.holder = some c → c.pc = .enqueue →
    s.txim = true ∨ s.tx.length + (c.size - c.count) ≤ P.txSize

/-- INTERNAL: a call that obtains the mutex finds the queue empty or the interrupt enabled. -/
theorem lock_room (h : Armed P s) (hfree : s.holder = none) {size : ℤ} (hsize : size ≤ P.txSize) :
    s.txim = true ∨ s.tx.length + (size - (0 : ℕ)) ≤ P.txSize := by
  by_cases htx : s.tx = []
  · right
    simpa [htx] using hsize
  · left
    apply h.txim_of_quiet htx
    intro c hc
    rw [hfree] at hc
    cases hc

/-- INTERNAL: a write that fits into the empty queue keeps fitting until it is enqueued. -/
theorem step_fits (h : Fits P s) (hs : UartStep P s l s')
    (hl : UartLabel.SizeIn (fun n => n ≤ P.txSize) l) : Fits P s' := by
  refine ⟨step_armed_inv h.armed hs, ?_, ?_⟩
  · intro c' hc'
    cases hs with
    | lock =>
      obtain rfl := Option.some.inj hc'
      exact hl
    | unlock => cases hc'
    | send c hc | timeout c hc | enqueued c hc | irqOff c hc | enabled c hc | disabled c hc
    | writable c hc | full c hc | nothing c hc | receive c _ _ hc | store c _ hc | left c hc
    | gone c hc | enableIm c hc | irqOn c hc =>
      obtain rfl := Option.some.inj hc'
      exact h.size_le c hc
    | _ => exact h.size_le c' hc'
  · intro c' hc' hpc'
    cases hs with
    | lock _ _ _ _ hfree =>
      obtain rfl := Option.some.inj hc'
      exact lock_room h.armed hfree hl
    | send c hc _ hpc =>
      obtain rfl := Option.some.inj hc'
      obtain him | hroom := h.room c hc hpc
      · exact Or.inl him
      · right
        simp only [List.length_append, List.length_singleton]
        omega
    | timeout | enqueued | irqOff | enabled | disabled | writable | full | nothing | receive
    | store | left | gone | enableIm | irqOn =>
      obtain rfl := Option.some.inj hc'
      cases hpc'
    | unlock => cases hc'
    | isrReceive ch tx _ htx =>
      obtain him | hroom := h.room c' hc' hpc'
      · exact Or.inl him
      · right
        rw [htx, List.length_cons] at hroom
        simp only
        omega
    | isrDisable hpc =>
      -- the queue is empty when the handler disables the interrupt
      right
      have hsize := h.size_le c' hc'
      simp only [h.armed.emptied hpc, List.length_nil]
      omega
    | interrupt | rxDone | rxMore | isrWritable | isrFull | isrNothing | isrStore | isrEmpty
    | isrLeft | rxByte | drain => exact h.room c' hc' hpc'

/-- INTERNAL: a writer that waits has an enabled interrupt. -/
theorem Fits.txim_of_waiting (h : Fits P s) {c : WriteCall} (hw : WaitsForRoom P s c) :
    s.txim = true := by
  obtain ⟨hc, hpc, hlt, hfull⟩ := hw
  obtain him | hroom := h.room c hc hpc
  · exact him
  · omega

/-- INTERNAL: no call gives up on a UART that keeps transmitting. -/
theorem no_timeout (h : Fits P s) {c : WriteCall} (hw : WaitsForRoom P s c)
    (hk : KeepsTransmitting P s .timeout) : False := by
  obtain ⟨hlevel, hserved⟩ := hk
  have him := h.txim_of_waiting hw
  obtain habove | hris := h.armed.raised him
  · omega
  · exact hserved ⟨him, hris⟩

/-- The calls that have left their loop have enqueued all their bytes. -/
structure AllAccepted (P : UartParams) (s : OsUart) : Prop where
  fits : Fits P s
  done : ∀ c ∈ s.done, c.count = c.size.toNat
  holder : ∀ c, s.holder = some c →
    c.count ≤ c.size.toNat ∧ (c.pc ≠ .enqueue → c.count = c.size.toNat)

/-- INTERNAL: a call leaves its loop with all its bytes enqueued. -/
theorem step_holder_complete (h : AllAccepted P s) (hs : UartStep P s l s')
    (hk : KeepsTransmitting P s l) : ∀ c, s'.holder = some c →
      c.count ≤ c.size.toNat ∧ (c.pc ≠ .enqueue → c.count = c.size.toNat) := by
  intro c' hc'
  cases hs with
  | lock =>
    obtain rfl := Option.some.inj hc'
    exact ⟨Nat.zero_le _, fun hpc => absurd rfl hpc⟩
  | send c hc _ hpc hlt =>
    obtain rfl := Option.some.inj hc'
    refine ⟨?_, fun hne => absurd hpc hne⟩
    simp only
    omega
  | timeout c hc _ hpc hlt hfull => exact (no_timeout h.fits ⟨hc, hpc, hlt, hfull⟩ hk).elim
  | enqueued c hc _ _ hle =>
    obtain rfl := Option.some.inj hc'
    obtain ⟨hcount, -⟩ := h.holder c hc
    simp only
    omega
  | irqOff c hc _ hpc | enabled c hc _ hpc | disabled c hc _ hpc | writable c hc _ hpc
  | full c hc _ hpc | nothing c hc _ hpc | receive c _ _ hc _ hpc | store c _ hc _ hpc
  | left c hc _ hpc | gone c hc _ hpc | enableIm c hc _ hpc | irqOn c hc _ hpc =>
    obtain rfl := Option.some.inj hc'
    have hall : c.count = c.size.toNat := (h.holder c hc).2 (by rw [hpc]; simp)
    exact ⟨le_of_eq hall, fun _ => hall⟩
  | unlock => cases hc'
  | interrupt | rxDone | rxMore | isrWritable | isrFull | isrNothing | isrReceive | isrStore
  | isrEmpty | isrLeft | isrDisable | rxByte | drain => exact h.holder c' hc'

/-- INTERNAL: every step of a UART that keeps transmitting keeps the invariant. -/
theorem step_complete (h : AllAccepted P s) (hs : UartStep P s l s')
    (hl : UartLabel.SizeIn (fun n => n ≤ P.txSize) l) (hk : KeepsTransmitting P s l) :
    AllAccepted P s' := by
  refine ⟨step_fits h.fits hs hl, ?_, step_holder_complete h hs hk⟩
  intro c' hc'
  cases hs with
  | unlock c hc _ hpc =>
    obtain hold | hnew := List.mem_append.mp hc'
    · exact h.done c' hold
    · rw [List.mem_singleton.mp hnew]
      exact (h.holder c hc).2 (by rw [hpc]; simp)
  | _ => exact h.done c' hc'

/-! ## Writes that do not fit -/

/-- A call of `write` on an idle UART after its first `n` bytes. -/
def filling (buffer : ℕ → Byte) (size : ℤ) (n : ℕ) : OsUart :=
  { OsUart.construct with
    tx := (List.range n).map buffer
    holder := some ⟨0, buffer, size, n, .enqueue⟩ }

/-- INTERNAL: a call that holds the mutex of an idle UART enqueues bytes while there is room. -/
theorem run_send {buffer : ℕ → Byte} {size : ℤ} (k n : ℕ) (hsize : (n + k : ℕ) ≤ size)
    (hroom : n + k ≤ P.txSize) :
    (OsUart.machine P).run (filling buffer size n) (List.replicate k .send) =
      some (filling buffer size (n + k)) := by
  induction k generalizing n with
  | zero => rfl
  | succ k ih =>
    rw [List.replicate_succ, Machine.run_cons_eq_some]
    have hlt : (n : ℤ) < size := by omega
    have hlen : ((List.range n).map buffer).length < P.txSize := by
      rw [List.length_map, List.length_range]
      omega
    refine ⟨filling buffer size (n + 1), ?_, ?_⟩
    · simp only [OsUart.machine, OsUart.step, filling]
      rw [if_pos ⟨rfl, trivial, hlt, hlen⟩, List.range_succ, List.map_append]
      rfl
    · rw [ih (n + 1) (by omega) (by omega)]
      congr 2
      omega

/-- The steps of a writer that fills the queue of an idle UART. -/
def fillQueue (P : UartParams) (size : ℤ) : List UartLabel :=
  .lock 0 (fun _ => 0) size :: List.replicate P.txSize .send

/-- INTERNAL: a write that is larger than the queue fills it and waits, with the interrupt
disabled.
SOURCE: uart/PicoOsUart.cpp:79-82 -/
theorem run_fillQueue {size : ℤ} (hsize : P.txSize < size) :
    (OsUart.machine P).run OsUart.construct (fillQueue P size) =
      some (filling (fun _ => 0) size P.txSize) := by
  refine (Machine.run_cons_eq_some _).mpr ⟨filling (fun _ => 0) size 0, rfl, ?_⟩
  rw [run_send P.txSize 0 (by omega) (by omega), Nat.zero_add]

theorem waiting_filling {size : ℤ} (hsize : P.txSize < size) :
    WaitsForRoom P (filling (fun _ => 0) size P.txSize)
      ⟨0, fun _ => 0, size, P.txSize, .enqueue⟩ := by
  refine ⟨rfl, rfl, hsize, ?_⟩
  simp [filling]

/-- INTERNAL: the writer gives up, also on a UART that keeps transmitting. -/
theorem run_giveUp {size : ℤ} (hsize : P.txSize < size) :
    (OsUart.machine P).run OsUart.construct (fillQueue P size ++ [.timeout]) =
        some ((filling (fun _ => 0) size P.txSize).goto
          ⟨0, fun _ => 0, size, P.txSize, .enqueue⟩ .irqOff) ∧
      (OsUart.machine P).Along (KeepsTransmitting P) OsUart.construct
        (fillQueue P size ++ [.timeout]) := by
  obtain ⟨-, -, hlt, hfull⟩ := waiting_filling hsize
  constructor
  · apply Machine.run_append _ (run_fillQueue hsize)
    refine (Machine.run_cons_eq_some _).mpr ⟨_, ?_, rfl⟩
    simp only [OsUart.machine, OsUart.step, filling]
    exact if_pos ⟨rfl, trivial, hlt, Nat.not_lt.mpr hfull⟩
  · refine Machine.along_append _ (Machine.along_of_forall _ ?_) (run_fillQueue hsize) ?_
    · intro l hl t
      obtain rfl | hsend := List.mem_cons.mp hl
      · trivial
      · obtain rfl := List.eq_of_mem_replicate hsend
        trivial
    · exact ⟨⟨Nat.zero_le _, fun h => by cases h.1⟩, fun _ _ => trivial⟩

theorem sizeIn_fillQueue {A : ℤ → Prop} {size : ℤ} (hA : A size) :
    ∀ l ∈ fillQueue P size, UartLabel.SizeIn A l := by
  intro l hl
  obtain rfl | hsend := List.mem_cons.mp hl
  · exact hA
  · obtain rfl := List.eq_of_mem_replicate hsend
    trivial

/-- INTERNAL: writes that fit into the empty queue. -/
theorem along_sizeIn {A : ℤ → Prop} {ls : List UartLabel} (hA : ∀ n, A n → n ≤ P.txSize)
    (hls : ∀ l ∈ ls, UartLabel.SizeIn A l) :
    (OsUart.machine P).Along (fun _ l => UartLabel.SizeIn (fun n => n ≤ P.txSize) l)
      OsUart.construct ls := by
  apply Machine.along_of_forall
  intro l hl _
  have hsize := hls l hl
  cases l with
  | lock _ _ size => exact hA size hsize
  | _ => trivial

theorem fits_construct : Fits P OsUart.construct where
  armed := armed_construct
  size_le := fun _ hc => by cases hc
  room := fun _ hc => by cases hc

/-- INTERNAL: in every reachable state the waiting writers have an enabled interrupt, if all
writes fit into the queue. -/
theorem waiting_enabled_iff (P : UartParams) (A : ℤ → Prop) :
    (∀ ls s, (∀ l ∈ ls, UartLabel.SizeIn A l) →
      (OsUart.machine P).run OsUart.construct ls = some s →
      ∀ c, WaitsForRoom P s c → s.txim = true) ↔ ∀ n, A n → n ≤ P.txSize := by
  constructor
  · intro h n hn
    by_contra hlarge
    have hsize : P.txSize < n := by omega
    have him := h (fillQueue P n) _ (sizeIn_fillQueue hn) (run_fillQueue hsize) _
      (waiting_filling hsize)
    cases him
  · intro hA ls s hls hrun c hw
    have h : Fits P s := (OsUart.machine P).run_invariant_along (Fits P) _
      (fun _ _ _ h hl hs => step_fits h (uartStep_of_step hs) hl) fits_construct
      (along_sizeIn hA hls) hrun
    exact h.txim_of_waiting hw

/-- INTERNAL: on a UART that keeps transmitting the calls accept all their bytes, if all
writes fit into the queue. -/
theorem left_complete_iff (P : UartParams) (A : ℤ → Prop) :
    (∀ ls s, (∀ l ∈ ls, UartLabel.SizeIn A l) →
      (OsUart.machine P).Along (KeepsTransmitting P) OsUart.construct ls →
      (OsUart.machine P).run OsUart.construct ls = some s →
      ∀ c, PastLoop s c → c.count = c.size.toNat) ↔ ∀ n, A n → n ≤ P.txSize := by
  constructor
  · intro h n hn
    by_contra hlarge
    have hsize : P.txSize < n := by omega
    obtain ⟨hrun, hk⟩ := run_giveUp hsize
    have hls : ∀ l ∈ fillQueue P n ++ [.timeout], UartLabel.SizeIn A l := by
      intro l hl
      obtain hfill | hgive := List.mem_append.mp hl
      · exact sizeIn_fillQueue hn l hfill
      · rw [List.mem_singleton.mp hgive]
        trivial
    have hcount : P.txSize = n.toNat := h _ _ hls hk hrun _ (Or.inr ⟨rfl, by simp⟩)
    omega
  · intro hA ls s hls hk hrun c hleft
    have h : AllAccepted P s := (OsUart.machine P).run_invariant_along (AllAccepted P) _
      (fun _ _ _ h hl hs => step_complete h (uartStep_of_step hs) hl.1 hl.2)
      ⟨fits_construct, fun _ hc => (by cases hc), fun _ hc => (by cases hc)⟩
      ((along_sizeIn hA hls).and hk) hrun
    obtain hdone | ⟨hc, hpc⟩ := hleft
    · exact h.done c hdone
    · exact (h.holder c hc).2 hpc

/-- CONTRACT: with writes of the sizes in `A`, a writer that waits for room in the queue has an
enabled interrupt in every reachable state exactly if every size in `A` is at most the size of
the queue; and exactly then do all writes accept all their bytes on a UART that keeps
transmitting.
SOURCE: uart/PicoOsUart.cpp:75-103 -/
theorem writer_has_drain_iff (P : UartParams) (A : ℤ → Prop) :
    ((∀ ls s, (∀ l ∈ ls, UartLabel.SizeIn A l) →
        (OsUart.machine P).run OsUart.construct ls = some s →
        ∀ c, WaitsForRoom P s c → s.txim = true) ↔ ∀ n, A n → n ≤ P.txSize) ∧
      ((∀ ls s, (∀ l ∈ ls, UartLabel.SizeIn A l) →
        (OsUart.machine P).Along (KeepsTransmitting P) OsUart.construct ls →
        (OsUart.machine P).run OsUart.construct ls = some s →
        ∀ c, PastLoop s c → c.count = c.size.toNat) ↔ ∀ n, A n → n ≤ P.txSize) :=
  ⟨waiting_enabled_iff P A, left_complete_iff P A⟩

/-- A write of 257 bytes to the queue of 256 bytes waits with the interrupt disabled. -/
theorem oversized_write_waits :
    ∃ s c, (OsUart.machine uartParams).run OsUart.construct (fillQueue uartParams 257) = some s ∧
      WaitsForRoom uartParams s c ∧ s.txim = false :=
  ⟨_, _, run_fillQueue (by decide), waiting_filling (by decide), rfl⟩

end PicoDrone.Analysis
