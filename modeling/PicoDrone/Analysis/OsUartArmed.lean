import PicoDrone.Analysis.OsUartTransmit

/-!
# The transmit interrupt of the UART driver

The transmit interrupt is enabled by `write` after it has filled the FIFO, and disabled by the
handler when it finds the queue empty. Between two writes, bytes in the queue always have an
enabled interrupt that is pending, or will be once the FIFO has drained to its trigger level
(`no_stranded_bytes`).
-/

set_option autoImplicit false

namespace PicoDrone.Analysis

open PicoDrone.Library PicoDrone.Model

variable {P : UartParams} {s s' : OsUart} {l : UartLabel}

/-! ## The interrupt of the UART -/

/-- The transmit interrupt is raised, or the level of the FIFO has yet to fall to the trigger
level. -/
def Raised (P : UartParams) (s : OsUart) : Prop := P.trigger < s.level ∨ s.txris = true

/-- INTERNAL: a store to `dr` takes the interrupt back only above the trigger level. -/
theorem raised_storeDr (ch : Byte) (h : Raised P s) : Raised P (s.storeDr P ch) := by
  unfold Raised OsUart.storeDr at *
  by_cases habove : P.trigger < if s.level < P.depth then s.level + 1 else s.level
  · exact Or.inl habove
  · right
    obtain hlevel | hris := h
    · split at habove <;> omega
    · simpa [habove] using hris

/-- INTERNAL: a FIFO that drains raises the interrupt on its way down. -/
theorem raised_drain (h : Raised P s) : Raised P (s.drain P) := by
  unfold Raised OsUart.drain at *
  by_cases hfalls : s.level = P.trigger + 1
  · right
    simp [hfalls]
  · obtain hlevel | hris := h
    · left
      simp only
      omega
    · right
      simp [hris]

/-! ## The invariant -/

/-- The places of `write` before the interrupt is known to be enabled if it has to be. -/
def WritePc.Arming : WritePc → Prop
  | .irqOn | .unlock => False
  | _ => True

/-- Bytes in the queue have an enabled interrupt or a call that will enable it, and an enabled
interrupt comes. -/
structure Armed (P : UartParams) (s : OsUart) : Prop where
  masked : Masked s
  raised : s.txim = true → Raised P s
  waiting : ∀ c, s.holder = some c → c.pc = .waiting → s.tx ≠ [] → Raised P s
  enabling : ∀ c, s.holder = some c → c.pc = .enableIm → Raised P s
  armed : s.tx ≠ [] → s.txim = true ∨ ∃ c, s.holder = some c ∧ 0 < c.count ∧ WritePc.Arming c.pc
  emptied : s.handler = .disableIm → s.tx = []

/-- INTERNAL: an enabled interrupt comes. -/
theorem step_raised (h : Armed P s) (hs : UartStep P s l s') (him : s'.txim = true) :
    Raised P s' := by
  cases hs with
  | enableIm c hc _ hpc => exact h.enabling c hc hpc
  | store c ch => exact raised_storeDr ch (h.raised him)
  | isrStore ch => exact raised_storeDr ch (h.raised him)
  | isrDisable => cases him
  | drain => exact raised_drain (h.raised him)
  | _ => exact h.raised him

/-- INTERNAL: the initial fill leaves bytes in the queue only if it has filled the FIFO.
SOURCE: uart/PicoOsUart.cpp:89-93 -/
theorem step_waiting (h : Armed P s) (hs : UartStep P s l s') :
    ∀ c, s'.holder = some c → c.pc = .waiting → s'.tx ≠ [] → Raised P s' := by
  intro c' hc' hpc' htx'
  cases hs with
  | full c _ _ _ hfull => exact Or.inl (lt_of_lt_of_le P.trigger_lt hfull)
  | nothing c _ _ _ htx => exact absurd htx htx'
  | send c hc _ hpc =>
    obtain rfl := Option.some.inj hc'
    rw [hpc] at hpc'
    cases hpc'
  | lock | timeout | enqueued | irqOff | enabled | disabled | writable | receive | store | left
  | gone | enableIm | irqOn =>
    obtain rfl := Option.some.inj hc'
    cases hpc'
  | unlock => cases hc'
  | isrReceive _ _ hpc | isrStore _ hpc =>
    rw [(h.masked c' hc' (by rw [hpc']; trivial)).2] at hpc
    cases hpc
  | drain => exact raised_drain (h.waiting c' hc' hpc' htx')
  | interrupt | rxDone | rxMore | isrWritable | isrFull | isrNothing | isrEmpty | isrLeft
  | isrDisable | rxByte => exact h.waiting c' hc' hpc' htx'

/-- INTERNAL: the interrupt is enabled only where it comes.
SOURCE: uart/PicoOsUart.cpp:94-98 -/
theorem step_enabling (h : Armed P s) (hs : UartStep P s l s') :
    ∀ c, s'.holder = some c → c.pc = .enableIm → Raised P s' := by
  intro c' hc' hpc'
  cases hs with
  | left c hc _ hpc htx => exact h.waiting c hc hpc htx
  | send c hc _ hpc =>
    obtain rfl := Option.some.inj hc'
    rw [hpc] at hpc'
    cases hpc'
  | lock | timeout | enqueued | irqOff | enabled | disabled | writable | full | nothing | receive
  | store | gone | enableIm | irqOn =>
    obtain rfl := Option.some.inj hc'
    cases hpc'
  | unlock => cases hc'
  | isrStore _ hpc =>
    rw [(h.masked c' hc' (by rw [hpc']; trivial)).2] at hpc
    cases hpc
  | drain => exact raised_drain (h.enabling c' hc' hpc')
  | interrupt | rxDone | rxMore | isrWritable | isrFull | isrNothing | isrReceive | isrEmpty
  | isrLeft | isrDisable | rxByte => exact h.enabling c' hc' hpc'

/-- INTERNAL: a call that goes to another place before the interrupt is enabled stays
responsible for the bytes in the queue. -/
theorem armed_goto {c : WriteCall} {pc : WritePc} (hc : s.holder = some c)
    (hpc : WritePc.Arming pc)
    (h : s.txim = true ∨ ∃ c, s.holder = some c ∧ 0 < c.count ∧ WritePc.Arming c.pc) :
    s.txim = true ∨
      ∃ c', (s.goto c pc).holder = some c' ∧ 0 < c'.count ∧ WritePc.Arming c'.pc := by
  obtain him | ⟨c₀, hc₀, hcount, -⟩ := h
  · exact Or.inl him
  · rw [hc] at hc₀
    obtain rfl := Option.some.inj hc₀
    exact Or.inr ⟨_, rfl, hcount, hpc⟩

/-- INTERNAL: bytes in the queue have an enabled interrupt or a call that will enable it. -/
theorem step_armed (h : Armed P s) (hs : UartStep P s l s') (htx : s'.tx ≠ []) :
    s'.txim = true ∨ ∃ c, s'.holder = some c ∧ 0 < c.count ∧ WritePc.Arming c.pc := by
  cases hs with
  | lock _ _ _ _ hfree =>
    obtain him | ⟨c, hc, -⟩ := h.armed htx
    · exact Or.inl him
    · rw [hfree] at hc
      cases hc
  | send c _ _ hpc => exact Or.inr ⟨_, rfl, Nat.succ_pos _, by rw [hpc]; trivial⟩
  | timeout c hc | enqueued c hc | disabled c hc | writable c hc | full c hc
  | nothing c hc | left c hc => exact armed_goto (s := s) hc trivial (h.armed htx)
  | irqOff c hc => exact armed_goto (s := { s with nvic := false }) hc trivial (h.armed htx)
  | store c ch hc => exact armed_goto (s := s.storeDr P ch) hc trivial (h.armed htx)
  | receive c ch tx hc _ _ htx₀ =>
    have hold := h.armed (by rw [htx₀]; exact List.cons_ne_nil ch tx)
    exact armed_goto (s := { s with tx := tx }) hc trivial hold
  | enabled c _ _ _ him => exact Or.inl him
  | gone c _ _ _ hnil => exact absurd hnil htx
  | enableIm => exact Or.inl rfl
  | irqOn c hc _ hpc | unlock c hc _ hpc =>
    obtain him | ⟨c₀, hc₀, -, harming⟩ := h.armed htx
    · exact Or.inl him
    · rw [hc] at hc₀
      obtain rfl := Option.some.inj hc₀
      rw [hpc] at harming
      exact harming.elim
  | isrReceive ch tx _ htx₀ => exact h.armed (by rw [htx₀]; exact List.cons_ne_nil ch tx)
  | isrDisable hpc => exact absurd (h.emptied hpc) htx
  | interrupt | rxDone | rxMore | isrWritable | isrFull | isrNothing | isrStore | isrEmpty
  | isrLeft | rxByte | drain => exact h.armed htx

/-- INTERNAL: the handler disables the interrupt only with the queue empty.
SOURCE: uart/PicoOsUart.cpp:142-145 -/
theorem step_emptied (h : Armed P s) (hs : UartStep P s l s') (hpc' : s'.handler = .disableIm) :
    s'.tx = [] := by
  cases hs with
  | isrEmpty _ htx => exact htx
  | interrupt | rxDone | rxMore | isrWritable | isrFull | isrNothing | isrReceive | isrStore
  | isrLeft | isrDisable => cases hpc'
  | rxByte | drain => exact h.emptied hpc'
  | lock _ _ _ hidle | send _ _ hidle | timeout _ _ hidle | enqueued _ _ hidle
  | irqOff _ _ hidle | enabled _ _ hidle | disabled _ _ hidle | writable _ _ hidle
  | full _ _ hidle | nothing _ _ hidle | receive _ _ _ _ hidle | store _ _ _ hidle
  | left _ _ hidle | gone _ _ hidle | enableIm _ _ hidle | irqOn _ _ hidle
  | unlock _ _ hidle =>
    -- a task takes no step while the handler runs
    have hrun : s.handler = .disableIm := hpc'
    rw [hidle] at hrun
    cases hrun

theorem step_armed_inv (h : Armed P s) (hs : UartStep P s l s') : Armed P s' where
  masked := step_masked_window h.masked hs
  raised := step_raised h hs
  waiting := step_waiting h hs
  enabling := step_enabling h hs
  armed := step_armed h hs
  emptied := step_emptied h hs

theorem armed_construct : Armed P OsUart.construct where
  masked := fun _ hc => by cases hc
  raised := fun him => by cases him
  waiting := fun _ hc => by cases hc
  enabling := fun _ hc => by cases hc
  armed := fun htx => absurd rfl htx
  emptied := fun _ => rfl

/-- INTERNAL: without a call that is still to enable the interrupt, bytes in the queue have an
enabled interrupt. -/
theorem Armed.txim_of_quiet (h : Armed P s) (htx : s.tx ≠ [])
    (hquiet : ∀ c, s.holder = some c → 0 < c.count → ¬ WritePc.Arming c.pc) : s.txim = true := by
  obtain him | ⟨c, hc, hcount, harming⟩ := h.armed htx
  · exact him
  · exact absurd harming (hquiet c hc hcount)

/-! ## No stranded bytes -/

/-- A call of `write` is between its first enqueue and its last `irq_set_enabled`. -/
def WriteCall.InProgress (c : WriteCall) : Prop := 0 < c.count ∧ c.pc ≠ .unlock

/-- CONTRACT: in every reachable state in which no call is between its first enqueue and its
last `irq_set_enabled`, bytes in the queue have an enabled interrupt, and the FIFO is above
its trigger level or the interrupt is raised.
SOURCE: uart/PicoOsUart.cpp:75-147 -/
theorem no_stranded_bytes (P : UartParams) (ls : List UartLabel) (s : OsUart)
    (hrun : (OsUart.machine P).run OsUart.construct ls = some s)
    (hquiet : ∀ c, s.holder = some c → ¬ WriteCall.InProgress c) (htx : s.tx ≠ []) :
    s.txim = true ∧ (P.trigger < s.level ∨ s.txris = true) := by
  have h : Armed P s := (OsUart.machine P).run_invariant (Armed P)
    (fun _ _ _ h hs => step_armed_inv h (uartStep_of_step hs)) armed_construct hrun
  have him : s.txim = true := by
    apply h.txim_of_quiet htx
    intro c hc hcount harming
    apply hquiet c hc
    refine ⟨hcount, fun hpc => ?_⟩
    rw [hpc] at harming
    exact harming
  exact ⟨him, h.raised him⟩

/-- A UART with a FIFO of two bytes that is raised when it is empty. -/
def shallowUart : UartParams := ⟨256, 256, 2, 0, by decide⟩

/-- A write of three bytes fills the FIFO and leaves one byte to the interrupt. -/
def threeBytes : List UartLabel :=
  [.lock 0 (fun i => BitVec.ofNat 8 i) 3, .send, .send, .send] ++ List.replicate 14 .write

theorem no_stranded_bytes_three :
    ∃ s, (OsUart.machine shallowUart).run OsUart.construct threeBytes = some s ∧
      s.tx = [2#8] ∧ s.txim = true ∧ (shallowUart.trigger < s.level ∨ s.txris = true) :=
  ⟨_, rfl, rfl, no_stranded_bytes shallowUart threeBytes _ rfl (fun c hc => by cases hc)
    (List.cons_ne_nil _ _)⟩

end PicoDrone.Analysis
