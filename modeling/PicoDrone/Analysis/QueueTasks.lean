import PicoDrone.Analysis.QueueSteps

/-!
# Tasks and interrupts at a queue

What holds of a queue of the kernel in every state that tasks and interrupts can bring it to.
The operations done on it are a history of a bounded queue, whatever their interleaving
(`queue_linearizable`), and no copy leaves its storage area and no assertion on its locks fails
(`queue_steps`). No wake-up is lost: while a task waits for an item, no more items are there
than tasks about to take one, and the same of those that wait for room (`no_lost_wakeup`).
-/

set_option autoImplicit false

namespace PicoDrone.Analysis

open PicoDrone.Library PicoDrone.Model PicoDrone.Model.Queue

variable {D : QueueDims} {N : ℕ}

/-! ## Interrupts, new calls and the tick -/

section Interrupts

variable {s : QueueSystem D N}

/-- What an interrupt does to the lock and the event list for what it brings. -/
structure Notified (avail : ℕ) (lock lock' : ℤ) (waiting' : List (Fin N))
    (retry : Finset (Fin N)) : Prop where
  side : WaitList N (avail + 1) lock' waiting' retry
  range : InRange N lock'
  held : lock' ≠ queueUnlocked → lock ≠ queueUnlocked
  locked : 0 ≤ lock → 0 ≤ lock'
  arriving : 0 ≤ lock → avail ≤ lock.toNat ∨ (N : ℤ) ≤ lock →
    avail + 1 ≤ lock'.toNat ∨ (N : ℤ) ≤ lock'

theorem notifyFromISR_spec {avail : ℕ} {lock lock' : ℤ} {waiting waiting' : List (Fin N)}
    {retry : Finset (Fin N)} (h : WaitList N avail lock waiting retry) (hrange : InRange N lock)
    (hnotify : notifyFromISR N lock waiting = some (lock', waiting')) :
    Notified avail lock lock' waiting' retry := by
  unfold InRange at hrange
  unfold notifyFromISR prvIncrementQueueLock at hnotify
  by_cases hopen : lock = queueUnlocked
  · rw [if_pos hopen] at hnotify
    cases hnotify
    refine ⟨WaitList.post h, hrange, id, id, fun hlock => ?_⟩
    rw [hopen] at hlock
    cases hlock
  · have hlock : 0 ≤ lock := by
      unfold queueUnlocked at hopen
      omega
    have hlock' : lock' = if lock < N then lock + 1 else lock := by
      rw [if_neg hopen] at hnotify
      split_ifs at hnotify ⊢ <;> cases hnotify <;> rfl
    have hwaiting' : waiting' = waiting := by
      rw [if_neg hopen] at hnotify
      split_ifs at hnotify <;> cases hnotify <;> rfl
    rw [hlock', hwaiting']
    refine ⟨WaitList.count h hlock, ?_, fun _ => hopen, fun _ => ?_, fun _ ha => ?_⟩
    · unfold InRange
      split_ifs <;> omega
    · split_ifs <;> omega
    · split_ifs <;> omega

/-- INTERNAL: with fewer than 128 tasks the assertion on the count does not fail. -/
theorem notifyFromISR_total (hN : N ≤ 127) (lock : ℤ) (waiting : List (Fin N)) :
    ∃ lock' waiting', notifyFromISR N lock waiting = some (lock', waiting') := by
  unfold notifyFromISR prvIncrementQueueLock
  split_ifs
  · exact ⟨_, _, rfl⟩
  · exact ⟨_, _, rfl⟩
  · omega
  · exact ⟨_, _, rfl⟩

theorem side_cases (b send : Bool) : b = send ∨ b = !send := by
  cases b <;> cases send <;> simp

/-- INTERNAL: the state after an interrupt that brings something on one side and takes, if
anything, from the other. -/
theorem QueueInv.interrupt (h : QueueInv s) (send : Bool) {q : Queue D (Fin N)}
    {e : QueueEvent (List Byte)} (hplaced : Placed q)
    (hstep : (boundedQueue (List Byte) D.uxLength).step s.q.contents e = some q.contents)
    (hnotified : Notified (avail send s.q) (lockOf send s.q) (lockOf send q) (waitingFor send q)
      (trying send s))
    (havail : avail send q ≤ avail send s.q + 1) (hother : avail (!send) q ≤ avail (!send) s.q)
    (hlockOther : lockOf (!send) q = lockOf (!send) s.q)
    (hwaitingOther : waitingFor (!send) q = waitingFor (!send) s.q) :
    QueueInv (s.logged q e) := by
  refine ⟨hplaced, ?_, fun b => ?_, fun b => ?_, h.suspended, fun b hne => ?_, fun t k hk => ?_⟩
  · exact Machine.run_append _ h.history (Machine.run_cons_eq_some _ |>.mpr ⟨_, hstep, rfl⟩)
  · obtain rfl | rfl := side_cases b send
    · exact hnotified.side.mono havail
    · exact (h.side _).keep hother hlockOther hwaitingOther rfl
  · obtain rfl | rfl := side_cases b send
    · exact hnotified.range
    · show InRange N (lockOf (!send) q)
      rw [hlockOther]
      exact h.range _
  · obtain rfl | rfl := side_cases b send
    · exact h.held b (hnotified.held hne)
    · exact h.held _ (fun hopen => hne (hlockOther.trans hopen))
  · have hok := h.tasks t k hk
    refine ⟨fun b hb => ?_, fun hpc => ?_, hok.legal⟩
    · obtain rfl | rfl := side_cases b send
      · exact hnotified.locked (hok.locked b hb)
      · show 0 ≤ lockOf (!send) q
        rw [hlockOther]
        exact hok.locked _ hb
    · show avail _ q ≤ (lockOf _ q).toNat ∨ (N : ℤ) ≤ lockOf _ q
      have harriving := hok.arriving hpc
      obtain hcall | hcall := side_cases k.call.isSend send
      · have hlocked := hok.locked send (by rw [hpc]; rfl)
        rw [hcall] at harriving ⊢
        have hcount := hnotified.arriving hlocked harriving
        omega
      · rw [hcall] at harriving ⊢
        rw [hlockOther]
        omega

theorem QueueInv.sendFromISR (h : QueueInv s) {pvItemToQueue : ℕ → Byte}
    {xPosition : CopyPosition} (hlegal : Legal D xPosition) (hroom : s.q.Accepts xPosition)
    {q' : Queue D (Fin N)} (hq' : s.q.sendItemFromISR N pvItemToQueue xPosition = some q') :
    QueueInv (s.logged q' (xPosition.event (D.item pvItemToQueue))) := by
  obtain ⟨q, hcopy, hplaced, hsame, hstep⟩ := copyTo_spec h.placed pvItemToQueue hlegal hroom
  obtain ⟨hitems, hspace⟩ := send_count hstep
  rw [Queue.sendItemFromISR, hcopy, Option.bind_some, hsame.tx, hsame.receive] at hq'
  obtain ⟨⟨lock', waiting'⟩, hnotify, rfl⟩ := Option.map_eq_some_iff.mp hq'
  refine h.interrupt false hplaced hstep
    (notifyFromISR_spec (h.side false) (h.range false) hnotify) hitems ?_ hsame.rx hsame.send
  show avail true q ≤ avail true s.q
  omega

theorem QueueInv.sendFromISR_total (h : QueueInv s) (hN : N ≤ 127) (pvItemToQueue : ℕ → Byte)
    {xPosition : CopyPosition} (hlegal : Legal D xPosition) (hroom : s.q.Accepts xPosition) :
    ∃ q', s.q.sendItemFromISR N pvItemToQueue xPosition = some q' := by
  obtain ⟨q, hcopy, -, hsame, -⟩ := copyTo_spec h.placed pvItemToQueue hlegal hroom
  obtain ⟨lock', waiting', hnotify⟩ :=
    notifyFromISR_total hN s.q.cTxLock s.q.xTasksWaitingToReceive
  rw [Queue.sendItemFromISR, hcopy, Option.bind_some, hsame.tx, hsame.receive]
  exact ⟨_, Option.map_eq_some_iff.mpr ⟨_, hnotify, rfl⟩⟩

theorem QueueInv.receiveFromISR (h : QueueInv s) (hpos : 0 < s.q.uxMessagesWaiting)
    {q' : Queue D (Fin N)} {item : List Byte}
    (hq' : s.q.takeItemFromISR N = some (q', item)) : QueueInv (s.logged q' (.received item)) := by
  obtain ⟨q, item', hcopy, hsame, hhead, hnew⟩ := takeFrom_spec h.placed hpos
  rw [Queue.takeItemFromISR, hcopy, Option.bind_some] at hq'
  simp only [hsame.rx, hsame.send] at hq'
  obtain ⟨⟨lock', waiting'⟩, hnotify, ⟨⟩⟩ := Option.map_eq_some_iff.mp hq'
  obtain ⟨hplaced, hcontents⟩ := hnew
    { q with
      uxMessagesWaiting := s.q.uxMessagesWaiting - 1
      cRxLock := lock'
      xTasksWaitingToSend := waiting' } rfl rfl rfl rfl
  refine h.interrupt true hplaced ?_ (notifyFromISR_spec (h.side true) (h.range true) hnotify)
    ?_ ?_ hsame.tx hsame.receive
  · rw [hcontents]
    exact if_pos hhead
  · show D.uxLength - (s.q.uxMessagesWaiting - 1) ≤ D.uxLength - s.q.uxMessagesWaiting + 1
    omega
  · exact Nat.sub_le _ _

theorem QueueInv.receiveFromISR_total (h : QueueInv s) (hN : N ≤ 127)
    (hpos : 0 < s.q.uxMessagesWaiting) : ∃ answer, s.q.takeItemFromISR N = some answer := by
  obtain ⟨q, item, hcopy, hsame, -⟩ := takeFrom_spec h.placed hpos
  obtain ⟨lock', waiting', hnotify⟩ :=
    notifyFromISR_total hN s.q.cRxLock s.q.xTasksWaitingToSend
  rw [Queue.takeItemFromISR, hcopy, Option.bind_some]
  simp only [hsame.rx, hsame.send]
  exact ⟨_, Option.map_eq_some_iff.mpr ⟨_, hnotify, rfl⟩⟩

theorem QueueInv.peekFromISR (h : QueueInv s) (hpos : 0 < s.q.uxMessagesWaiting) :
    ∃ q item, s.q.peekItemFromISR = some (q, item) ∧ QueueInv (s.logged q (.peeked item)) := by
  obtain ⟨q, item, hcopy, hback, hhead⟩ := peekFrom_spec h.placed hpos
  refine ⟨s.q, item, ?_, ⟨h.placed, ?_, h.side, h.range, h.suspended, h.held, h.tasks⟩⟩
  · rw [Queue.peekItemFromISR, hcopy]
    exact congrArg (fun q => some (q, item)) hback
  · exact Machine.run_append _ h.history
      (Machine.run_cons_eq_some _ |>.mpr ⟨s.q.contents, if_pos hhead, rfl⟩)

theorem QueueInv.newCall (h : QueueInv s) {t : Fin N} (hsusp : s.suspender = none)
    (hnone : s.task t = none) {call : QueueCall} (ticks : ℕ)
    (hlegal : ∀ pvItemToQueue xCopyPosition, call = .send pvItemToQueue xCopyPosition →
      Legal D xCopyPosition) :
    QueueInv (s.setTask t (some ⟨call, ticks, .critical⟩)) := by
  have hruns : s.suspender ≠ some t := by
    rw [hsusp]
    exact nofun
  refine ⟨h.placed, h.history, fun send => ?_, h.range, fun u => ?_, fun send hne => ?_,
    fun u k hk => ?_⟩
  · by_cases hsend : call.isSend = send
    · unfold Side
      rw [trying_update (s := s) (t := t) rfl, if_pos (by simp [tries, hsend, retries])]
      exact WaitList.join (h.side send) t
    · refine (h.side send).keep (Nat.le_refl _) rfl rfl (trying_keep (t := t) rfl ?_)
      rw [hnone]
      exact tries_other (k := ⟨call, ticks, .critical⟩) hsend
  · refine (h.suspended u).trans ?_
    by_cases hu : u = t
    · subst hu
      simp [QueueSystem.setTask, hnone, suspends]
    · simp [QueueSystem.setTask, Function.update_of_ne hu]
  · obtain ⟨u, k, hk, hlocks⟩ := h.held send hne
    have hu : u ≠ t := by
      rintro rfl
      rw [hnone] at hk
      cases hk
    exact ⟨u, k, (Function.update_of_ne hu _ _).trans hk, hlocks⟩
  · by_cases hu : u = t
    · subst hu
      obtain rfl : ⟨call, ticks, .critical⟩ = k := by
        simpa [QueueSystem.setTask] using hk
      exact ⟨by simp [locks], (fun hpc => by cases hpc), hlegal⟩
    · exact h.tasks u k ((Function.update_of_ne hu _ _).symm.trans hk)

theorem QueueInv.tick (h : QueueInv s) (t : Fin N) :
    QueueInv { s with q := { s.q with
      xTasksWaitingToSend := s.q.xTasksWaitingToSend.erase t
      xTasksWaitingToReceive := s.q.xTasksWaitingToReceive.erase t } } := by
  refine ⟨h.placed, h.history, fun send => ?_, fun send => ?_, h.suspended, fun send hne => ?_,
    fun u k hk => ?_⟩
  · have hside := WaitList.erase (h.side send) t
    cases send <;> exact hside
  · have hrange := h.range send
    cases send <;> exact hrange
  · apply h.held send
    cases send <;> exact hne
  · have hok := h.tasks u k hk
    refine ⟨fun send hb => ?_, fun hpc => ?_, hok.legal⟩
    · have hlocked := hok.locked send hb
      cases send <;> exact hlocked
    · have harriving := hok.arriving hpc
      cases hcall : k.call.isSend <;> rw [hcall] at harriving <;> exact harriving

end Interrupts

/-! ## Runs -/

section Runs

variable {s s' : QueueSystem D N} {l : QueueLabel N}

/-- The label uses the queue as it may be used: a queue that only counts is not overwritten. -/
def Usable (D : QueueDims) : QueueLabel N → Prop
  | .call _ (.send _ xCopyPosition) _ => xCopyPosition = .overwrite → D.uxItemSize ≠ 0
  | .sendFromISR _ xCopyPosition => xCopyPosition = .overwrite → D.uxItemSize ≠ 0
  | _ => True

/-- The label can come: the scheduler lets the task run and the assertions on the arguments
hold. -/
def Scheduled (s : QueueSystem D N) : QueueLabel N → Prop
  | .call t call _ => s.suspender = none ∧ s.task t = none ∧ QueueSystem.assertCall D call
  | .step t _ => (∃ k, s.task t = some k) ∧ s.Runs t
  | .tick _ => s.suspender = none
  | .sendFromISR _ xCopyPosition => QueueSystem.assertSend D xCopyPosition
  | .receiveFromISR => True
  | .peekFromISR => D.uxItemSize ≠ 0

theorem start_inv (mem : ℕ → Byte) :
    QueueInv (QueueSystem.start (prvInitialiseNewQueue mem : Queue D (Fin N))) := by
  obtain ⟨hplaced, hcontents⟩ := placed_init (D := D) (ι := Fin N) mem
  refine ⟨hplaced, congrArg some hcontents.symm, fun send => ?_, fun send => ?_, fun t => ?_,
    fun send hne => ?_, nofun⟩
  · cases send <;> exact WaitList.nil
  · cases send <;> exact inRange_of_open rfl
  · simp [QueueSystem.start]
  · cases send <;> exact absurd rfl hne

/-- INTERNAL: a queue that is created has the asked length and size of items, and the runs start
from it.
SOURCE: FreeRTOS-KernelV10.6.2/queue.c:477-537 -/
theorem created_inv {uxQueueLength uxItemSize : ℕ} {mem : Option (ℕ → Byte)}
    {q : Queue D (Fin N)} (h : xQueueGenericCreate uxQueueLength uxItemSize mem = some ⟨D, q⟩) :
    D.uxLength = uxQueueLength ∧ D.uxItemSize = uxItemSize ∧
      (∃ bytes, mem = some bytes ∧ q = prvInitialiseNewQueue bytes) ∧
      QueueInv (QueueSystem.start q) := by
  unfold xQueueGenericCreate at h
  split_ifs at h
  obtain ⟨bytes, hbytes, heq⟩ := Option.map_eq_some_iff.mp h
  cases heq
  exact ⟨rfl, rfl, ⟨bytes, hbytes, rfl⟩, start_inv bytes⟩

theorem legal_of_call {call : QueueCall} {t : Fin N} {ticks : ℕ}
    (husable : Usable D (.call t call ticks)) (hassert : QueueSystem.assertCall D call) :
    ∀ pvItemToQueue xCopyPosition, call = .send pvItemToQueue xCopyPosition →
      Legal D xCopyPosition := by
  rintro pvItemToQueue xCopyPosition rfl hover
  exact ⟨hassert hover, husable hover⟩

/-- INTERNAL: every step of the system keeps the invariant. -/
theorem QueueInv.step (h : QueueInv s) (uxPriority : Fin N → ℕ) (husable : Usable D l)
    (hstep : s.step uxPriority l = some s') : QueueInv s' := by
  cases l with
  | call t call ticks =>
    obtain ⟨⟨hsusp, hnone, hassert⟩, ⟨⟩⟩ := Option.ite_none_right_eq_some.mp hstep
    exact h.newCall hsusp hnone ticks (legal_of_call husable hassert)
  | step t elapsed =>
    cases hk : s.task t with
    | none => simp only [QueueSystem.step, hk, reduceCtorEq] at hstep
    | some k =>
      simp only [QueueSystem.step, hk] at hstep
      obtain ⟨hruns, htask⟩ := Option.ite_none_right_eq_some.mp hstep
      obtain ⟨s'', hs'', hinv⟩ := h.taskStep hk hruns uxPriority elapsed
      obtain rfl : s'' = s' := Option.some.inj (hs''.symm.trans htask)
      exact hinv
  | tick t =>
    obtain ⟨-, ⟨⟩⟩ := Option.ite_none_right_eq_some.mp hstep
    exact h.tick t
  | sendFromISR pvItemToQueue xCopyPosition =>
    obtain ⟨hassert, hstep⟩ := Option.ite_none_right_eq_some.mp hstep
    split_ifs at hstep with hroom
    · obtain ⟨q', hq', rfl⟩ := Option.map_eq_some_iff.mp hstep
      exact h.sendFromISR (fun hover => ⟨hassert hover, husable hover⟩) hroom hq'
    · cases hstep
      exact h
  | receiveFromISR =>
    simp only [QueueSystem.step] at hstep
    split_ifs at hstep with hpos
    · obtain ⟨⟨q', item⟩, hq', rfl⟩ := Option.map_eq_some_iff.mp hstep
      exact h.receiveFromISR hpos hq'
    · cases hstep
      exact h
  | peekFromISR =>
    simp only [QueueSystem.step] at hstep
    split_ifs at hstep with hzero hpos
    · obtain ⟨q, item, hq, hinv⟩ := h.peekFromISR hpos
      rw [hq] at hstep
      cases hstep
      exact hinv
    · cases hstep
      exact h

theorem run_inv (uxPriority : Fin N → ℕ) {mem : ℕ → Byte} {ls : List (QueueLabel N)}
    (husable : ∀ l ∈ ls, Usable D l)
    (hrun : (QueueSystem.machine uxPriority).run
      (QueueSystem.start (prvInitialiseNewQueue mem : Queue D (Fin N))) ls = some s) :
    QueueInv s :=
  (QueueSystem.machine uxPriority).run_invariant_along QueueInv (fun _ l => Usable D l)
    (fun _ _ _ h husable hstep => h.step uxPriority husable hstep) (start_inv mem)
    (Machine.along_of_forall _ fun l hl _ => husable l hl) hrun

/-- CONTRACT: the operations that tasks and interrupts have done on a queue, in the order of
their critical sections, are a history of a bounded queue that ends with its contents; if none
of them sends to the front or overwrites, what was received and what is left is what was sent,
in the same order. -/
theorem queue_linearizable (uxPriority : Fin N → ℕ) {mem : ℕ → Byte}
    {ls : List (QueueLabel N)} (husable : ∀ l ∈ ls, Usable D l)
    (hrun : (QueueSystem.machine uxPriority).run
      (QueueSystem.start (prvInitialiseNewQueue mem : Queue D (Fin N))) ls = some s) :
    (boundedQueue (List Byte) D.uxLength).run [] s.log = some s.q.contents ∧
      s.q.contents.length ≤ D.uxLength ∧
      ((∀ e ∈ s.log, e.InOrder) →
        s.log.filterMap QueueEvent.left ++ s.q.contents =
          s.log.filterMap QueueEvent.entered) := by
  have hhistory := (run_inv uxPriority husable hrun).history
  exact ⟨hhistory, boundedQueue_length hhistory, fun hes => boundedQueue_fifo hes hhistory⟩

/-- The queue of the event tests: room for two items of one byte. -/
def twoBytes : QueueDims := ⟨2, 1, by decide, by decide⟩

theorem queue_linearizable_wrap :
    ∃ s, (QueueSystem.machine fun _ : Fin 1 => 1).run
        (QueueSystem.start (prvInitialiseNewQueue fun _ => 0 : Queue twoBytes (Fin 1)))
        [.sendFromISR (fun _ => 7) .sendToBack, .sendFromISR (fun _ => 8) .sendToBack,
          .call 0 .receive 0, .step 0 0, .sendFromISR (fun _ => 9) .sendToBack] = some s ∧
      s.log = [.back [7], .back [8], .received [7], .back [9]] ∧
      (boundedQueue (List Byte) 2).run [] s.log = some s.q.contents := by
  have hlog : ((QueueSystem.machine fun _ : Fin 1 => 1).run
      (QueueSystem.start (prvInitialiseNewQueue fun _ => 0 : Queue twoBytes (Fin 1)))
      [.sendFromISR (fun _ => 7) .sendToBack, .sendFromISR (fun _ => 8) .sendToBack,
        .call 0 .receive 0, .step 0 0, .sendFromISR (fun _ => 9) .sendToBack]).map
      (fun s => s.log) = some [.back [7], .back [8], .received [7], .back [9]] := by
    decide +kernel
  obtain ⟨s, hrun, hs⟩ := Option.map_eq_some_iff.mp hlog
  exact ⟨s, hrun, hs, (queue_linearizable _ (by simp [Usable]) hrun).1⟩

/-- The tasks that will try, and are not on the event list. -/
def ready (send : Bool) (s : QueueSystem D N) : Finset (Fin N) :=
  (trying send s).filter fun t => t ∉ waitingFor send s.q

/-- No task in a call can take a step. -/
def AllBlocked (s : QueueSystem D N) : Prop :=
  s.suspender = none ∧ ∀ t k, s.task t = some k → ¬ s.Runs t

theorem avail_le_ready (h : QueueInv s) {send : Bool}
    (hopen : lockOf send s.q = queueUnlocked) (hwaiting : waitingFor send s.q ≠ []) :
    avail send s.q ≤ (ready send s).card := by
  have hside := h.side send
  have hcovered := hside.covered hwaiting
  rw [hopen] at hcovered
  have hfilter : (trying send s).filter (fun t => t ∈ waitingFor send s.q) =
      (waitingFor send s.q).toFinset := by
    ext t
    rw [List.mem_toFinset, Finset.mem_filter]
    exact ⟨fun ht => ht.2, fun ht => ⟨hside.sub t ht, ht⟩⟩
  have hcard : (waitingFor send s.q).length + (ready send s).card = (trying send s).card := by
    rw [← List.toFinset_card_of_nodup hside.nodup, ← hfilter, ready]
    exact Finset.card_filter_add_card_filter_not _
  have hunlocked : (queueUnlocked).toNat = 0 := rfl
  have hN : ¬ (N : ℤ) ≤ queueUnlocked := by
    unfold queueUnlocked
    omega
  omega

theorem ready_of_allBlocked (h : QueueInv s) (hblocked : AllBlocked s) (send : Bool) :
    ready send s = ∅ := by
  refine Finset.eq_empty_of_forall_notMem fun t ht => ?_
  obtain ⟨htry, hnot⟩ := Finset.mem_filter.mp ht
  rw [mem_trying] at htry
  cases hk : s.task t with
  | none =>
    rw [hk] at htry
    cases htry
  | some k =>
    have hother : t ∉ waitingFor (!send) s.q := by
      intro hmem
      have htry' := mem_trying.mp ((h.side _).sub t hmem)
      rw [hk] at htry htry'
      simp only [tries, Bool.and_eq_true, beq_iff_eq] at htry htry'
      rw [htry.1] at htry'
      cases send <;> cases htry'.1
    apply hblocked.2 t k hk
    refine Or.inr ⟨hblocked.1, ?_⟩
    cases send
    · exact ⟨hother, hnot⟩
    · exact ⟨hnot, hother⟩

/-- CONTRACT: no wake-up is lost. In every state, while the queue is not locked and a task waits
for an item, there are at most as many items as tasks about to take one, and while one waits
for room there is at most as much room as tasks about to send. So where every call is blocked, a
task that waits for an item waits at an empty queue, and one that waits for room at a full
one. -/
theorem no_lost_wakeup (uxPriority : Fin N → ℕ) {mem : ℕ → Byte}
    {ls : List (QueueLabel N)} (husable : ∀ l ∈ ls, Usable D l)
    (hrun : (QueueSystem.machine uxPriority).run
      (QueueSystem.start (prvInitialiseNewQueue mem : Queue D (Fin N))) ls = some s)
    (send : Bool) (hwaiting : waitingFor send s.q ≠ []) :
    (lockOf send s.q = queueUnlocked → avail send s.q ≤ (ready send s).card) ∧
      (AllBlocked s → avail send s.q = 0) := by
  have hinv := run_inv uxPriority husable hrun
  refine ⟨fun hopen => avail_le_ready hinv hopen hwaiting, fun hblocked => ?_⟩
  have hopen : lockOf send s.q = queueUnlocked := by
    by_contra hne
    obtain ⟨t, k, hk, hlocks⟩ := hinv.held send hne
    have hsusp := suspender_of hinv hk (suspends_of_locks hlocks)
    rw [hblocked.1] at hsusp
    cases hsusp
  have hle := avail_le_ready hinv hopen hwaiting
  rw [ready_of_allBlocked hinv hblocked send] at hle
  exact Nat.le_zero.mp hle

/-- A task that blocks at the empty queue for as long as it takes. -/
theorem no_lost_wakeup_empty :
    ∃ s, (QueueSystem.machine fun _ : Fin 1 => 1).run
        (QueueSystem.start (prvInitialiseNewQueue fun _ => 0 : Queue twoBytes (Fin 1)))
        (.call 0 .receive portMaxDelay :: List.replicate 9 (.step 0 3)) = some s ∧
      waitingFor false s.q = [0] ∧ avail false s.q = 0 := by
  have hend : ((QueueSystem.machine fun _ : Fin 1 => 1).run
      (QueueSystem.start (prvInitialiseNewQueue fun _ => 0 : Queue twoBytes (Fin 1)))
      (.call 0 .receive portMaxDelay :: List.replicate 9 (.step 0 3))).map
      (fun s => (s.suspender, waitingFor false s.q)) = some (none, [0]) := by
    decide +kernel
  obtain ⟨s, hrun, hs⟩ := Option.map_eq_some_iff.mp hend
  obtain ⟨hsusp, hlist⟩ := Prod.mk.inj hs
  have hblocked : AllBlocked s := by
    refine ⟨hsusp, fun t k _ hruns => ?_⟩
    obtain hsome | ⟨-, -, hnot⟩ := hruns
    · rw [hsusp] at hsome
      cases hsome
    · apply hnot
      show t ∈ waitingFor false s.q
      rw [hlist, Subsingleton.elim t 0]
      exact List.mem_singleton_self 0
  have hwaiting : waitingFor false s.q ≠ [] := by
    rw [hlist]
    exact List.cons_ne_nil _ _
  exact ⟨s, hrun, hlist, (no_lost_wakeup _ (by simp [Usable]) hrun false hwaiting).2 hblocked⟩

theorem enabled_iff {α : Type} {c : Prop} [Decidable c] {x : Option α}
    (hx : c → ∃ a, x = some a) : (∃ a, (if c then x else none) = some a) ↔ c := by
  constructor
  · rintro ⟨a, ha⟩
    exact (Option.ite_none_right_eq_some.mp ha).1
  · intro hc
    rw [if_pos hc]
    exact hx hc

/-- CONTRACT: in every state, what the scheduler lets happen does happen: with fewer than 128
tasks, no copy leaves the storage area and no assertion on the locks fails. -/
theorem queue_steps (uxPriority : Fin N → ℕ) {mem : ℕ → Byte}
    {ls : List (QueueLabel N)} (husable : ∀ l ∈ ls, Usable D l)
    (hrun : (QueueSystem.machine uxPriority).run
      (QueueSystem.start (prvInitialiseNewQueue mem : Queue D (Fin N))) ls = some s)
    (hN : N ≤ 127) (hl : Usable D l) :
    (∃ s', s.step uxPriority l = some s') ↔ Scheduled s l := by
  have hinv := run_inv uxPriority husable hrun
  cases l with
  | call t call ticks => exact enabled_iff fun _ => ⟨_, rfl⟩
  | step t elapsed =>
    cases hk : s.task t with
    | none => simp [QueueSystem.step, Scheduled, hk]
    | some k =>
      have henabled : (∃ s', (if s.Runs t then s.taskStep uxPriority t k elapsed else none) =
          some s') ↔ s.Runs t := by
        refine enabled_iff fun hruns => ?_
        obtain ⟨s', hs', -⟩ := hinv.taskStep hk hruns uxPriority elapsed
        exact ⟨s', hs'⟩
      simpa [QueueSystem.step, Scheduled, hk] using henabled
  | tick t => exact enabled_iff fun _ => ⟨_, rfl⟩
  | sendFromISR pvItemToQueue xCopyPosition =>
    refine enabled_iff fun hassert => ?_
    by_cases hroom : s.q.Accepts xCopyPosition
    · obtain ⟨q', hq'⟩ := hinv.sendFromISR_total hN pvItemToQueue
        (fun hover => ⟨hassert hover, hl hover⟩) hroom
      exact ⟨_, by rw [if_pos hroom, hq']; rfl⟩
    · exact ⟨s, if_neg hroom⟩
  | receiveFromISR =>
    refine iff_of_true ?_ trivial
    by_cases hpos : 0 < s.q.uxMessagesWaiting
    · obtain ⟨answer, hanswer⟩ := hinv.receiveFromISR_total hN hpos
      exact ⟨_, (if_pos hpos).trans (Option.map_eq_some_iff.mpr ⟨answer, hanswer, rfl⟩)⟩
    · exact ⟨s, if_neg hpos⟩
  | peekFromISR =>
    by_cases hzero : D.uxItemSize = 0
    · simp [QueueSystem.step, Scheduled, hzero]
    · refine iff_of_true ?_ hzero
      by_cases hpos : 0 < s.q.uxMessagesWaiting
      · obtain ⟨q, item, hq, -⟩ := hinv.peekFromISR hpos
        exact ⟨s.logged q (.peeked item), by simp only [QueueSystem.step, if_neg hzero, if_pos hpos,
          hq, Option.map_some]⟩
      · exact ⟨s, (if_neg hzero).trans (if_neg hpos)⟩

theorem queue_steps_send : ∃ s, (QueueSystem.start
    (prvInitialiseNewQueue fun _ => 0 : Queue twoBytes (Fin 1))).step (fun _ => 1)
      (.sendFromISR (fun _ => 7) .sendToBack) = some s := by
  have husable : Usable (N := 1) twoBytes (.sendFromISR (fun _ => 7) .sendToBack) :=
    fun h => by cases h
  have hrun := Machine.run_nil (QueueSystem.machine fun _ : Fin 1 => 1)
    (QueueSystem.start (prvInitialiseNewQueue fun _ => 0 : Queue twoBytes (Fin 1)))
  exact (queue_steps _ (List.forall_mem_nil _) hrun (by decide) husable).mpr fun h => by cases h

end Runs

end PicoDrone.Analysis
