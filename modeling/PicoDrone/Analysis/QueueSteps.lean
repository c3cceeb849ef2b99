import Mathlib.Data.Fintype.Card
import PicoDrone.Analysis.QueueStorage
import PicoDrone.Library.WaitList

/-!
# The steps of a call at a queue

The invariant of a queue of the kernel and the tasks at it (`QueueInv`): the operations done so
far are a history of a bounded queue, both event lists keep the account of `WaitList`, and a
lock is held only where its holder has suspended the scheduler. Every step of a call of a task
keeps it (`QueueInv.taskStep`).
-/

set_option autoImplicit false

namespace PicoDrone.Analysis

open PicoDrone.Library PicoDrone.Model PicoDrone.Model.Queue

variable {D : QueueDims} {N : ℕ}

/-! ## The two sides of a queue -/

/-- What there is for a call to take: room for a send, items for the others. -/
def avail {ι : Type} (send : Bool) (q : Queue D ι) : ℕ :=
  match send with
  | true => D.uxLength - q.uxMessagesWaiting
  | false => q.uxMessagesWaiting

/-- The lock that counts what comes for it. -/
def lockOf {ι : Type} (send : Bool) (q : Queue D ι) : ℤ :=
  match send with
  | true => q.cRxLock
  | false => q.cTxLock

/-- The event list for it. -/
def waitingFor {ι : Type} (send : Bool) (q : Queue D ι) : List ι :=
  match send with
  | true => q.xTasksWaitingToSend
  | false => q.xTasksWaitingToReceive

/-- The task comes to the head of its loop before it waits. -/
def retries : QueuePc → Bool
  | .critical => true
  | .unlockTx .loop => true
  | .unlockRx .loop => true
  | .resume .loop => true
  | _ => false

/-- The scheduler is suspended here. -/
def suspends : QueuePc → Bool
  | .critical => false
  | .suspend => false
  | .last => false
  | _ => true

/-- The lock of this side is held here. -/
def locks (send : Bool) : QueuePc → Bool
  | .timeOut => true
  | .test => true
  | .place => true
  | .unlockTx _ => true
  | .unlockRx _ => send
  | _ => false

/-- A task in a call of this side will try it. -/
def tries (send : Bool) : Option QueueTask → Bool
  | none => false
  | some k => k.call.isSend == send && retries k.pc

/-- The tasks that will try. -/
def trying (send : Bool) (s : QueueSystem D N) : Finset (Fin N) :=
  Finset.univ.filter fun t => tries send (s.task t)

/-- No wake-up is lost on this side. -/
def Side (send : Bool) (s : QueueSystem D N) : Prop :=
  WaitList N (avail send s.q) (lockOf send s.q) (waitingFor send s.q) (trying send s)

/-- A lock is open, or counts no more than the tasks. -/
def InRange (N : ℕ) (lock : ℤ) : Prop := -1 ≤ lock ∧ lock ≤ N

/-- What a task relies on: the locks it holds, that nothing was there when it looked but what
the lock has counted since, and how it may use the queue. -/
structure TaskOk (q : Queue D (Fin N)) (k : QueueTask) : Prop where
  locked : ∀ send, locks send k.pc = true → 0 ≤ lockOf send q
  arriving : k.pc = .place → avail k.call.isSend q ≤ (lockOf k.call.isSend q).toNat ∨
    (N : ℤ) ≤ lockOf k.call.isSend q
  legal : ∀ pvItemToQueue xCopyPosition, k.call = .send pvItemToQueue xCopyPosition →
    Legal D xCopyPosition

/-- The invariant of a queue and its users. -/
structure QueueInv (s : QueueSystem D N) : Prop where
  placed : Placed s.q
  history : (boundedQueue (List Byte) D.uxLength).run [] s.log = some s.q.contents
  side : ∀ send, Side send s
  range : ∀ send, InRange N (lockOf send s.q)
  suspended : ∀ t, s.suspender = some t ↔ ∃ k, s.task t = some k ∧ suspends k.pc = true
  held : ∀ send, lockOf send s.q ≠ queueUnlocked →
    ∃ t k, s.task t = some k ∧ locks send k.pc = true
  tasks : ∀ t k, s.task t = some k → TaskOk s.q k

/-! ## The tasks that try -/

theorem mem_trying {s : QueueSystem D N} {send : Bool} {t : Fin N} :
    t ∈ trying send s ↔ tries send (s.task t) = true := by
  simp [trying, Finset.mem_filter]

/-- INTERNAL: a task that goes from one place to another and tries at both or at neither. -/
theorem trying_keep {s s' : QueueSystem D N} {send : Bool} {t : Fin N} {x : Option QueueTask}
    (htask : s'.task = Function.update s.task t x)
    (h : tries send x = tries send (s.task t)) : trying send s' = trying send s := by
  ext u
  rw [mem_trying, mem_trying, htask]
  by_cases hu : u = t
  · subst hu
    rw [Function.update_self, h]
  · rw [Function.update_of_ne hu]

theorem trying_update {s s' : QueueSystem D N} {send : Bool} {t : Fin N} {x : Option QueueTask}
    (htask : s'.task = Function.update s.task t x) :
    trying send s' =
      if tries send x then insert t (trying send s) else (trying send s).erase t := by
  ext u
  rw [mem_trying, htask]
  by_cases hu : u = t
  · subst hu
    rw [Function.update_self]
    split_ifs with hx <;> simp [hx]
  · rw [Function.update_of_ne hu]
    split_ifs <;> simp [hu, mem_trying]

/-- INTERNAL: a task that does not try elsewhere. -/
theorem tries_other {send : Bool} {k : QueueTask} (h : k.call.isSend ≠ send) :
    tries send (some k) = false := by
  simp [tries, h]

/-! ## Steps of one task -/

/-- INTERNAL: a task outside of the locked part relies on nothing but its call. -/
theorem taskOk_of_not_suspends {q q' : Queue D (Fin N)} {k : QueueTask} (h : TaskOk q k)
    (hpc : suspends k.pc = false) : TaskOk q' k := by
  refine ⟨fun send hlock => ?_, fun hplace => ?_, h.legal⟩
  · cases hk : k.pc <;> simp [hk, locks, suspends] at hlock hpc
  · rw [hplace] at hpc
    cases hpc

/-- INTERNAL: a task that runs outside of the locked part is on no event list, and the
scheduler runs. -/
theorem runs_free {s : QueueSystem D N} (h : QueueInv s) {t : Fin N} {k : QueueTask}
    (hk : s.task t = some k) (hruns : s.Runs t) (hpc : suspends k.pc = false) :
    s.suspender = none ∧ ∀ send, t ∉ waitingFor send s.q := by
  obtain hsusp | ⟨hnone, hsend, hreceive⟩ := hruns
  · obtain ⟨k', hk', hpc'⟩ := (h.suspended t).mp hsusp
    obtain rfl : k = k' := Option.some.inj (hk.symm.trans hk')
    rw [hpc] at hpc'
    cases hpc'
  · refine ⟨hnone, fun send => ?_⟩
    cases send
    · exact hreceive
    · exact hsend

/-- INTERNAL: while a task runs, no other one is in the locked part. -/
theorem others_free {s : QueueSystem D N} (h : QueueInv s) {t u : Fin N} {k : QueueTask}
    (hruns : s.Runs t) (hu : u ≠ t) (hk : s.task u = some k) : suspends k.pc = false := by
  by_contra hne
  have hsusp := (h.suspended u).mpr ⟨k, hk, by simpa using hne⟩
  obtain hsusp' | ⟨hnone, -⟩ := hruns
  · rw [hsusp] at hsusp'
    exact hu (Option.some.inj hsusp')
  · rw [hsusp] at hnone
    cases hnone

theorem suspends_of_locks {send : Bool} {pc : QueuePc} (h : locks send pc = true) :
    suspends pc = true := by
  cases pc <;> first | rfl | cases h

/-- INTERNAL: while a task runs, the locks are open or its own. -/
theorem locks_of_held {s : QueueSystem D N} (h : QueueInv s) {t : Fin N} {k : QueueTask}
    (hk : s.task t = some k) (hruns : s.Runs t) {send : Bool}
    (hheld : lockOf send s.q ≠ queueUnlocked) : locks send k.pc = true := by
  obtain ⟨u, k', hk', hlocks⟩ := h.held send hheld
  by_cases hu : u = t
  · subst hu
    obtain rfl : k = k' := Option.some.inj (hk.symm.trans hk')
    exact hlocks
  · have hfree := others_free h hruns hu hk'
    rw [suspends_of_locks hlocks] at hfree
    cases hfree

theorem open_of_not_locks {s : QueueSystem D N} (h : QueueInv s) {t : Fin N} {k : QueueTask}
    (hk : s.task t = some k) (hruns : s.Runs t) (hpc : ∀ send, locks send k.pc = false)
    (send : Bool) : lockOf send s.q = queueUnlocked := by
  by_contra hne
  have hlocks := locks_of_held h hk hruns hne
  rw [hpc] at hlocks
  cases hlocks

theorem inRange_of_open {lock : ℤ} (h : lock = queueUnlocked) : InRange N lock := by
  unfold queueUnlocked at h
  unfold InRange
  omega

/-- INTERNAL: what a step of one task has to keep. -/
theorem QueueInv.update {s s' : QueueSystem D N} (h : QueueInv s) {t : Fin N}
    {x : Option QueueTask} (hruns : s.Runs t)
    (htask : s'.task = Function.update s.task t x)
    (hsuspender : s'.suspender =
      if (x.map fun k => suspends k.pc) = some true then some t else none)
    (hplaced : Placed s'.q)
    (hhistory : (boundedQueue (List Byte) D.uxLength).run [] s'.log = some s'.q.contents)
    (hside : ∀ send, Side send s')
    (hrange : ∀ send, InRange N (lockOf send s'.q))
    (hheld : ∀ send, lockOf send s'.q ≠ queueUnlocked → ∃ k, x = some k ∧ locks send k.pc = true)
    (hok : ∀ k, x = some k → TaskOk s'.q k) : QueueInv s' := by
  refine ⟨hplaced, hhistory, hside, hrange, fun u => ?_, fun send hne => ?_, fun u k hk => ?_⟩
  · rw [hsuspender, htask]
    by_cases hu : u = t
    · subst hu
      rw [Function.update_self]
      cases x with
      | none => simp
      | some k => cases hpc : suspends k.pc <;> simp [hpc]
    · rw [Function.update_of_ne hu]
      constructor
      · intro hsome
        split at hsome
        · exact absurd (Option.some.inj hsome).symm hu
        · cases hsome
      · rintro ⟨k, hk, hpc⟩
        rw [others_free h hruns hu hk] at hpc
        cases hpc
  · obtain ⟨k, hx, hlocks⟩ := hheld send hne
    exact ⟨t, k, by rw [htask, Function.update_self, hx], hlocks⟩
  · rw [htask] at hk
    by_cases hu : u = t
    · subst hu
      rw [Function.update_self] at hk
      exact hok k hk
    · rw [Function.update_of_ne hu] at hk
      exact taskOk_of_not_suspends (h.tasks u k hk) (others_free h hruns hu hk)

/-! ## What a step does to a side -/

theorem Side.keep {s s' : QueueSystem D N} {send : Bool} (h : Side send s)
    (ha : avail send s'.q ≤ avail send s.q) (hl : lockOf send s'.q = lockOf send s.q)
    (hw : waitingFor send s'.q = waitingFor send s.q) (ht : trying send s' = trying send s) :
    Side send s' := by
  unfold Side
  rw [hl, hw, ht]
  exact h.mono ha

/-- INTERNAL: a task that takes what there is for it, or finds nothing. -/
theorem Side.leave {s s' : QueueSystem D N} {send : Bool} (h : Side send s) {t : Fin N}
    {x : Option QueueTask} (htask : s'.task = Function.update s.task t x)
    (hx : tries send x = false) (hfree : t ∉ waitingFor send s.q)
    (ha : avail send s'.q + 1 ≤ avail send s.q ∨ avail send s'.q = 0)
    (hl : lockOf send s'.q = lockOf send s.q)
    (hw : waitingFor send s'.q = waitingFor send s.q) : Side send s' := by
  unfold Side
  rw [hl, hw, trying_update htask, hx]
  exact WaitList.leave h hfree ha

/-- INTERNAL: something comes and wakes the first task that waits for it. -/
theorem Side.wake {s s' : QueueSystem D N} {send : Bool} (h : Side send s)
    (ha : avail send s'.q ≤ avail send s.q + 1) (hl : lockOf send s'.q = lockOf send s.q)
    (hw : waitingFor send s'.q = (waitingFor send s.q).tail)
    (ht : trying send s' = trying send s) : Side send s' := by
  unfold Side
  rw [hl, hw, ht]
  exact (WaitList.post h).mono ha

/-- INTERNAL: how many items there are after a send. -/
theorem event_count {α : Type} [DecidableEq α] {cap : ℕ} {xs ys : List α} {e : QueueEvent α}
    (he : e.left = none) (h : (boundedQueue α cap).step xs e = some ys) :
    ys.length ≤ xs.length + 1 ∧
      (cap - ys.length + 1 ≤ cap - xs.length ∨ cap - ys.length = 0 ∨ ys = xs) := by
  cases e with
  | back x =>
    obtain ⟨hlt, ⟨⟩⟩ := Option.ite_none_right_eq_some.mp h
    simp only [List.length_append, List.length_singleton]
    omega
  | front x =>
    obtain ⟨hlt, ⟨⟩⟩ := Option.ite_none_right_eq_some.mp h
    simp only [List.length_cons]
    omega
  | overwrite x =>
    obtain ⟨rfl, ⟨⟩⟩ := Option.ite_none_right_eq_some.mp h
    simp
  | received x => cases he
  | peeked x =>
    obtain ⟨-, ⟨⟩⟩ := Option.ite_none_right_eq_some.mp h
    simp

/-- INTERNAL: the room and the items after a send that the queue accepts. -/
theorem send_count {q q' : Queue D (Fin N)} {xPosition : CopyPosition} {item : List Byte}
    (h : (boundedQueue (List Byte) D.uxLength).step q.contents (xPosition.event item) =
      some q'.contents) :
    avail false q' ≤ avail false q + 1 ∧
      (avail true q' + 1 ≤ avail true q ∨ avail true q' = 0) := by
  have hcount := event_count (by cases xPosition <;> rfl) h
  rw [contents_length, contents_length] at hcount
  refine ⟨hcount.1, ?_⟩
  obtain hroom | hfull | hsame := hcount.2
  · exact Or.inl hroom
  · exact Or.inr hfull
  · cases xPosition with
    | sendToBack =>
      obtain ⟨-, hsome⟩ := Option.ite_none_right_eq_some.mp h
      have := congrArg List.length (Option.some.inj hsome)
      rw [hsame, List.length_append, List.length_singleton] at this
      omega
    | sendToFront =>
      obtain ⟨-, hsome⟩ := Option.ite_none_right_eq_some.mp h
      have := congrArg List.length (Option.some.inj hsome)
      rw [hsame, List.length_cons] at this
      omega
    | overwrite =>
      obtain ⟨hone, hsome⟩ := Option.ite_none_right_eq_some.mp h
      have := congrArg List.length (Option.some.inj hsome)
      rw [contents_length, List.length_singleton] at this
      refine Or.inr ?_
      show D.uxLength - q'.uxMessagesWaiting = 0
      omega

/-! ## The critical section at the head of the loop -/

section Attempt

variable {s : QueueSystem D N} {t : Fin N} {k : QueueTask}

theorem QueueInv.miss (h : QueueInv s) (hk : s.task t = some k) (hruns : s.Runs t)
    (hpc : k.pc = .critical) (hnone : avail k.call.isSend s.q = 0) : QueueInv (s.miss t k) := by
  obtain ⟨hsusp, hfree⟩ := runs_free h hk hruns (by rw [hpc]; rfl)
  have hopen := open_of_not_locks h hk hruns (by rw [hpc]; exact fun _ => rfl)
  have hupdate : ∀ x : Option QueueTask, (∀ send, tries send x = false) →
      ((x.map fun k => suspends k.pc) ≠ some true) → (∀ k', x = some k' → TaskOk s.q k') →
      QueueInv (s.setTask t x) := by
    intro x hx hpcx hok
    refine h.update (x := x) hruns rfl ?_ h.placed h.history (fun send => ?_) h.range
      (fun send hne => absurd (hopen send) hne) hok
    · rw [if_neg hpcx]
      exact hsusp
    · by_cases hsend : send = k.call.isSend
      · subst hsend
        exact (h.side _).leave rfl (hx _) (hfree _) (Or.inr hnone) rfl rfl
      · refine (h.side send).keep (Nat.le_refl _) rfl rfl (trying_keep (t := t) rfl ?_)
        rw [hx send, hk, tries_other (Ne.symm hsend)]
  unfold QueueSystem.miss
  split
  · exact hupdate none (fun _ => rfl) (by simp) (by simp)
  · refine hupdate _ (fun send => by simp [tries, retries]) (by simp [suspends]) ?_
    rintro k' ⟨⟩
    exact ⟨by simp [locks], by simp, (h.tasks t k hk).legal⟩

theorem QueueInv.sendItem (h : QueueInv s) (hk : s.task t = some k) (hruns : s.Runs t)
    (hpc : k.pc = .critical) {pvItemToQueue : ℕ → Byte} {xPosition : CopyPosition}
    (hcall : k.call = .send pvItemToQueue xPosition) (hroom : s.q.Accepts xPosition) :
    ∃ q, s.q.sendItem pvItemToQueue xPosition = some q ∧
      QueueInv ((s.logged q (xPosition.event (D.item pvItemToQueue))).setTask t none) := by
  obtain ⟨hsusp, hfree⟩ := runs_free h hk hruns (by rw [hpc]; rfl)
  obtain ⟨q, hcopy, hplaced, hsame, hstep⟩ := copyTo_spec h.placed pvItemToQueue
    ((h.tasks t k hk).legal pvItemToQueue xPosition hcall) hroom
  obtain ⟨hitems, hspace⟩ := send_count hstep
  refine ⟨{ q with xTasksWaitingToReceive := unblock q.xTasksWaitingToReceive },
    by rw [Queue.sendItem, hcopy]; rfl, ?_⟩
  have hopen := open_of_not_locks h hk hruns (by rw [hpc]; exact fun _ => rfl)
  have hlock : ∀ send, lockOf send
      { q with xTasksWaitingToReceive := unblock q.xTasksWaitingToReceive } = queueUnlocked := by
    intro send
    cases send with
    | true => exact hsame.rx.trans (hopen true)
    | false => exact hsame.tx.trans (hopen false)
  refine h.update (x := none) hruns rfl hsusp hplaced ?_ (fun send => ?_) (fun send => ?_)
    (fun send hne => absurd (hlock send) hne) nofun
  · exact Machine.run_append _ h.history (Machine.run_cons_eq_some _ |>.mpr ⟨_, hstep, rfl⟩)
  · cases send with
    | true => exact (h.side true).leave rfl rfl (hfree true) hspace hsame.rx hsame.send
    | false =>
      refine (h.side false).wake hitems hsame.tx ?_ (trying_keep (t := t) rfl ?_)
      · exact congrArg List.tail hsame.receive
      · rw [hk, tries_other (by rw [hcall]; simp [QueueCall.isSend])]
        rfl
  · exact inRange_of_open (hlock send)

theorem QueueInv.takeItem (h : QueueInv s) (hk : s.task t = some k) (hruns : s.Runs t)
    (hpc : k.pc = .critical) (hcall : k.call.isSend = false) (hpos : 0 < s.q.uxMessagesWaiting) :
    ∃ q item, s.q.takeItem = some (q, item) ∧
      QueueInv ((s.logged q (.received item)).setTask t none) := by
  obtain ⟨hsusp, hfree⟩ := runs_free h hk hruns (by rw [hpc]; rfl)
  obtain ⟨q, item, hcopy, hsame, hhead, hnew⟩ := takeFrom_spec h.placed hpos
  obtain ⟨hplaced, hcontents⟩ := hnew
    { q with
      uxMessagesWaiting := s.q.uxMessagesWaiting - 1
      xTasksWaitingToSend := unblock q.xTasksWaitingToSend } rfl rfl rfl rfl
  refine ⟨_, item, by rw [Queue.takeItem, hcopy]; rfl, ?_⟩
  have hopen := open_of_not_locks h hk hruns (by rw [hpc]; exact fun _ => rfl)
  have hlock : ∀ send, lockOf send { q with
      uxMessagesWaiting := s.q.uxMessagesWaiting - 1
      xTasksWaitingToSend := unblock q.xTasksWaitingToSend } = queueUnlocked := by
    intro send
    cases send with
    | true => exact hsame.rx.trans (hopen true)
    | false => exact hsame.tx.trans (hopen false)
  refine h.update (x := none) hruns rfl hsusp hplaced ?_ (fun send => ?_) (fun send => ?_)
    (fun send hne => absurd (hlock send) hne) nofun
  · refine Machine.run_append _ h.history (Machine.run_cons_eq_some _ |>.mpr ⟨_, ?_, rfl⟩)
    rw [show ((s.logged _ (.received item)).setTask t none).q.contents = _ from hcontents]
    exact if_pos hhead
  · cases send with
    | true =>
      refine (h.side true).wake ?_ hsame.rx ?_ (trying_keep (t := t) rfl ?_)
      · show D.uxLength - (s.q.uxMessagesWaiting - 1) ≤ D.uxLength - s.q.uxMessagesWaiting + 1
        omega
      · exact congrArg List.tail hsame.send
      · rw [hk, tries_other (by rw [hcall]; simp)]
        rfl
    | false =>
      refine (h.side false).leave rfl rfl (hfree false) (Or.inl ?_) hsame.tx hsame.receive
      exact Nat.sub_add_cancel hpos |>.le
  · exact inRange_of_open (hlock send)

theorem QueueInv.peekItem (h : QueueInv s) (hk : s.task t = some k) (hruns : s.Runs t)
    (hpc : k.pc = .critical) (hcall : k.call.isSend = false) (hpos : 0 < s.q.uxMessagesWaiting) :
    ∃ q item, s.q.peekItem = some (q, item) ∧
      QueueInv ((s.logged q (.peeked item)).setTask t none) := by
  obtain ⟨hsusp, hfree⟩ := runs_free h hk hruns (by rw [hpc]; rfl)
  obtain ⟨q, item, hcopy, hback, hhead⟩ := peekFrom_spec h.placed hpos
  have hq : { q with
      pcReadFrom := s.q.pcReadFrom
      xTasksWaitingToReceive := unblock q.xTasksWaitingToReceive } =
      { s.q with xTasksWaitingToReceive := unblock s.q.xTasksWaitingToReceive } := by
    rw [← hback]
  refine ⟨_, item, by rw [Queue.peekItem, hcopy]; exact congrArg (fun q => some (q, item)) hq, ?_⟩
  have hopen := open_of_not_locks h hk hruns (by rw [hpc]; exact fun _ => rfl)
  refine h.update (x := none) hruns rfl hsusp h.placed ?_ (fun send => ?_) h.range
    (fun send hne => absurd (by cases send <;> [exact hopen false; exact hopen true]) hne) nofun
  · refine Machine.run_append _ h.history (Machine.run_cons_eq_some _ |>.mpr ⟨_, ?_, rfl⟩)
    exact if_pos hhead
  · cases send with
    | true =>
      refine (h.side true).keep (Nat.le_refl _) rfl rfl (trying_keep (t := t) rfl ?_)
      rw [hk, tries_other (by rw [hcall]; simp)]
      rfl
    | false =>
      have ht : t ∈ trying false s := by
        rw [mem_trying, hk]
        simp [tries, hcall, hpc, retries]
      have hside := WaitList.pass (h.side false) (hfree false) ht
      unfold Side
      rw [trying_update (s := s) (t := t) (x := none) rfl]
      exact hside

/-- INTERNAL: the critical section at the head of the loop stays inside the storage area and
keeps the invariant. -/
theorem QueueInv.attempt (h : QueueInv s) (hk : s.task t = some k) (hruns : s.Runs t)
    (hpc : k.pc = .critical) : ∃ s', s.attempt t k = some s' ∧ QueueInv s' := by
  have hmiss : ∀ send, k.call.isSend = send → avail send s.q = 0 →
      ∃ s', some (s.miss t k) = some s' ∧ QueueInv s' := by
    intro send hsend hnone
    exact ⟨_, rfl, h.miss hk hruns hpc (by rw [hsend]; exact hnone)⟩
  unfold QueueSystem.attempt
  cases hcall : k.call with
  | send pvItemToQueue xPosition =>
    by_cases hroom : s.q.Accepts xPosition
    · obtain ⟨q, hq, hinv⟩ := h.sendItem hk hruns hpc hcall hroom
      exact ⟨_, by simp only [if_pos hroom, hq, Option.map_some], hinv⟩
    · simp only [if_neg hroom]
      refine hmiss true (by rw [hcall]; rfl) ?_
      have := not_or.mp hroom
      show D.uxLength - s.q.uxMessagesWaiting = 0
      omega
  | receive =>
    by_cases hpos : 0 < s.q.uxMessagesWaiting
    · obtain ⟨q, item, hq, hinv⟩ := h.takeItem hk hruns hpc (by rw [hcall]; rfl) hpos
      exact ⟨_, by simp only [if_pos hpos, hq, Option.map_some], hinv⟩
    · simp only [if_neg hpos]
      exact hmiss false (by rw [hcall]; rfl) (Nat.eq_zero_of_not_pos hpos)
  | peek =>
    by_cases hpos : 0 < s.q.uxMessagesWaiting
    · obtain ⟨q, item, hq, hinv⟩ := h.peekItem hk hruns hpc (by rw [hcall]; rfl) hpos
      exact ⟨_, by simp only [if_pos hpos, hq, Option.map_some], hinv⟩
    · simp only [if_neg hpos]
      exact hmiss false (by rw [hcall]; rfl) (Nat.eq_zero_of_not_pos hpos)

end Attempt

/-! ## The other steps of a call -/

section Steps

variable {s : QueueSystem D N} {t : Fin N} {k : QueueTask}

theorem suspender_of (h : QueueInv s) (hk : s.task t = some k) (hpc : suspends k.pc = true) :
    s.suspender = some t :=
  (h.suspended t).mpr ⟨k, hk, hpc⟩

/-- INTERNAL: a step that leaves the contents and takes the task to another place. -/
theorem QueueInv.goto (h : QueueInv s) (hk : s.task t = some k) (hruns : s.Runs t)
    {s' : QueueSystem D N} {ticks : ℕ} {pc : QueuePc}
    (htask : s'.task = Function.update s.task t (some ⟨k.call, ticks, pc⟩))
    (hlog : s'.log = s.log) (hplaced : Placed s'.q) (hcontents : s'.q.contents = s.q.contents)
    (hsuspender : s'.suspender = if suspends pc then some t else none)
    (hside : ∀ send, Side send s') (hrange : ∀ send, InRange N (lockOf send s'.q))
    (hheld : ∀ send, lockOf send s'.q ≠ queueUnlocked → locks send pc = true)
    (hlocked : ∀ send, locks send pc = true → 0 ≤ lockOf send s'.q)
    (harriving : pc = .place → avail k.call.isSend s'.q ≤ (lockOf k.call.isSend s'.q).toNat ∨
      (N : ℤ) ≤ lockOf k.call.isSend s'.q) : QueueInv s' := by
  refine h.update hruns htask ?_ hplaced ?_ hside hrange (fun send hne => ⟨_, rfl, hheld send hne⟩)
    ?_
  · rw [hsuspender]
    cases hpc : suspends pc <;> simp [hpc]
  · rw [hlog, hcontents]
    exact h.history
  · rintro k' ⟨⟩
    exact ⟨hlocked, harriving, (h.tasks t k hk).legal⟩

/-- INTERNAL: a step that leaves the queue, to a place where the task tries as before. -/
theorem QueueInv.goto_same (h : QueueInv s) (su : Option (Fin N)) (hk : s.task t = some k)
    (hruns : s.Runs t) {ticks : ℕ} {pc : QueuePc} (hretries : retries pc = retries k.pc)
    (hsuspender : su = if suspends pc then some t else none)
    (hlocks : ∀ send, locks send pc = locks send k.pc)
    (harriving : pc = .place → avail k.call.isSend s.q = 0) :
    QueueInv ({ s with suspender := su }.setTask t (some ⟨k.call, ticks, pc⟩)) := by
  refine h.goto hk hruns rfl rfl h.placed rfl hsuspender (fun send => ?_) h.range
    (fun send hne => (hlocks send).trans (locks_of_held h hk hruns hne))
    (fun send hpc => (h.tasks t k hk).locked send ((hlocks send).symm.trans hpc))
    fun hpc => Or.inl ?_
  · refine (h.side send).keep (Nat.le_refl _) rfl rfl (trying_keep (t := t) rfl ?_)
    rw [hk]
    simp only [tries, hretries]
  · exact (harriving hpc).trans_le (Nat.zero_le _)

/-- INTERNAL: a step that leaves the queue, to a place where the task will try. -/
theorem QueueInv.goto_retry (h : QueueInv s) (su : Option (Fin N)) (hk : s.task t = some k)
    (hruns : s.Runs t) {ticks : ℕ} {pc : QueuePc} (hretries : retries pc = true)
    (hsuspender : su = if suspends pc then some t else none)
    (hlocks : ∀ send, locks send pc = locks send k.pc) :
    QueueInv ({ s with suspender := su }.setTask t (some ⟨k.call, ticks, pc⟩)) := by
  have hplace : pc ≠ .place := by
    rintro rfl
    cases hretries
  refine h.goto hk hruns rfl rfl h.placed rfl hsuspender (fun send => ?_) h.range
    (fun send hne => (hlocks send).trans (locks_of_held h hk hruns hne))
    (fun send hpc => (h.tasks t k hk).locked send ((hlocks send).symm.trans hpc))
    fun hpc => absurd hpc hplace
  by_cases hsend : k.call.isSend = send
  · unfold Side
    rw [trying_update (s := s) (t := t) rfl, if_pos (by simp [tries, hsend, hretries])]
    exact WaitList.join (h.side send) t
  · refine (h.side send).keep (Nat.le_refl _) rfl rfl (trying_keep (t := t) rfl ?_)
    rw [hk, tries_other hsend]
    exact tries_other (k := ⟨k.call, ticks, pc⟩) hsend

/-- INTERNAL: a call that returns without having tried. -/
theorem QueueInv.finish (h : QueueInv s) (hk : s.task t = some k) (hruns : s.Runs t)
    (hretries : retries k.pc = false) (hlocks : ∀ send, locks send k.pc = false) :
    QueueInv ({ s with suspender := none }.setTask t none) := by
  refine h.update (x := none) hruns rfl rfl h.placed h.history (fun send => ?_) h.range
    (fun send hne => absurd (open_of_not_locks h hk hruns hlocks send) hne) nofun
  refine (h.side send).keep (Nat.le_refl _) rfl rfl (trying_keep (t := t) rfl ?_)
  rw [hk]
  simp [tries, hretries]

theorem placeOnList_perm {ι : Type} (uxPriority : ι → ℕ) (list : List ι) (t : ι) :
    (vTaskPlaceOnEventList uxPriority list t).Perm (t :: list) := by
  unfold vTaskPlaceOnEventList
  refine List.perm_middle.trans (List.Perm.cons t ?_)
  rw [List.takeWhile_append_dropWhile]

theorem unlockLoop_eq_drop {ι : Type} (lock : ℕ) (list : List ι) :
    unlockLoop lock list = list.drop lock := by
  induction lock generalizing list with
  | zero => rfl
  | succ lock ih =>
    cases list with
    | nil => rfl
    | cons t list => exact ih list

/-- INTERNAL: no more tasks wait than there are. -/
theorem waiting_length (h : QueueInv s) (send : Bool) : (waitingFor send s.q).length ≤ N := by
  have hcard := List.Nodup.length_le_card (h.side send).nodup
  rwa [Fintype.card_fin] at hcard

theorem QueueInv.lockQueue (h : QueueInv s) (hk : s.task t = some k) (hruns : s.Runs t)
    (hpc : k.pc = .lock) :
    QueueInv ({ s with q := s.q.prvLockQueue }.setTask t (some { k with pc := .timeOut })) := by
  have hlock : ∀ send, lockOf send s.q.prvLockQueue =
      if lockOf send s.q = -1 then 0 else lockOf send s.q := by
    intro send
    cases send <;> rfl
  have hsusp := suspender_of h hk (by rw [hpc]; rfl)
  refine h.goto hk hruns rfl rfl h.placed rfl hsusp (fun send => ?_)
    (fun send => ?_) (fun _ _ => rfl) (fun send _ => ?_) nofun
  · unfold Side
    rw [trying_keep (s := s) (t := t) rfl (by rw [hk]; simp [tries, retries, hpc])]
    have hlocked := WaitList.locked (h.side send)
    rw [← hlock] at hlocked
    cases send <;> exact hlocked
  · have hrange := h.range send
    show InRange N (lockOf send s.q.prvLockQueue)
    rw [hlock]
    unfold InRange at hrange ⊢
    split_ifs <;> omega
  · have hrange := (h.range send).1
    show 0 ≤ lockOf send s.q.prvLockQueue
    rw [hlock]
    split_ifs <;> omega

theorem QueueInv.place (h : QueueInv s) (hk : s.task t = some k) (hruns : s.Runs t)
    (hpc : k.pc = .place) (uxPriority : Fin N → ℕ) :
    QueueInv ((s.place uxPriority t k.call).setTask t (some { k with pc := .unlockTx .loop })) := by
  have hok := h.tasks t k hk
  have hlocked : ∀ send, 0 ≤ lockOf send s.q := fun send =>
    hok.locked send (by rw [hpc]; rfl)
  have hlock : ∀ send, lockOf send (s.place uxPriority t k.call).q = lockOf send s.q := by
    intro send
    unfold QueueSystem.place
    cases k.call.isSend <;> cases send <;> rfl
  have hq : (s.place uxPriority t k.call).task = s.task ∧
      (s.place uxPriority t k.call).log = s.log ∧
      (s.place uxPriority t k.call).suspender = s.suspender := by
    unfold QueueSystem.place
    split_ifs <;> exact ⟨rfl, rfl, rfl⟩
  have hplaced : Placed (s.place uxPriority t k.call).q := by
    unfold QueueSystem.place
    split_ifs <;> exact h.placed
  have hcontents : (s.place uxPriority t k.call).q.contents = s.q.contents := by
    unfold QueueSystem.place
    split_ifs <;> rfl
  have htask : ((s.place uxPriority t k.call).setTask t
      (some { k with pc := .unlockTx .loop })).task =
      Function.update s.task t (some ⟨k.call, k.xTicksToWait, .unlockTx .loop⟩) :=
    congrArg (fun f => Function.update f t _) hq.1
  refine h.goto hk hruns htask hq.2.1 hplaced hcontents
    (hq.2.2.trans (suspender_of h hk (by rw [hpc]; rfl))) (fun send => ?_) (fun send => ?_)
    (fun _ _ => rfl) (fun send _ => (hlocked send).trans (hlock send).ge) nofun
  · unfold Side
    rw [trying_update htask]
    by_cases hsend : k.call.isSend = send
    · have hnot : t ∉ trying send s := by
        rw [mem_trying, hk]
        simp [tries, hpc, retries]
      rw [if_pos (by simp [tries, hsend, retries])]
      have harriving := hok.arriving hpc
      rw [hsend] at harriving
      have hplace := fun (w : List (Fin N)) (hw : w.Perm _) =>
        WaitList.place (h.side send) hw hnot harriving
      subst hsend
      unfold QueueSystem.place
      cases hcall : k.call.isSend with
      | true =>
        rw [hcall] at hplace
        exact hplace _ (placeOnList_perm uxPriority _ t)
      | false =>
        rw [hcall] at hplace
        exact hplace _ (placeOnList_perm uxPriority _ t)
    · have hside := h.side send
      rw [if_neg (by simp [tries, hsend]), Finset.erase_eq_of_notMem (by
        rw [mem_trying, hk, tries_other hsend]
        exact Bool.false_ne_true)]
      unfold QueueSystem.place
      cases hcall : k.call.isSend <;> cases send <;>
        first | exact absurd hcall hsend | exact hside
  · show InRange N (lockOf send (s.place uxPriority t k.call).q)
    rw [hlock]
    exact h.range send

theorem QueueInv.unlockTx (h : QueueInv s) (hk : s.task t = some k) (hruns : s.Runs t)
    {exit : QueueExit} (hpc : k.pc = .unlockTx exit) :
    QueueInv ({ s with q := s.q.unlockTx }.setTask t
      (some { k with pc := .unlockRx exit })) := by
  have hrx := (h.tasks t k hk).locked true (by rw [hpc]; rfl)
  have htry : ∀ send, trying send ({ s with q := s.q.unlockTx }.setTask t
      (some { k with pc := .unlockRx exit })) = trying send s := by
    intro send
    refine trying_keep (t := t) rfl ?_
    rw [hk]
    cases exit <;> simp [tries, retries, hpc]
  have hsusp := suspender_of h hk (by rw [hpc]; rfl)
  refine h.goto hk hruns rfl rfl h.placed rfl hsusp (fun send => ?_)
    (fun send => ?_) (fun send hne => ?_) (fun send hlock => ?_) nofun
  · unfold Side
    rw [htry]
    cases send with
    | true => exact h.side true
    | false =>
      have hside := WaitList.unlock (h.side false) (waiting_length h false)
      rw [← unlockLoop_eq_drop] at hside
      exact hside
  · cases send with
    | true => exact h.range true
    | false => exact inRange_of_open rfl
  · cases send with
    | true => rfl
    | false => exact absurd rfl hne
  · cases send with
    | true => exact hrx
    | false => cases hlock

theorem QueueInv.unlockRx (h : QueueInv s) (hk : s.task t = some k) (hruns : s.Runs t)
    {exit : QueueExit} (hpc : k.pc = .unlockRx exit) :
    QueueInv ({ s with q := s.q.unlockRx }.setTask t (some { k with pc := .resume exit })) := by
  have htry : ∀ send, trying send ({ s with q := s.q.unlockRx }.setTask t
      (some { k with pc := .resume exit })) = trying send s := by
    intro send
    refine trying_keep (t := t) rfl ?_
    rw [hk]
    cases exit <;> simp [tries, retries, hpc]
  have hsusp := suspender_of h hk (by rw [hpc]; rfl)
  refine h.goto hk hruns rfl rfl h.placed rfl hsusp (fun send => ?_)
    (fun send => ?_) (fun send hne => ?_) (fun send hlock => by cases hlock) nofun
  · unfold Side
    rw [htry]
    cases send with
    | true =>
      have hside := WaitList.unlock (h.side true) (waiting_length h true)
      rw [← unlockLoop_eq_drop] at hside
      exact hside
    | false => exact h.side false
  · cases send with
    | true => exact inRange_of_open rfl
    | false => exact h.range false
  · refine absurd ?_ hne
    cases send with
    | true => rfl
    | false =>
      by_contra hne'
      have hlocks : locks false k.pc = true := locks_of_held h hk hruns hne'
      rw [hpc] at hlocks
      cases hlocks

theorem avail_of_mustWait {call : QueueCall} (h : s.mustWait call = true) :
    avail call.isSend s.q = 0 := by
  unfold QueueSystem.mustWait at h
  cases hcall : call.isSend with
  | true =>
    rw [hcall] at h
    show D.uxLength - s.q.uxMessagesWaiting = 0
    simp only [if_true, beq_iff_eq] at h
    omega
  | false =>
    rw [hcall] at h
    simpa [avail] using h

/-- INTERNAL: every step of a call keeps the invariant, and none leaves the storage area. -/
theorem QueueInv.taskStep (h : QueueInv s) (hk : s.task t = some k) (hruns : s.Runs t)
    (uxPriority : Fin N → ℕ) (elapsed : ℕ) :
    ∃ s', s.taskStep uxPriority t k elapsed = some s' ∧ QueueInv s' := by
  unfold QueueSystem.taskStep
  cases hpc : k.pc with
  | critical => exact h.attempt hk hruns hpc
  | suspend =>
    exact ⟨_, rfl,
      h.goto_same _ hk hruns (by rw [hpc]; rfl) rfl (fun send => by rw [hpc]; rfl) nofun⟩
  | lock => exact ⟨_, rfl, h.lockQueue hk hruns hpc⟩
  | timeOut =>
    have hsusp := suspender_of h hk (by rw [hpc]; rfl)
    generalize xTaskCheckForTimeOut elapsed k.xTicksToWait = answer
    obtain ⟨left, expired⟩ := answer
    refine ⟨_, rfl, ?_⟩
    cases expired <;>
      exact h.goto_same s.suspender hk hruns (by rw [hpc]; rfl) hsusp
        (fun send => by rw [hpc]; rfl) nofun
  | test =>
    have hsusp := suspender_of h hk (by rw [hpc]; rfl)
    refine ⟨_, rfl, ?_⟩
    cases hwait : s.mustWait k.call with
    | true =>
      exact h.goto_same s.suspender hk hruns (by rw [hpc]; rfl) hsusp
        (fun send => by rw [hpc]; rfl) fun _ => avail_of_mustWait hwait
    | false =>
      exact h.goto_retry s.suspender hk hruns rfl hsusp
        fun send => by rw [hpc]; rfl
  | place => exact ⟨_, rfl, h.place hk hruns hpc uxPriority⟩
  | unlockTx exit => exact ⟨_, rfl, h.unlockTx hk hruns hpc⟩
  | unlockRx exit => exact ⟨_, rfl, h.unlockRx hk hruns hpc⟩
  | resume exit =>
    cases exit with
    | loop =>
      exact ⟨_, rfl,
      h.goto_same _ hk hruns (by rw [hpc]; rfl) rfl (fun send => by rw [hpc]; rfl) nofun⟩
    | expired =>
      refine ⟨_, rfl, ?_⟩
      cases k.call.isSend with
      | true => exact h.finish hk hruns (by rw [hpc]; rfl) (fun send => by rw [hpc]; rfl)
      | false =>
        exact h.goto_same _ hk hruns (by rw [hpc]; rfl) rfl (fun send => by rw [hpc]; rfl) nofun
  | last =>
    have hsusp := (runs_free h hk hruns (by rw [hpc]; rfl)).1
    refine ⟨_, rfl, ?_⟩
    split_ifs
    · have hfinish := h.finish hk hruns (by rw [hpc]; rfl) (fun send => by rw [hpc]; rfl)
      rwa [← hsusp] at hfinish
    · exact h.goto_retry s.suspender hk hruns rfl hsusp
        fun send => by rw [hpc]; rfl

end Steps

end PicoDrone.Analysis
