import PicoDrone.Analysis.I2cEager
import PicoDrone.Model.I2cCalls

/-!
# Notifications across calls

Within a call every notification comes with a STOP that `isr` has seen since the call
programmed the controller. Nothing takes a notification away that was already there when
the call began. So every wait ends with the STOP of its own call exactly as long as no task
enters `transaction` with a notification pending (`notified_by_own_stop_iff`).
-/

set_option autoImplicit false

namespace PicoDrone.Analysis

open PicoDrone.Library PicoDrone.Model

/-- The call in progress was programmed without a pending STOP; a notification it can take, the
one that has ended its wait, and every count it returns but zero came after `isr` had seen
a STOP since. -/
structure OwnStop {T : Type} (c : ActiveCall T) : Prop where
  programmed : c.programmed.stopDet = false
  notified : c.transaction.phase = .waiting → c.transaction.drv.notified = true →
    c.transaction.drv.log.stopSeen = true
  woken : c.transaction.phase = .woken → c.transaction.drv.log.stopSeen = true
  count : ∀ v, c.transaction.phase = .counted v ∨ c.transaction.phase = .returned v →
    c.transaction.timedOut = false ∨ v ≠ 0 → c.transaction.drv.log.stopSeen = true

/-- The call in progress, if there is one. -/
def NotifiedByOwnStop {T : Type} (s : Calls T) : Prop := ∀ c, s.call = some c → OwnStop c

/-- A task enters `transaction` with no notification pending. -/
def EntersClean {T : Type} (s : Calls T) : CallsEvent T → Prop
  | .enter task _ => s.pending task = false
  | _ => True

/-! ## One call -/

variable {σ : Type} {R : I2cHw σ}

/-- INTERNAL: disabling the controller drops a pending STOP, and none is there before the first
command.
SOURCE: i2c/PicoI2C.cpp:139-141 -/
theorem program_stopDet (args : CallArgs) (d : PicoI2C Controller) :
    (program args.hw args.addr args.wbuffer args.wlength args.rlength d).hw.stopDet = false := by
  have hquiet : ∀ (q : ℕ → ℕ) (c : Controller), c.shift = .idle ∧ c.txFifo = [] ∧
      c.stopDet = false → (c.advance args.slave q).shift = .idle ∧
        (c.advance args.slave q).txFifo = [] ∧ (c.advance args.slave q).stopDet = false := by
    intro q c hc
    refine advance_induction (fun c => c.shift = .idle ∧ c.txFifo = [] ∧ c.stopDet = false)
      (fun _ _ h => h) (fun c h => ?_) hc
    rw [tick_quiet ⟨h.1, h.2.1⟩]
    exact h
  exact (hquiet args.sched _ (hquiet args.sched _ ⟨rfl, rfl, rfl⟩)).2.2

/-- INTERNAL: an event of a call keeps what has to be shown.
SOURCE: i2c/PicoI2C.cpp:155-168 -/
theorem event_ownStop {T : Type} {c : ActiveCall T} {t : Transaction Controller} {e : Event}
    (h : OwnStop c) (hs : CallStep c.args.hw c.transaction e t) :
    OwnStop { c with transaction := t } := by
  cases hs with
  | isr hirq hmask =>
    have hsteps := isr_steps (R := c.args.hw) c.transaction.drv
    have hkeep : c.transaction.drv.log.stopSeen = true →
        (isr c.args.hw c.transaction.drv).log.stopSeen = true :=
      hsteps.invariant (fun d => d.log.stopSeen = true) (fun _ _ h hs => step_stopSeen hs h)
    exact ⟨h.programmed, fun hwait => hsteps.invariant _ (fun _ _ => step_notified)
      (h.notified hwait), fun hw => hkeep (h.woken hw), fun v hv hc => hkeep (h.count v hv hc)⟩
  | take hwait hnote =>
    refine ⟨h.programmed, fun hw => (by cases hw), fun _ => h.notified hwait hnote, ?_⟩
    rintro v (hv | hv) <;> cases hv
  | timeout hwait hnote =>
    refine ⟨h.programmed, fun hw => (by cases hw), fun hw => (by cases hw), ?_⟩
    rintro v (hv | hv) (hc | hc) <;> cases hv
    · cases hc
    · exact absurd rfl hc
  | count hwoken =>
    exact ⟨h.programmed, fun hw => (by cases hw), fun hw => (by cases hw),
      fun _ _ _ => h.woken hwoken⟩
  | irqOff v hv =>
    refine ⟨h.programmed, fun hw => (by cases hw), fun hw => (by cases hw), ?_⟩
    rintro v' (hv' | hv') hc <;> cases hv'
    exact h.count v (Or.inl hv) hc

/-! ## Runs -/

variable {T : Type} [DecidableEq T]

/-- INTERNAL: a step keeps what has to be shown exactly if it is no entry with a pending
notification. -/
theorem calls_step_iff (s : Calls T) (l : CallsEvent T) (t : Calls T)
    (h : NotifiedByOwnStop s) (hstep : s.step l = some t) :
    NotifiedByOwnStop t ↔ EntersClean s l := by
  cases l with
  | enter task args =>
    simp only [Calls.step, Option.ite_none_right_eq_some, Option.some_inj] at hstep
    obtain ⟨-, rfl⟩ := hstep
    have hnotified := beginTransaction_keeps (R := args.hw) (fun d => d.notified)
      (fun _ _ => rfl) (fun _ => rfl) (fun _ => rfl) (fun _ => rfl) args.addr args.wbuffer
      args.wlength args.rlength (s.drvFor task)
    have hlog := beginTransaction_keeps (R := args.hw) (fun d => d.log.stopSeen)
      (fun _ _ => rfl) (fun _ => rfl) (fun _ => rfl) (fun _ => rfl) args.addr args.wbuffer
      args.wlength args.rlength (s.drvFor task)
    constructor
    · intro hown
      have hcall := (hown _ rfl).notified rfl
      change s.pending task = false
      rw [Bool.eq_false_iff]
      intro hpending
      have := hcall (hnotified.trans hpending)
      rw [show (s.activeCall task args).transaction.drv.log.stopSeen = false from hlog] at this
      cases this
    · intro hclean c hc
      obtain rfl := Option.some.inj hc
      refine ⟨program_stopDet args _, fun _ hnote => ?_, fun hw => (by cases hw), ?_⟩
      · have hpending : s.pending task = true := hnotified.symm.trans hnote
        rw [show s.pending task = false from hclean] at hpending
        cases hpending
      · rintro v (hv | hv) <;> cases hv
  | event e =>
    simp only [Calls.step, Option.bind_eq_some_iff, Option.map_eq_some_iff] at hstep
    obtain ⟨c, hc, u, hu, rfl⟩ := hstep
    refine ⟨fun _ => trivial, fun _ c' hc' => ?_⟩
    obtain rfl := Option.some.inj hc'
    exact event_ownStop (h c hc) (callStep_iff.mp hu)
  | leave =>
    simp only [Calls.step, Option.bind_eq_some_iff] at hstep
    obtain ⟨c, -, hleave⟩ := hstep
    refine ⟨fun _ => trivial, fun _ => ?_⟩
    split at hleave
    · obtain rfl := Option.some.inj hleave
      exact fun c' hc' => by cases hc'
    · cases hleave

/-- CONTRACT: in every run of calls by any number of tasks, with every device, every timing of
the controller and timeouts anywhere, the notification that ends a wait was posted for a STOP
that `isr` saw after the same call programmed the controller, and every call that returns a
count other than zero has seen one, exactly if no task enters `transaction` with a
notification pending.
SOURCE: i2c/PicoI2C.cpp:134-169, i2c/PicoI2C.cpp:216-220 -/
theorem notified_by_own_stop_iff (c : Controller) (ls : List (CallsEvent T)) (s : Calls T)
    (hrun : callsMachine.run (Calls.start c) ls = some s) :
    callsMachine.Always NotifiedByOwnStop (Calls.start c : Calls T) ls ↔
      callsMachine.Along EntersClean (Calls.start c : Calls T) ls := by
  refine callsMachine.always_iff_along (fun _ => True) NotifiedByOwnStop EntersClean
    (fun _ _ _ _ _ => trivial) (fun s l t _ h hstep => calls_step_iff s l t h hstep) trivial ?_ hrun
  exact fun c' hc' => by cases hc'

/-- A write of one byte to a device that acknowledges everything. -/
def oneByte (sched : ℕ → ℕ) : CallArgs := ⟨willingSlave, sched, 0x50#8, fun _ => 0x61#8, 1, 0⟩

/-- Two calls of one task that both wait for their STOP. -/
theorem notified_by_own_stop_iff_twice :
    callsMachine.Always NotifiedByOwnStop (Calls.start (Controller.reset 0) : Calls ℕ)
      [.enter 0 (oneByte eager), .event .isr, .event .take, .event .count, .event .irqOff, .leave,
        .enter 0 (oneByte eager), .event .isr, .event .take] := by
  have hrun : (callsMachine.run (Calls.start (Controller.reset 0) : Calls ℕ)
      [.enter 0 (oneByte eager), .event .isr, .event .take, .event .count, .event .irqOff, .leave,
        .enter 0 (oneByte eager), .event .isr, .event .take]).isSome = true := by rfl
  obtain ⟨s, hs⟩ := Option.isSome_iff_exists.mp hrun
  refine (notified_by_own_stop_iff (Controller.reset 0) _ s hs).mpr ?_
  apply callsMachine.along_cons rfl rfl
  apply callsMachine.along_cons trivial rfl
  apply callsMachine.along_cons trivial rfl
  apply callsMachine.along_cons trivial rfl
  apply callsMachine.along_cons trivial rfl
  apply callsMachine.along_cons trivial rfl
  apply callsMachine.along_cons rfl rfl
  apply callsMachine.along_cons trivial rfl
  apply callsMachine.along_cons trivial rfl
  trivial

/-- The first call times out, the handler then sees its STOP and notifies the task. The second
call takes this notification and returns 1 before any command is executed on the bus. -/
theorem stale_notification :
    ((callsMachine.run (Calls.start (Controller.reset 0) : Calls ℕ)
        [.enter 0 (oneByte eager), .event .timeout, .event .isr, .event .irqOff, .leave,
          .enter 0 (oneByte fun _ => 0), .event .take, .event .count, .event .irqOff]).bind
      Calls.call).map (fun c => (c.transaction.phase, c.transaction.drv.log.stopSeen,
        c.transaction.drv.hw.executed)) = some (.returned 1, false, []) := by
  rfl

end PicoDrone.Analysis
