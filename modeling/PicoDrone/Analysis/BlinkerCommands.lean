import PicoDrone.Model.Blinker

/-!
# The blinker and its last command

A command is carried by the one word of the notification, in which 0 stands for no notification
and 0xFFFFFFFF for `off`, and its delay goes through a product of 32 bits. Over every interleaving
of calls with the steps of the task, what the task does once it has taken the last call is what
that call asked for, if it was `off` or `on` with a delay between 1 and 4294967 milliseconds, and
for no other delay (`command_obeyed_iff`).
-/

set_option autoImplicit false

namespace PicoDrone.Analysis

open PicoDrone.Library PicoDrone.Model PicoDrone.Model.Blinker

/-- What a command asks for once the task has taken it: the LED is off, or every wait lasts the
delay in ticks and the LED changes when one ends. -/
def Obeys : Command → Blinker → Prop
  | .off, b => b.led = false
  | .on delay, b => (∀ ticks, b.phase.ticks = some ticks → ticks = delay.toNat) ∧
      ∀ ticks, b.phase = .ready ticks → b.resume.led = !b.led

/-- A command that the word and the product can carry. -/
def Executable : Command → Prop
  | .off => True
  | .on delay => 1 ≤ delay.toNat ∧ delay.toNat ≤ 4294967

/-! ## One wait -/

theorem pdMsToTicks_of_le {ms : Word} (h : ms.toNat ≤ 4294967) : pdMsToTicks ms = ms.toNat := by
  rw [pdMsToTicks, u32_of_fits (by omega) (by omega)]
  omega

theorem pdMsToTicks_le (ms : Word) : pdMsToTicks ms ≤ 4294967 := by
  unfold pdMsToTicks u32
  omega

theorem check_ticks (b : Blinker) : b.check.phase.ticks = some (pdMsToTicks b.delay) := by
  unfold Blinker.check
  simp only []
  split
  · rfl
  · rfl

theorem handle_timeout (b : Blinker) :
    handle 0#32 b = { b with led := if b.on then !b.led else false } := by
  unfold handle
  simp only [if_true]
  split
  · rfl
  · rfl

theorem handle_off (b : Blinker) :
    handle Command.off.word b = { b with on := false, led := false } := rfl

theorem handle_on {delay : Word} (h : Executable (.on delay)) (b : Blinker) :
    handle (Command.on delay).word b = { b with delay := delay, on := true, led := !b.led } := by
  obtain ⟨hpos, hle⟩ := h
  have hzero : delay ≠ 0#32 := by
    rintro rfl
    exact absurd hpos (by decide)
  have hoff : delay ≠ 0xFFFFFFFF#32 := by
    rintro rfl
    exact absurd hle (by decide)
  simp [handle, Command.word, hzero, hoff]

/-- INTERNAL: the body of the loop changes the LED and what it goes by. -/
theorem handle_frame (cmd : Word) (b : Blinker) :
    (handle cmd b).last = b.last ∧ (handle cmd b).taken = b.taken ∧
      (handle cmd b).notified = b.notified ∧ (handle cmd b).phase = b.phase := by
  by_cases hzero : cmd = 0#32
  · rw [hzero, handle_timeout]
    exact ⟨rfl, rfl, rfl, rfl⟩
  · by_cases hoff : cmd = 0xFFFFFFFF#32
    · simp [handle, hoff]
    · simp [handle, hzero, hoff]

/-! ## Runs -/

/-- The task follows a command. -/
def InForce : Command → Blinker → Prop
  | .off, b => b.on = false ∧ b.led = false
  | .on delay, b => b.on = true ∧ b.delay = delay ∧
      ∀ ticks, b.phase.ticks = some ticks → ticks = delay.toNat

/-- The word of the last call is there until the task has taken it, and then the task follows the
call. -/
def Tracked (b : Blinker) : Prop :=
  ∀ c, b.last = some c → Executable c →
    if b.taken then b.notified = 0#32 ∧ InForce c b else b.notified = c.word

theorem InForce.obeys {c : Command} {b : Blinker} (h : InForce c b) (hnone : b.notified = 0#32) :
    Obeys c b := by
  cases c with
  | off => exact h.2
  | on delay =>
    refine ⟨h.2.2, fun ticks _ => ?_⟩
    rw [Blinker.resume, hnone, handle_timeout]
    simp [h.1]

/-- INTERNAL: what the task keeps while it waits. -/
theorem InForce.of_wait {c : Command} {b b' : Blinker} (h : InForce c b) (hon : b'.on = b.on)
    (hdelay : b'.delay = b.delay) (hled : b'.led = b.led)
    (hticks : ∀ ticks, b'.phase.ticks = some ticks →
      b.phase.ticks = some ticks ∨ ticks = pdMsToTicks b.delay) (hexec : Executable c) :
    InForce c b' := by
  cases c with
  | off => exact ⟨hon.trans h.1, hled.trans h.2⟩
  | on delay =>
    refine ⟨hon.trans h.1, hdelay.trans h.2.1, fun ticks hnow => ?_⟩
    obtain hsame | hnew := hticks ticks hnow
    · exact h.2.2 ticks hsame
    · rw [hnew, h.2.1, pdMsToTicks_of_le hexec.2]

/-- INTERNAL: a step of the task that does not take the word. -/
theorem Tracked.of_wait {b b' : Blinker} (h : Tracked b) (hlast : b'.last = b.last)
    (htaken : b'.taken = b.taken) (hword : b'.notified = b.notified) (hon : b'.on = b.on)
    (hdelay : b'.delay = b.delay) (hled : b'.led = b.led)
    (hticks : ∀ ticks, b'.phase.ticks = some ticks →
      b.phase.ticks = some ticks ∨ ticks = pdMsToTicks b.delay) : Tracked b' := by
  intro c hc hexec
  have hnow := h c (hlast ▸ hc) hexec
  rw [htaken, hword]
  split
  · rename_i htrue
    rw [if_pos htrue] at hnow
    exact ⟨hnow.1, hnow.2.of_wait hon hdelay hled hticks hexec⟩
  · rename_i hfalse
    rwa [if_neg hfalse] at hnow

/-- INTERNAL: the task takes the word.
SOURCE: blinker.cpp:29-46 -/
theorem Tracked.resume {b : Blinker} (h : Tracked b) : Tracked b.resume := by
  obtain ⟨hlast, htaken, hnotified, hphase⟩ := handle_frame b.notified
    { b with notified := 0#32, phase := .running, taken := true }
  change b.resume.last = b.last at hlast
  change b.resume.taken = true at htaken
  change b.resume.notified = 0#32 at hnotified
  change b.resume.phase = .running at hphase
  intro c hc hexec
  have hnow := h c (hlast ▸ hc) hexec
  rw [if_pos htaken]
  refine ⟨hnotified, ?_⟩
  cases hb : b.taken with
  | true =>
    -- a wait has ended without a new call
    rw [if_pos hb] at hnow
    obtain ⟨hword, hforce⟩ := hnow
    rw [Blinker.resume, hword, handle_timeout]
    cases c with
    | off => exact ⟨hforce.1, by simp [hforce.1]⟩
    | on delay => exact ⟨hforce.1, hforce.2.1, fun ticks hticks => by cases hticks⟩
  | false =>
    -- the last call is taken
    rw [if_neg (by simp [hb])] at hnow
    rw [Blinker.resume, hnow]
    cases c with
    | off =>
      rw [handle_off]
      exact ⟨rfl, rfl⟩
    | on delay =>
      rw [handle_on hexec]
      exact ⟨rfl, rfl, fun ticks hticks => by cases hticks⟩

theorem step_tracked {b b' : Blinker} {e : Event} (h : Tracked b)
    (hs : machine.step b e = some b') : Tracked b' := by
  cases e with
  | call c =>
    obtain rfl := Option.some.inj hs
    intro c' hc' _
    obtain rfl := Option.some.inj hc'
    rfl
  | check =>
    simp only [machine, Option.ite_none_right_eq_some] at hs
    obtain rfl := Option.some.inj hs.2
    refine h.of_wait rfl rfl rfl rfl rfl rfl fun ticks hticks => Or.inr ?_
    rw [check_ticks] at hticks
    exact (Option.some.inj hticks).symm
  | expire =>
    simp only [machine] at hs
    split at hs
    · rename_i ticks hphase
      obtain rfl := Option.some.inj hs
      refine h.of_wait rfl rfl rfl rfl rfl rfl fun ticks' hticks => Or.inl ?_
      rw [hphase]
      exact hticks
    · cases hs
  | resume =>
    simp only [machine] at hs
    split at hs
    · obtain rfl := Option.some.inj hs
      exact h.resume
    · cases hs

/-- INTERNAL: in every run, a command that can be carried is obeyed once it is taken. -/
theorem run_obeys {c : Command} (hexec : Executable c) {es : List Event} {b : Blinker}
    (hrun : machine.run construct es = some b) (hlast : b.last = some c) (htaken : b.taken = true) :
    Obeys c b := by
  have htracked := machine.run_invariant Tracked (fun _ _ _ h hs => step_tracked h hs)
    (fun c hc => by cases hc) hrun
  have hnow := htracked c hlast hexec
  rw [if_pos htaken] at hnow
  exact hnow.2.obeys hnow.1

/-- CONTRACT: a command is obeyed in every run of the blinker, once the task has taken it and as
long as it is the last call, exactly if it is `off`, or `on` with a delay between 1 and 4294967
milliseconds.
SOURCE: blinker.cpp:18-48 -/
theorem command_obeyed_iff (c : Command) :
    (∀ (es : List Event) (b : Blinker), machine.run construct es = some b → b.last = some c →
      b.taken = true → Obeys c b) ↔ Executable c := by
  constructor
  · intro h
    cases c with
    | off => trivial
    | on delay =>
      -- the first call of all, made while the task is in its first wait
      let woken : Blinker := ⟨false, 300#32, false, delay, .ready 300, some (.on delay), false⟩
      have hwoken : machine.run construct [.check, .call (.on delay)] = some woken := rfl
      obtain ⟨hlast, htaken, -, hphase⟩ := handle_frame delay
        { woken with notified := 0#32, phase := .running, taken := true }
      have hrun : machine.run woken [.resume, .check] = some woken.resume.check :=
        machine.run_cons_eq_some.mpr ⟨woken.resume, rfl, machine.run_cons_eq_some.mpr
          ⟨woken.resume.check, if_pos hphase, rfl⟩⟩
      have hwait := (h _ _ (machine.run_append hwoken hrun) hlast htaken).1 _ (check_ticks _)
      have hle := pdMsToTicks_le woken.resume.delay
      refine ⟨Nat.one_le_iff_ne_zero.mpr fun hzero => ?_, by omega⟩
      -- a word of zero ends the wait and is taken for no word: the next wait has the old delay
      have hword : delay = 0#32 := BitVec.eq_of_toNat_eq hzero
      rw [Blinker.resume, show woken.notified = 0#32 from hword, handle_timeout, hzero] at hwait
      change pdMsToTicks 300#32 = 0 at hwait
      exact absurd hwait (by decide)
  · intro hexec es b hrun hlast htaken
    exact run_obeys hexec hrun hlast htaken

/-- A delay of 5000 seconds: the task waits 705032 ticks. -/
theorem long_delay_wraps :
    ¬ ∀ (c : Command) (es : List Event) (b : Blinker), machine.run construct es = some b →
      b.last = some c → b.taken = true → Obeys c b := by
  intro h
  have hobeys := h (.on 5000000#32) [.call (.on 5000000#32), .check, .resume, .check]
    ⟨true, 5000000#32, true, 0#32, .blocked 705032, some (.on 5000000#32), true⟩ (by decide) rfl rfl
  exact absurd (hobeys.1 705032 rfl) (by decide)

end PicoDrone.Analysis
