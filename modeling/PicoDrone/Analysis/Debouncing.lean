import Mathlib.Data.List.Induction
import PicoDrone.Model.Irqs

/-!
# Debouncing of several buttons

The four branches of `irqs::callback` share one time. With the times of the latest accepted press
of each button kept beside it, each button gets the events it would get alone as long as the test
of every press says the same for the shared time as for the one of its own button, and no longer
(`independent_iff`).
-/

set_option autoImplicit false

namespace PicoDrone.Analysis

open PicoDrone.Model

/-- The four buttons. -/
inductive Button where
  | rotSw
  | button0
  | button1
  | button2
  deriving DecidableEq, Repr

def Button.gpio : Button → ℕ
  | .rotSw => rotSwPin
  | .button0 => Model.button0
  | .button1 => Model.button1
  | .button2 => Model.button2

def Button.event : Button → EventType
  | .rotSw => .buttonPressEvent
  | .button0 => .buttonPressEvent0
  | .button1 => .buttonPressEvent1
  | .button2 => .buttonPressEvent2

/-- A rising edge of a button: the time and the levels of the encoder when the handler runs. -/
structure Press where
  button : Button
  time : Word
  rotA : Bool
  rotB : Bool
  deriving DecidableEq, Repr

def Press.callback (p : Press) (s : Irqs) : Irqs :=
  s.callback p.button.gpio p.time p.rotA p.rotB

/-- The handler after some edges. -/
def debounce (presses : List Press) : Irqs := presses.foldl (fun s p => p.callback s) Irqs.start

/-- The events of a button. -/
def eventsOf (b : Button) (s : Irqs) : List EventType := s.sent.filter (· = b.event)

/-- The edges of a button. -/
def pressesOf (b : Button) (presses : List Press) : List Press :=
  presses.filter fun p => p.button = b

/-- Each button gets the events it gets when the edges of the others are removed. -/
def Independent (presses : List Press) : Prop :=
  ∀ b, eventsOf b (debounce presses) = eventsOf b (debounce (pressesOf b presses))

/-- The time of the latest accepted edge of a button, 0 before the first. -/
def latestOf (b : Button) (presses : List Press) : Word :=
  (presses.foldl (fun (r : Irqs × Word) p =>
    (p.callback r.1, if p.button = b ∧ r.1.Accepts p.time then p.time else r.2))
    (Irqs.start, 0#32)).2

/-- The test says the same for the time of the latest accepted edge and for the one of the latest
accepted edge of the same button. -/
def Separate (presses : List Press) (p : Press) : Prop :=
  (debounce presses).Accepts p.time ↔
    buttonDebounceDelayMs < p.time - latestOf p.button presses

/-! ## One edge -/

theorem callback_press (p : Press) (s : Irqs) :
    p.callback s = if s.Accepts p.time then
      { s.send p.button.event with lastButtonPressTime := p.time } else s := by
  obtain ⟨button, time, rotA, rotB⟩ := p
  cases button <;>
    simp [Press.callback, Irqs.callback, Irqs.buttonBranch, Button.gpio, Button.event, rotSwPin,
      rotAPin, rotBPin, Model.button0, Model.button1, Model.button2]

theorem event_inj {b b' : Button} : b.event = b'.event ↔ b = b' := by
  cases b <;> cases b' <;> decide

theorem debounce_concat (presses : List Press) (p : Press) :
    debounce (presses ++ [p]) = p.callback (debounce presses) := by
  simp [debounce, List.foldl_append]

theorem latestOf_concat (b : Button) (presses : List Press) (p : Press) :
    latestOf b (presses ++ [p]) =
      if p.button = b ∧ (debounce presses).Accepts p.time then p.time else latestOf b presses := by
  have hfst : ∀ (s : Irqs) (latest : Word), (presses.foldl (fun (r : Irqs × Word) p =>
      (p.callback r.1, if p.button = b ∧ r.1.Accepts p.time then p.time else r.2))
      (s, latest)).1 = presses.foldl (fun s p => p.callback s) s := by
    induction presses with
    | nil => intros; rfl
    | cons q presses ih => intro s latest; exact ih _ _
  simp only [latestOf, List.foldl_append, List.foldl_cons, List.foldl_nil]
  rw [hfst]
  rfl

theorem eventsOf_callback (b : Button) (p : Press) (s : Irqs) :
    eventsOf b (p.callback s) =
      eventsOf b s ++ if p.button = b ∧ s.Accepts p.time then [b.event] else [] := by
  rw [callback_press]
  by_cases hacc : s.Accepts p.time
  · by_cases hb : p.button = b
    · simp [hacc, hb, eventsOf, Irqs.send]
    · simp [hacc, hb, eventsOf, Irqs.send, event_inj]
  · simp [hacc]

theorem pressesOf_concat (b : Button) (presses : List Press) (p : Press) :
    pressesOf b (presses ++ [p]) =
      if p.button = b then pressesOf b presses ++ [p] else pressesOf b presses := by
  by_cases hb : p.button = b
  · simp [pressesOf, hb]
  · simp [pressesOf, hb]

/-! ## Sequences of edges -/

/-- INTERNAL: an edge of a button leaves the other buttons as they are, and its own events agree
if both runs accept it or neither does. -/
theorem independent_concat {presses : List Press} {p : Press} (h : Independent presses) :
    Independent (presses ++ [p]) ↔
      ((debounce presses).Accepts p.time ↔
        (debounce (pressesOf p.button presses)).Accepts p.time) := by
  constructor
  · intro hconcat
    have hown := hconcat p.button
    rw [pressesOf_concat, if_pos rfl, debounce_concat, debounce_concat, eventsOf_callback,
      eventsOf_callback, h p.button, List.append_cancel_left_eq] at hown
    by_cases hshared : (debounce presses).Accepts p.time
    · by_cases hsolo : (debounce (pressesOf p.button presses)).Accepts p.time
      · exact iff_of_true hshared hsolo
      · simp [hshared, hsolo] at hown
    · by_cases hsolo : (debounce (pressesOf p.button presses)).Accepts p.time
      · simp [hshared, hsolo] at hown
      · exact iff_of_false hshared hsolo
  · intro hagree b
    rw [pressesOf_concat, debounce_concat, eventsOf_callback, h b]
    by_cases hb : p.button = b
    · subst hb
      rw [if_pos rfl, debounce_concat, eventsOf_callback]
      simp only [true_and, hagree]
    · simp [hb]

/-- INTERNAL: the run with the edges of one button follows the latest accepted edge of it. -/
theorem solo_concat {presses : List Press} {p : Press}
    (h : ∀ b, (debounce (pressesOf b presses)).lastButtonPressTime = latestOf b presses)
    (hagree : (debounce presses).Accepts p.time ↔
      (debounce (pressesOf p.button presses)).Accepts p.time) (b : Button) :
    (debounce (pressesOf b (presses ++ [p]))).lastButtonPressTime =
      latestOf b (presses ++ [p]) := by
  rw [pressesOf_concat, latestOf_concat, ← h b]
  by_cases hb : p.button = b
  · subst hb
    rw [if_pos rfl, debounce_concat, callback_press]
    simp only [true_and, hagree]
    split
    · rfl
    · rfl
  · simp [hb]

/-- INTERNAL: in the run with the edges of one button the test looks at the latest of them. -/
theorem separate_iff {presses : List Press} {p : Press}
    (h : ∀ b, (debounce (pressesOf b presses)).lastButtonPressTime = latestOf b presses) :
    Separate presses p ↔ ((debounce presses).Accepts p.time ↔
      (debounce (pressesOf p.button presses)).Accepts p.time) := by
  rw [Separate, ← h p.button]
  rfl

/-- INTERNAL: as long as every edge is separate, the buttons are independent. -/
theorem independent_of_separate {presses : List Press}
    (h : ∀ before p, before ++ [p] <+: presses → Separate before p) :
    Independent presses ∧
      ∀ b, (debounce (pressesOf b presses)).lastButtonPressTime = latestOf b presses := by
  induction presses using List.reverseRecOn with
  | nil => exact ⟨fun _ => rfl, fun _ => rfl⟩
  | append_singleton presses p ih =>
    obtain ⟨hind, hsolo⟩ := ih fun before q hq => h before q (hq.trans (List.prefix_append _ _))
    have hagree := (separate_iff hsolo).mp (h presses p List.prefix_rfl)
    exact ⟨(independent_concat hind).mpr hagree, solo_concat hsolo hagree⟩

/-- CONTRACT: for every sequence of edges of the four buttons, each button gets at every moment
the events it gets when the edges of the others are removed, exactly if the test of every edge
says the same for the latest accepted edge as for the latest accepted edge of its own button.
SOURCE: SwIRQ/irqs.cpp:16-51 -/
theorem independent_iff (presses : List Press) :
    (∀ before, before <+: presses → Independent before) ↔
      ∀ before p, before ++ [p] <+: presses → Separate before p := by
  constructor
  · intro h
    induction presses using List.reverseRecOn with
    | nil =>
      intro before p hinit
      simp at hinit
    | append_singleton presses q ih =>
      have hsep := ih fun before hb => h before (hb.trans (List.prefix_append _ _))
      obtain ⟨hind, hsolo⟩ := independent_of_separate hsep
      intro before p hinit
      obtain hlast | hearlier := List.prefix_concat_iff.mp hinit
      · obtain ⟨rfl, rfl⟩ := List.append_singleton_inj.mp hlast
        exact (separate_iff hsolo).mpr ((independent_concat hind).mp (h _ List.prefix_rfl))
      · exact hsep before p hearlier
  · intro h before hinit
    exact (independent_of_separate fun b p hb => h b p (hb.trans hinit)).1

/-- A second button is pressed 100 ms after the first: its press is lost. -/
theorem second_button_lost : ¬ ∀ presses, Independent presses := by
  intro h
  have hlost := h [⟨.button0, 1000#32, false, false⟩, ⟨.button1, 1100#32, false, false⟩] .button1
  exact absurd hlost (by decide)

end PicoDrone.Analysis
