import Mathlib.Algebra.Order.Group.Abs
import Mathlib.Algebra.Order.Ring.Int
import Mathlib.Data.List.Induction
import PicoDrone.Model.Irqs

/-!
# Rotary decoding

The handler sees the rising edges of contact A, and the level of B tells forward from backward. A
falling edge is not seen, so a step back over an edge does not take its event back
(`rocking_drifts`). The difference of the events follows the position up to the steps over an edge
of A that are not taken back, counted at either of the two edges (`decoding_follows`).
-/

set_option autoImplicit false

namespace PicoDrone.Analysis

open PicoDrone.Model

/-- The encoder after a walk. -/
def walk (position : ℤ) (steps : List (Bool × Word)) : Encoder :=
  steps.foldl Encoder.move ⟨position, Irqs.start, []⟩

/-- The clockwise events less the counter-clockwise ones. -/
def turns (s : Irqs) : ℤ :=
  s.sent.count .rotaryEncoderCwEvent - s.sent.count .rotaryEncoderCcwEvent

/-- The number of changes of A of a kind. -/
def changes (edge : AEdge) (e : Encoder) : ℤ := e.edges.count edge

/-- How many of the places where A rises forward lie between 0 and a position. -/
def risesBelow (position : ℤ) : ℤ := (position + 3) / 4

/-- How many of the places where A falls forward do. -/
def fallsBelow (position : ℤ) : ℤ := (position + 1) / 4

/-! ## One step -/

theorem turns_callback (currentTime : Word) (rotB : Bool) (s : Irqs) :
    turns (s.callback rotAPin currentTime true rotB) = turns s + if rotB then -1 else 1 := by
  cases rotB with
  | true =>
    simp [turns, Irqs.callback, Irqs.buttonBranch, Irqs.send, rotSwPin, rotAPin, rotBPin, button0,
      button1, button2]
    omega
  | false =>
    simp [turns, Irqs.callback, Irqs.buttonBranch, Irqs.send, rotSwPin, rotAPin, rotBPin, button0,
      button1, button2]
    omega

/-- The change of A in a step from a position. -/
def edgeOf (position : ℤ) (forward : Bool) : Option AEdge :=
  if forward then
    if position % 4 = 0 then some .forwardRise
    else if position % 4 = 2 then some .forwardFall else none
  else
    if position % 4 = 1 then some .backwardFall
    else if position % 4 = 3 then some .backwardRise else none

theorem contacts_zero {p : ℤ} (h : p % 4 = 0) : contacts p = (false, false) := by
  simp [contacts, h]

theorem contacts_one {p : ℤ} (h : p % 4 = 1) : contacts p = (true, false) := by
  simp [contacts, h]

theorem contacts_two {p : ℤ} (h : p % 4 = 2) : contacts p = (true, true) := by
  simp [contacts, h]

theorem contacts_three {p : ℤ} (h : p % 4 = 3) : contacts p = (false, true) := by
  simp [contacts, h]

/-- INTERNAL: a step over an edge of A, and the event that a rising one gives.
SOURCE: SwIRQ/irqs.cpp:8-14 53-64 -/
theorem move_edge (e : Encoder) (forward : Bool) (time : Word) :
    (e.move (forward, time)).edges = e.edges ++ (edgeOf e.position forward).toList ∧
      turns (e.move (forward, time)).irqs = turns e.irqs +
        match edgeOf e.position forward with
        | some .forwardRise => 1
        | some .backwardRise => -1
        | _ => 0 := by
  have hphase : e.position % 4 = 0 ∨ e.position % 4 = 1 ∨ e.position % 4 = 2 ∨
      e.position % 4 = 3 := by omega
  cases forward with
  | true =>
    obtain h | h | h | h := hphase
    · have hnow := contacts_one (p := e.position + 1) (by omega)
      simp [Encoder.move, edgeOf, contacts_zero h, hnow, h, AEdge.of, turns_callback]
    · have hnow := contacts_two (p := e.position + 1) (by omega)
      simp [Encoder.move, edgeOf, contacts_one h, hnow, h]
    · have hnow := contacts_three (p := e.position + 1) (by omega)
      simp [Encoder.move, edgeOf, contacts_two h, hnow, h, AEdge.of]
    · have hnow := contacts_zero (p := e.position + 1) (by omega)
      simp [Encoder.move, edgeOf, contacts_three h, hnow, h]
  | false =>
    obtain h | h | h | h := hphase
    · have hnow := contacts_three (p := e.position - 1) (by omega)
      simp [Encoder.move, edgeOf, contacts_zero h, hnow, h]
    · have hnow := contacts_zero (p := e.position - 1) (by omega)
      simp [Encoder.move, edgeOf, contacts_one h, hnow, h, AEdge.of]
    · have hnow := contacts_one (p := e.position - 1) (by omega)
      simp [Encoder.move, edgeOf, contacts_two h, hnow, h]
    · have hnow := contacts_two (p := e.position - 1) (by omega)
      simp [Encoder.move, edgeOf, contacts_three h, hnow, h, AEdge.of, turns_callback]

theorem move_places (e : Encoder) (forward : Bool) (time : Word) :
    risesBelow (e.move (forward, time)).position = risesBelow e.position +
        (match edgeOf e.position forward with
        | some .forwardRise => 1
        | some .backwardFall => -1
        | _ => 0) ∧
      fallsBelow (e.move (forward, time)).position = fallsBelow e.position +
        match edgeOf e.position forward with
        | some .forwardFall => 1
        | some .backwardRise => -1
        | _ => 0 := by
  have hphase : e.position % 4 = 0 ∨ e.position % 4 = 1 ∨ e.position % 4 = 2 ∨
      e.position % 4 = 3 := by omega
  unfold risesBelow fallsBelow
  cases forward with
  | true =>
    change (e.position + 1 + 3) / 4 = _ ∧ (e.position + 1 + 1) / 4 = _
    obtain h | h | h | h := hphase <;> simp [edgeOf, h] <;> omega
  | false =>
    change (e.position - 1 + 3) / 4 = _ ∧ (e.position - 1 + 1) / 4 = _
    obtain h | h | h | h := hphase <;> simp [edgeOf, h] <;> omega

/-! ## Walks -/

/-- The events count the rises of A, forward and backward, and the position counts the steps over
either of its edges. -/
def Counted (start : ℤ) (e : Encoder) : Prop :=
  turns e.irqs = changes .forwardRise e - changes .backwardRise e ∧
    risesBelow e.position - risesBelow start =
      changes .forwardRise e - changes .backwardFall e ∧
    fallsBelow e.position - fallsBelow start =
      changes .forwardFall e - changes .backwardRise e

theorem move_counted {start : ℤ} {e : Encoder} (h : Counted start e) (step : Bool × Word) :
    Counted start (e.move step) := by
  obtain ⟨forward, time⟩ := step
  obtain ⟨hturns, hrises, hfalls⟩ := h
  obtain ⟨hedges, hevent⟩ := move_edge e forward time
  obtain ⟨hrises', hfalls'⟩ := move_places e forward time
  unfold changes at hturns hrises hfalls
  unfold Counted changes
  rw [hevent, hrises', hfalls', hedges]
  cases edgeOf e.position forward with
  | none =>
    simp only [Option.toList_none, List.append_nil]
    omega
  | some edge =>
    cases edge <;> simp [List.count_append] <;> omega

theorem walk_counted (start : ℤ) (steps : List (Bool × Word)) :
    Counted start (walk start steps) := by
  induction steps using List.reverseRecOn with
  | nil => simp [Counted, walk, turns, changes, Irqs.start]
  | append_singleton steps step ih =>
    rw [walk, List.foldl_append]
    exact move_counted ih step

/-- CONTRACT: over every walk, the difference of the events follows the net number of cycles by less
than one, once the backward steps over the falling edge are taken off and those over the rising
edge are added. It also does with the forward steps over the two edges.
SOURCE: SwIRQ/irqs.cpp:8-14 53-64 -/
theorem decoding_follows (start : ℤ) (steps : List (Bool × Word)) :
    |4 * (turns (walk start steps).irqs - (changes .backwardFall (walk start steps) -
        changes .backwardRise (walk start steps))) - ((walk start steps).position - start)| < 4 ∧
      |4 * (turns (walk start steps).irqs - (changes .forwardRise (walk start steps) -
        changes .forwardFall (walk start steps))) - ((walk start steps).position - start)| < 4 := by
  obtain ⟨hturns, hrises, hfalls⟩ := walk_counted start steps
  unfold risesBelow at hrises
  unfold fallsBelow at hfalls
  rw [abs_lt, abs_lt]
  omega

/-- Rocking three times over the edge where A rises: three clockwise events and no turn. -/
theorem rocking_drifts :
    ¬ ∀ (start : ℤ) (steps : List (Bool × Word)),
      |4 * turns (walk start steps).irqs - ((walk start steps).position - start)| ≤ 4 := by
  intro h
  have hrock := h 0 [(true, 0#32), (false, 1#32), (true, 2#32), (false, 3#32), (true, 4#32),
    (false, 5#32)]
  exact absurd hrock (by decide)

end PicoDrone.Analysis
