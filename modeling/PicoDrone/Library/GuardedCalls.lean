import Mathlib.Data.Option.Basic
import PicoDrone.Library.Machine

/-!
# Calls that hold a lock

Tasks call operations on a shared store. An operation is a program of actions on the store
and delays. It runs under the lock of its object, and every single action of it under one
lock that all objects share: the action is written into a controller first and carried out
from there afterwards. An action touches what belongs to its object alone.

Whatever the tasks do, the results of the calls are those of the same calls one after the
other, in the order in which they return (`run_replays`).
-/

set_option autoImplicit false
set_option linter.unusedSectionVars false

namespace PicoDrone.Library

/-! ## Programs -/

/-- A program with actions `ι` that answer in `α`, and results `ρ`. `fault` has no behaviour. -/
inductive Prog (ι α ρ : Type) where
  | done (r : ρ)
  | fault
  | delay (p : Prog ι α ρ)
  | act (i : ι) (k : α → Prog ι α ρ)

/-- A store whose actions each belong to an object. `Agree o s t` says that `s` and `t` are the
same as far as object `o` is concerned. -/
structure GuardedStore (O ι α σ : Type) where
  exec : ι → σ → α × σ
  owner : ι → O
  Agree : O → σ → σ → Prop
  agree_equiv : ∀ o, Equivalence (Agree o)
  exec_agree : ∀ i s t, Agree (owner i) s t →
    (exec i s).1 = (exec i t).1 ∧ Agree (owner i) (exec i s).2 (exec i t).2
  exec_other : ∀ i o s, owner i ≠ o → Agree o (exec i s).2 s

namespace Prog

variable {O ι α ρ σ : Type} (G : GuardedStore O ι α σ)

/-- The program alone on the store. -/
def run : Prog ι α ρ → σ → Option (ρ × σ)
  | done r, s => some (r, s)
  | fault, _ => none
  | delay p, s => run p s
  | act i k, s => run (k (G.exec i s).1) (G.exec i s).2

/-- All actions of the program belong to an object. -/
def Within (o : O) : Prog ι α ρ → Prop
  | done _ => True
  | fault => True
  | delay p => Within o p
  | act i k => G.owner i = o ∧ ∀ a, Within o (k a)

/-- Two runs with the same result, and the same store as far as an object is concerned. -/
abbrev Alike (o : O) : Option (ρ × σ) → Option (ρ × σ) → Prop :=
  Option.Rel fun x y => x.1 = y.1 ∧ G.Agree o x.2 y.2

theorem Alike.trans {o : O} {x y z : Option (ρ × σ)} (hxy : Alike G o x y)
    (hyz : Alike G o y z) : Alike G o x z := by
  cases hxy with
  | none => exact hyz
  | some hxy =>
    cases hyz with
    | some hyz => exact .some ⟨hxy.1.trans hyz.1, (G.agree_equiv o).trans hxy.2 hyz.2⟩

/-- INTERNAL: a program of an object sees of the store what belongs to the object. -/
theorem run_agree {o : O} {p : Prog ι α ρ} (hp : p.Within G o) {s t : σ}
    (h : G.Agree o s t) : Alike G o (p.run G s) (p.run G t) := by
  induction p generalizing s t with
  | done r => exact .some ⟨rfl, h⟩
  | fault => exact .none
  | delay p ih => exact ih hp h
  | act i k ih =>
    obtain ⟨rfl, hk⟩ := hp
    obtain ⟨hanswer, hstore⟩ := G.exec_agree i s t h
    simp only [run, hanswer]
    exact ih _ (hk _) hstore

/-- INTERNAL: a program of an object leaves alone what belongs to another one. -/
theorem run_other {o o' : O} {p : Prog ι α ρ} (hp : p.Within G o) (hne : o ≠ o') {s t : σ}
    {r : ρ} (h : p.run G s = some (r, t)) : G.Agree o' t s := by
  induction p generalizing s with
  | done r' =>
    obtain ⟨-, rfl⟩ := Prod.ext_iff.mp (Option.some.inj h)
    exact (G.agree_equiv o').refl _
  | fault => cases h
  | delay p ih => exact ih hp h
  | act i k ih =>
    obtain ⟨rfl, hk⟩ := hp
    exact (G.agree_equiv o').trans (ih _ (hk _) h) (G.exec_other i o' s hne)

end Prog

/-! ## Tasks -/

/-- The calls: the lock that a call takes and the program that it runs under it. A call without
a lock returns at once. -/
structure GuardedCalls {O ι α σ : Type} (G : GuardedStore O ι α σ) (C ρ : Type) where
  lock : C → Option O
  body : C → Prog ι α ρ
  body_within : ∀ c o, lock c = some o → (body c).Within G o
  body_free : ∀ c, lock c = none → ∃ r, body c = .done r

/-- Where a task stands: outside of any call; before the lock of a call; under it, with the rest
of its program; under the shared lock too, before and after it has written the action into
the controller; behind the action, still under both. -/
inductive Thread (C ι α ρ : Type) where
  | idle
  | entering (c : C)
  | inside (c : C) (p : Prog ι α ρ)
  | onBus (c : C) (i : ι) (k : α → Prog ι α ρ) (programmed : Bool)
  | offBus (c : C) (p : Prog ι α ρ)

/-- A call under its lock and the rest of its program. -/
def Thread.rest {C ι α ρ : Type} : Thread C ι α ρ → Option (C × Prog ι α ρ)
  | .inside c p => some (c, p)
  | .onBus c i k _ => some (c, .act i k)
  | .offBus c p => some (c, p)
  | _ => none

/-- The task holds the shared lock. -/
def Thread.hasBus {C ι α ρ : Type} : Thread C ι α ρ → Bool
  | .onBus .. => true
  | .offBus .. => true
  | _ => false

/-- The store, the holders of the locks, the action in the controller, the tasks, and the calls
that have returned with their results. -/
structure Tasks (O T C ι α ρ σ : Type) where
  store : σ
  object : O → Option T
  bus : Option T
  controller : Option ι
  thread : T → Thread C ι α ρ
  history : List (T × C × ρ)

inductive TaskStep (C : Type) where
  | call (c : C)
  | take
  | takeBus
  | program
  | transfer
  | giveBus
  | delay
  | give

namespace GuardedCalls

variable {O T C ι α ρ σ : Type} [DecidableEq O] [DecidableEq T] {G : GuardedStore O ι α σ}
  (K : GuardedCalls G C ρ)

/-- No task has begun. -/
def start (s : σ) : Tasks O T C ι α ρ σ :=
  { store := s, object := fun _ => none, bus := none, controller := none,
    thread := fun _ => .idle, history := [] }

def moveTo (s : Tasks O T C ι α ρ σ) (τ : T) (th : Thread C ι α ρ) : Tasks O T C ι α ρ σ :=
  { s with thread := Function.update s.thread τ th }

def step (s : Tasks O T C ι α ρ σ) (τ : T) (e : TaskStep C) :
    Option (Tasks O T C ι α ρ σ) :=
  match e, s.thread τ with
  | .call c, .idle => some (moveTo s τ (.entering c))
  | .take, .entering c =>
    match K.lock c, K.body c with
    | none, .done r =>
      some (moveTo { s with history := s.history ++ [(τ, c, r)] } τ .idle)
    | some o, p =>
      if s.object o = none then
        some (moveTo { s with object := Function.update s.object o (some τ) } τ (.inside c p))
      else none
    | _, _ => none
  | .takeBus, .inside c (.act i k) =>
    if s.bus = none then some (moveTo { s with bus := some τ } τ (.onBus c i k false))
    else none
  | .program, .onBus c i k false =>
    some (moveTo { s with controller := some i } τ (.onBus c i k true))
  | .transfer, .onBus c _ k true =>
    s.controller.map fun i =>
      moveTo { s with store := (G.exec i s.store).2, controller := none } τ
        (.offBus c (k (G.exec i s.store).1))
  | .giveBus, .offBus c p => some (moveTo { s with bus := none } τ (.inside c p))
  | .delay, .inside c (.delay p) => some (moveTo s τ (.inside c p))
  | .give, .inside c (.done r) =>
    (K.lock c).map fun o =>
      moveTo { s with
        object := Function.update s.object o none
        history := s.history ++ [(τ, c, r)] } τ .idle
  | _, _ => none

def machine : Machine (Tasks O T C ι α ρ σ) (T × TaskStep C) := ⟨fun s l => K.step s l.1 l.2⟩

/-! ## Inversion -/

/-- What a step of task `τ` does, one constructor for each kind of step. -/
inductive Steps (s : Tasks O T C ι α ρ σ) (τ : T) :
    TaskStep C → Tasks O T C ι α ρ σ → Prop
  | call (c : C) (hτ : s.thread τ = .idle) : Steps s τ (.call c) (moveTo s τ (.entering c))
  | skip {c : C} {r : ρ} (hτ : s.thread τ = .entering c) (hlock : K.lock c = none)
      (hbody : K.body c = .done r) :
      Steps s τ .take (moveTo { s with history := s.history ++ [(τ, c, r)] } τ .idle)
  | take {c : C} {o : O} (hτ : s.thread τ = .entering c) (hlock : K.lock c = some o)
      (hfree : s.object o = none) :
      Steps s τ .take (moveTo { s with object := Function.update s.object o (some τ) } τ
        (.inside c (K.body c)))
  | takeBus {c : C} {i : ι} {k : α → Prog ι α ρ} (hτ : s.thread τ = .inside c (.act i k))
      (hfree : s.bus = none) :
      Steps s τ .takeBus (moveTo { s with bus := some τ } τ (.onBus c i k false))
  | program {c : C} {i : ι} {k : α → Prog ι α ρ} (hτ : s.thread τ = .onBus c i k false) :
      Steps s τ .program (moveTo { s with controller := some i } τ (.onBus c i k true))
  | transfer {c : C} {i j : ι} {k : α → Prog ι α ρ} (hτ : s.thread τ = .onBus c i k true)
      (hcontroller : s.controller = some j) :
      Steps s τ .transfer (moveTo { s with store := (G.exec j s.store).2, controller := none } τ
        (.offBus c (k (G.exec j s.store).1)))
  | giveBus {c : C} {p : Prog ι α ρ} (hτ : s.thread τ = .offBus c p) :
      Steps s τ .giveBus (moveTo { s with bus := none } τ (.inside c p))
  | delay {c : C} {p : Prog ι α ρ} (hτ : s.thread τ = .inside c (.delay p)) :
      Steps s τ .delay (moveTo s τ (.inside c p))
  | give {c : C} {o : O} {r : ρ} (hτ : s.thread τ = .inside c (.done r))
      (hlock : K.lock c = some o) :
      Steps s τ .give (moveTo { s with
        object := Function.update s.object o none
        history := s.history ++ [(τ, c, r)] } τ .idle)

theorem steps_of_step {s s' : Tasks O T C ι α ρ σ} {τ : T} {e : TaskStep C}
    (h : K.step s τ e = some s') : K.Steps s τ e s' := by
  unfold step at h
  split at h
  next c hτ =>
    obtain rfl := Option.some.inj h
    exact .call _ hτ
  next c hτ =>
    split at h
    next r hlock hbody =>
      obtain rfl := Option.some.inj h
      exact .skip hτ hlock hbody
    next o p hlock =>
      split at h
      · obtain rfl := Option.some.inj h
        exact .take hτ hlock ‹_›
      · cases h
    next => cases h
  next c i k hτ =>
    split at h
    · obtain rfl := Option.some.inj h
      exact .takeBus hτ ‹_›
    · cases h
  next c i k hτ =>
    obtain rfl := Option.some.inj h
    exact .program hτ
  next c i k hτ =>
    obtain ⟨j, hj, rfl⟩ := Option.map_eq_some_iff.mp h
    exact .transfer hτ hj
  next c p hτ =>
    obtain rfl := Option.some.inj h
    exact .giveBus hτ
  next c p hτ =>
    obtain rfl := Option.some.inj h
    exact .delay hτ
  next c r hτ =>
    obtain ⟨o, ho, rfl⟩ := Option.map_eq_some_iff.mp h
    exact .give hτ ho
  next => cases h

@[simp] theorem moveTo_self (s : Tasks O T C ι α ρ σ) (τ : T) (th : Thread C ι α ρ) :
    (moveTo s τ th).thread τ = th := Function.update_self ..

theorem moveTo_of_ne (s : Tasks O T C ι α ρ σ) {τ τ' : T} (hne : τ' ≠ τ)
    (th : Thread C ι α ρ) : (moveTo s τ th).thread τ' = s.thread τ' :=
  Function.update_of_ne hne ..

/-! ## The shared lock -/

/-- A task on the bus holds the shared lock, and what it has written into the controller is
there. -/
structure BusHeld (s : Tasks O T C ι α ρ σ) : Prop where
  holder : ∀ τ, (s.thread τ).hasBus = true → s.bus = some τ
  programmed : ∀ τ c i k, s.thread τ = .onBus c i k true → s.controller = some i

theorem busHeld_start (s : σ) : BusHeld (start s : Tasks O T C ι α ρ σ) where
  holder _ h := by cases h
  programmed _ _ _ _ h := by cases h

/-- INTERNAL: a task that moves and is not on the bus afterwards. -/
theorem BusHeld.leave {s t : Tasks O T C ι α ρ σ} {τ : T} {th : Thread C ι α ρ}
    (h : BusHeld s) (hth : th.hasBus = false) (hthread : t.thread = s.thread)
    (hbus : ∀ τ' ≠ τ, s.bus = some τ' → t.bus = some τ')
    (hcontroller : t.controller = s.controller) : BusHeld (moveTo t τ th) := by
  constructor
  · intro τ' hτ'
    by_cases heq : τ' = τ
    · subst heq
      rw [moveTo_self, hth] at hτ'
      cases hτ'
    · rw [moveTo_of_ne _ heq, hthread] at hτ'
      exact hbus τ' heq (h.holder τ' hτ')
  · intro τ' c i k hτ'
    by_cases heq : τ' = τ
    · subst heq
      rw [moveTo_self] at hτ'
      rw [hτ'] at hth
      cases hth
    · rw [moveTo_of_ne _ heq, hthread] at hτ'
      exact hcontroller.trans (h.programmed τ' c i k hτ')

/-- INTERNAL: a task that moves and is on the bus afterwards, where no other task is. -/
theorem BusHeld.enter {s t : Tasks O T C ι α ρ σ} {τ : T} {th : Thread C ι α ρ}
    (hother : ∀ τ' ≠ τ, (s.thread τ').hasBus = false) (hthread : t.thread = s.thread)
    (hbus : t.bus = some τ)
    (hcontroller : ∀ c i k, th = .onBus c i k true → t.controller = some i) :
    BusHeld (moveTo t τ th) := by
  have hfree : ∀ τ' ≠ τ, ((moveTo t τ th).thread τ').hasBus = false := by
    intro τ' heq
    rw [moveTo_of_ne _ heq, hthread]
    exact hother τ' heq
  constructor
  · intro τ' hτ'
    by_cases heq : τ' = τ
    · subst heq
      exact hbus
    · rw [hfree τ' heq] at hτ'
      cases hτ'
  · intro τ' c i k hτ'
    by_cases heq : τ' = τ
    · subst heq
      rw [moveTo_self] at hτ'
      exact hcontroller c i k hτ'
    · have := hfree τ' heq
      rw [hτ'] at this
      cases this

/-- INTERNAL: every step keeps the shared lock. -/
theorem busHeld_step {s t : Tasks O T C ι α ρ σ} {τ : T} {e : TaskStep C} (h : BusHeld s)
    (hstep : K.Steps s τ e t) : BusHeld t := by
  have hsole : (s.thread τ).hasBus = true → ∀ τ' ≠ τ, (s.thread τ').hasBus = false := by
    intro hτ τ' hne
    rw [Bool.eq_false_iff]
    intro hτ'
    apply hne
    exact Option.some.inj ((h.holder τ' hτ').symm.trans (h.holder τ hτ))
  cases hstep with
  | call c hτ => exact h.leave rfl rfl (fun _ _ h => h) rfl
  | skip hτ hlock hbody => exact h.leave rfl rfl (fun _ _ h => h) rfl
  | take hτ hlock hfree => exact h.leave rfl rfl (fun _ _ h => h) rfl
  | takeBus hτ hfree =>
    refine BusHeld.enter ?_ rfl rfl (fun _ _ _ heq => by cases heq)
    intro τ' _
    rw [Bool.eq_false_iff]
    intro hτ'
    rw [h.holder τ' hτ'] at hfree
    cases hfree
  | program hτ =>
    have hbus : (s.thread τ).hasBus = true := by rw [hτ]; rfl
    exact BusHeld.enter (hsole hbus) rfl (h.holder τ hbus) fun _ _ _ heq => by cases heq; rfl
  | transfer hτ hcontroller =>
    have hbus : (s.thread τ).hasBus = true := by rw [hτ]; rfl
    exact BusHeld.enter (hsole hbus) rfl (h.holder τ hbus) fun _ _ _ heq => by cases heq
  | giveBus hτ =>
    have hbus : (s.thread τ).hasBus = true := by rw [hτ]; rfl
    refine h.leave rfl rfl (fun τ' hne hτ' => ?_) rfl
    rw [h.holder τ hbus] at hτ'
    exact absurd (Option.some.inj hτ').symm hne
  | delay hτ => exact h.leave rfl rfl (fun _ _ h => h) rfl
  | give hτ hlock => exact h.leave rfl rfl (fun _ _ h => h) rfl

/-! ## The order of the calls -/

/-- The calls of a history, one after the other, give its results and lead from one store to
another. -/
def Replays : σ → List (T × C × ρ) → σ → Prop
  | s, [], t => s = t
  | s, x :: xs, t => ∃ u, (K.body x.2.1).run G s = some (x.2.2, u) ∧ Replays u xs t

theorem replays_append {s t u : σ} {xs : List (T × C × ρ)} (h : K.Replays s xs t) {τ : T}
    {c : C} {r : ρ} (hrun : (K.body c).run G t = some (r, u)) :
    K.Replays s (xs ++ [(τ, c, r)]) u := by
  induction xs generalizing s with
  | nil =>
    obtain rfl : s = t := h
    exact ⟨u, hrun, rfl⟩
  | cons x xs ih =>
    obtain ⟨v, hv, hrest⟩ := h
    exact ⟨v, hv, ih hrest⟩

/-- `seq` is the store after the calls of the history. What belongs to a free object is the same
in `seq` and in the store; the rest of the program of the task that holds an object, run on
the store, does what the whole program does on `seq`. -/
structure Linear (s₀ seq : σ) (s : Tasks O T C ι α ρ σ) : Prop where
  history : K.Replays s₀ s.history seq
  free : ∀ o, s.object o = none → G.Agree o seq s.store
  held : ∀ o τ, s.object o = some τ → ∃ c p, (s.thread τ).rest = some (c, p) ∧
    K.lock c = some o ∧ p.Within G o ∧ Prog.Alike G o (p.run G s.store) ((K.body c).run G seq)
  holds : ∀ τ c p, (s.thread τ).rest = some (c, p) → ∃ o, K.lock c = some o ∧ s.object o = some τ

/-- INTERNAL: the invariant at the task that holds a lock. -/
theorem Linear.holding {s₀ seq : σ} {s : Tasks O T C ι α ρ σ} {τ : T} {c : C} {p : Prog ι α ρ}
    (h : K.Linear s₀ seq s) (hτ : (s.thread τ).rest = some (c, p)) :
    ∃ o, K.lock c = some o ∧ s.object o = some τ ∧ p.Within G o ∧
      Prog.Alike G o (p.run G s.store) ((K.body c).run G seq) := by
  obtain ⟨o, hlock, hholds⟩ := h.holds τ c p hτ
  obtain ⟨c', q, hq, -, hrest⟩ := h.held o τ hholds
  cases Option.some.inj (hq.symm.trans hτ)
  exact ⟨o, hlock, hholds, hrest⟩

theorem linear_start (s₀ : σ) : K.Linear s₀ s₀ (start s₀ : Tasks O T C ι α ρ σ) where
  history := rfl
  free _ _ := (G.agree_equiv _).refl _
  held _ _ h := by cases h
  holds _ _ _ h := by cases h

/-- INTERNAL: a step under the lock that leaves the rest of the call as it is. -/
theorem Linear.stay {s₀ seq : σ} {s t : Tasks O T C ι α ρ σ} {τ : T} {th : Thread C ι α ρ}
    (h : K.Linear s₀ seq s) (hstore : t.store = s.store) (hobject : t.object = s.object)
    (hthread : t.thread = s.thread) (hhistory : t.history = s.history)
    (hrest : th.rest = (s.thread τ).rest) : K.Linear s₀ seq (moveTo t τ th) := by
  have hsame : ∀ τ', ((moveTo t τ th).thread τ').rest = (s.thread τ').rest := by
    intro τ'
    by_cases heq : τ' = τ
    · subst heq
      rw [moveTo_self, hrest]
    · rw [moveTo_of_ne _ heq, hthread]
  constructor
  · change K.Replays s₀ t.history seq
    rw [hhistory]
    exact h.history
  · intro o ho
    change G.Agree o seq t.store
    rw [hstore]
    exact h.free o (by rw [← hobject]; exact ho)
  · intro o τ' ho
    obtain ⟨c, p, hp, hrest⟩ := h.held o τ' (by rw [← hobject]; exact ho)
    refine ⟨c, p, (hsame τ').trans hp, ?_⟩
    change _ ∧ _ ∧ Prog.Alike G o (p.run G t.store) _
    rw [hstore]
    exact hrest
  · intro τ' c p hp
    obtain ⟨o, hlock, ho⟩ := h.holds τ' c p ((hsame τ').symm.trans hp)
    exact ⟨o, hlock, by rw [← ho, ← hobject]; rfl⟩

/-- INTERNAL: a step under the lock after which the rest of the call does the same from the
new store as it did from the old one. -/
theorem Linear.advance {s₀ seq : σ} {s t : Tasks O T C ι α ρ σ} {τ : T} {th : Thread C ι α ρ}
    {c : C} {p p' : Prog ι α ρ} (h : K.Linear s₀ seq s) (hτ : (s.thread τ).rest = some (c, p))
    (hobject : t.object = s.object) (hthread : t.thread = s.thread)
    (hhistory : t.history = s.history) (hrest : th.rest = some (c, p'))
    (hwithin : ∀ o, p.Within G o → p'.Within G o) (hrun : p'.run G t.store = p.run G s.store)
    (hother : ∀ o, K.lock c ≠ some o → G.Agree o t.store s.store) :
    K.Linear s₀ seq (moveTo t τ th) := by
  obtain ⟨oτ, hlockτ, hholdsτ, -⟩ := h.holding K hτ
  constructor
  · change K.Replays s₀ t.history seq
    rw [hhistory]
    exact h.history
  · intro o ho
    change t.object o = none at ho
    rw [hobject] at ho
    have hne : K.lock c ≠ some o := by
      intro hlock
      rw [hlockτ, Option.some_inj] at hlock
      rw [← hlock, hholdsτ] at ho
      cases ho
    exact (G.agree_equiv o).trans (h.free o ho) ((G.agree_equiv o).symm (hother o hne))
  · intro o τ' ho
    change t.object o = some τ' at ho
    rw [hobject] at ho
    obtain ⟨c', q, hq, hlock, hin, halike⟩ := h.held o τ' ho
    by_cases heq : τ' = τ
    · subst heq
      cases Option.some.inj (hq.symm.trans hτ)
      refine ⟨c, p', by rw [moveTo_self, hrest], hlock, hwithin o hin, ?_⟩
      change Prog.Alike G o (p'.run G t.store) _
      rw [hrun]
      exact halike
    · refine ⟨c', q, by rw [moveTo_of_ne _ heq, hthread, hq], hlock, hin, ?_⟩
      have hne : K.lock c ≠ some o := by
        intro hsame
        rw [hlockτ, Option.some_inj] at hsame
        rw [← hsame, hholdsτ] at ho
        exact heq (Option.some.inj ho).symm
      exact Prog.Alike.trans G (Prog.run_agree G hin (hother o hne)) halike
  · intro τ' c' q hq
    change ∃ o, K.lock c' = some o ∧ t.object o = some τ'
    rw [hobject]
    by_cases heq : τ' = τ
    · subst heq
      rw [moveTo_self, hrest, Option.some_inj] at hq
      obtain ⟨rfl, -⟩ := Prod.ext_iff.mp hq
      exact ⟨oτ, hlockτ, hholdsτ⟩
    · rw [moveTo_of_ne _ heq, hthread] at hq
      exact h.holds τ' c' q hq

/-- INTERNAL: a call takes its lock. What belongs to its object is as the calls of the history
have left it. -/
theorem Linear.take {s₀ seq : σ} {s : Tasks O T C ι α ρ σ} {τ : T} {c : C} {o : O}
    (h : K.Linear s₀ seq s) (hτ : s.thread τ = .entering c) (hlock : K.lock c = some o)
    (hfree : s.object o = none) :
    K.Linear s₀ seq (moveTo { s with object := Function.update s.object o (some τ) } τ
      (.inside c (K.body c))) := by
  constructor
  · exact h.history
  · intro o' ho'
    by_cases heq : o' = o
    · subst heq
      change Function.update s.object o' (some τ) o' = none at ho'
      rw [Function.update_self] at ho'
      cases ho'
    · exact h.free o' ((Function.update_of_ne heq _ s.object).symm.trans ho')
  · intro o' τ' ho'
    change Function.update s.object o (some τ) o' = some τ' at ho'
    by_cases heq : o' = o
    · subst heq
      rw [Function.update_self, Option.some_inj] at ho'
      subst ho'
      refine ⟨c, K.body c, by rw [moveTo_self]; rfl, hlock, K.body_within c o' hlock, ?_⟩
      exact Prog.run_agree G (K.body_within c o' hlock)
        ((G.agree_equiv o').symm (h.free o' hfree))
    · rw [Function.update_of_ne heq] at ho'
      obtain ⟨c', q, hq, hrest⟩ := h.held o' τ' ho'
      have hne : τ' ≠ τ := by
        rintro rfl
        rw [hτ] at hq
        cases hq
      exact ⟨c', q, by rw [moveTo_of_ne _ hne]; exact hq, hrest⟩
  · intro τ' c' q hq
    by_cases heq : τ' = τ
    · subst heq
      rw [moveTo_self] at hq
      obtain ⟨rfl, -⟩ := Prod.ext_iff.mp (Option.some.inj hq)
      exact ⟨o, hlock, Function.update_self ..⟩
    · rw [moveTo_of_ne _ heq] at hq
      obtain ⟨o', hlock', ho'⟩ := h.holds τ' c' q hq
      refine ⟨o', hlock', (Function.update_of_ne ?_ _ s.object).trans ho'⟩
      rintro rfl
      rw [hfree] at ho'
      cases ho'

/-- INTERNAL: a call returns. It comes next after the calls of the history. -/
theorem Linear.give {s₀ seq : σ} {s : Tasks O T C ι α ρ σ} {τ : T} {c : C} {o : O} {r : ρ}
    (h : K.Linear s₀ seq s) (hτ : s.thread τ = .inside c (.done r))
    (hlock : K.lock c = some o) :
    ∃ seq', K.Linear s₀ seq' (moveTo { s with
      object := Function.update s.object o none
      history := s.history ++ [(τ, c, r)] } τ .idle) := by
  have hrest : (s.thread τ).rest = some (c, .done r) := by rw [hτ]; rfl
  obtain ⟨o₁, hlock₁, hholds, -, halike⟩ := h.holding K hrest
  obtain rfl : o = o₁ := Option.some.inj (hlock.symm.trans hlock₁)
  generalize hbody : (K.body c).run G seq = x at halike
  obtain ⟨y, rfl, rfl, hagree⟩ : ∃ y, x = some y ∧ r = y.1 ∧ G.Agree o s.store y.2 := by
    cases halike with
    | some hsame => exact ⟨_, rfl, hsame⟩
  have hothers : ∀ o' ≠ o, G.Agree o' y.2 seq := fun o' hne =>
    Prog.run_other G (K.body_within c o hlock) hne.symm hbody
  refine ⟨y.2, K.replays_append h.history hbody, ?_, ?_, ?_⟩
  · intro o' ho'
    by_cases heq : o' = o
    · subst heq
      exact (G.agree_equiv o').symm hagree
    · exact (G.agree_equiv o').trans (hothers o' heq)
        (h.free o' ((Function.update_of_ne heq _ s.object).symm.trans ho'))
  · intro o' τ' ho'
    change Function.update s.object o none o' = some τ' at ho'
    by_cases heq : o' = o
    · subst heq
      rw [Function.update_self] at ho'
      cases ho'
    · rw [Function.update_of_ne heq] at ho'
      obtain ⟨c'', q, hq, hlock'', hin, halike⟩ := h.held o' τ' ho'
      have hne : τ' ≠ τ := by
        rintro rfl
        cases Option.some.inj (hq.symm.trans hrest)
        exact heq (Option.some.inj (hlock''.symm.trans hlock))
      refine ⟨c'', q, by rw [moveTo_of_ne _ hne]; exact hq, hlock'', hin,
        Prog.Alike.trans G halike ?_⟩
      exact Prog.run_agree G (K.body_within c'' o' hlock'')
        ((G.agree_equiv o').symm (hothers o' heq))
  · intro τ' c'' q hq
    by_cases heq : τ' = τ
    · subst heq
      rw [moveTo_self] at hq
      cases hq
    · rw [moveTo_of_ne _ heq] at hq
      obtain ⟨o', hlock', ho'⟩ := h.holds τ' c'' q hq
      refine ⟨o', hlock', (Function.update_of_ne ?_ _ s.object).trans ho'⟩
      rintro rfl
      exact heq (Option.some.inj (ho'.symm.trans hholds))

/-- INTERNAL: what is in the controller at a transfer is the task's own action, and it belongs to
the object whose lock the task holds. -/
theorem Linear.own_action {s₀ seq : σ} {s : Tasks O T C ι α ρ σ} {τ : T} {c : C} {i j : ι}
    {k : α → Prog ι α ρ} (h : K.Linear s₀ seq s) (hb : BusHeld s)
    (hτ : s.thread τ = .onBus c i k true) (hcontroller : s.controller = some j) :
    j = i ∧ K.lock c = some (G.owner i) ∧ s.object (G.owner i) = some τ := by
  have hrest : (s.thread τ).rest = some (c, .act i k) := by rw [hτ]; rfl
  obtain ⟨o, hlock, hholds, ⟨rfl, -⟩, -⟩ := h.holding K hrest
  exact ⟨Option.some.inj (hcontroller.symm.trans (hb.programmed τ c i k hτ)), hlock, hholds⟩

/-- INTERNAL: every step keeps the order of the calls. -/
theorem linear_step {s₀ seq : σ} {s t : Tasks O T C ι α ρ σ} {τ : T} {e : TaskStep C}
    (hb : BusHeld s) (h : K.Linear s₀ seq s) (hstep : K.Steps s τ e t) :
    ∃ seq', K.Linear s₀ seq' t := by
  cases hstep with
  | call c hτ => exact ⟨seq, h.stay K rfl rfl rfl rfl (by rw [hτ]; rfl)⟩
  | skip hτ hlock hbody =>
    have hstay : K.Linear s₀ seq (moveTo s τ .idle) :=
      h.stay K rfl rfl rfl rfl (by rw [hτ]; rfl)
    exact ⟨seq, { hstay with history := K.replays_append h.history (by rw [hbody]; rfl) }⟩
  | take hτ hlock hfree => exact ⟨seq, h.take K hτ hlock hfree⟩
  | takeBus hτ hfree => exact ⟨seq, h.stay K rfl rfl rfl rfl (by rw [hτ]; rfl)⟩
  | program hτ => exact ⟨seq, h.stay K rfl rfl rfl rfl (by rw [hτ]; rfl)⟩
  | transfer hτ hcontroller =>
    obtain ⟨rfl, hlock, -⟩ := h.own_action K hb hτ hcontroller
    have hrest := congrArg Thread.rest hτ
    refine ⟨seq, h.advance K hrest rfl rfl rfl rfl (fun o hin => hin.2 _) rfl fun o hne => ?_⟩
    apply G.exec_other
    rintro rfl
    exact hne hlock
  | giveBus hτ => exact ⟨seq, h.stay K rfl rfl rfl rfl (by rw [hτ]; rfl)⟩
  | delay hτ =>
    rename_i c p
    have hrest : (s.thread τ).rest = some (c, .delay p) := by rw [hτ]; rfl
    exact ⟨seq, h.advance K hrest rfl rfl rfl rfl (fun o hin => hin) rfl
      fun o _ => (G.agree_equiv o).refl _⟩
  | give hτ hlock => exact h.give K hτ hlock

/-- INTERNAL: what holds in every state of every run. -/
theorem run_linear {s₀ : σ} {s : Tasks O T C ι α ρ σ} {ls : List (T × TaskStep C)}
    (hrun : K.machine.run (start s₀) ls = some s) : BusHeld s ∧ ∃ seq, K.Linear s₀ seq s := by
  refine K.machine.run_invariant (fun s => BusHeld s ∧ ∃ seq, K.Linear s₀ seq s) ?_
    ⟨busHeld_start s₀, s₀, K.linear_start s₀⟩ hrun
  rintro s ⟨τ, e⟩ t ⟨hb, seq, h⟩ hstep
  have hsteps := K.steps_of_step hstep
  exact ⟨K.busHeld_step hb hsteps, K.linear_step hb h hsteps⟩

/-- INTERNAL: after every run the calls that have returned, one after the other in the order of
their returns, give the same results. -/
theorem run_replays {s₀ : σ} {s : Tasks O T C ι α ρ σ} {ls : List (T × TaskStep C)}
    (hrun : K.machine.run (start s₀) ls = some s) : ∃ seq, K.Replays s₀ s.history seq := by
  obtain ⟨-, seq, h⟩ := K.run_linear hrun
  exact ⟨seq, h.history⟩

/-- INTERNAL: while a task holds the lock of an object, the steps of other tasks leave alone
what belongs to it. -/
theorem run_frame {s₀ : σ} {s t : Tasks O T C ι α ρ σ} {ls : List (T × TaskStep C)}
    (hrun : K.machine.run (start s₀) ls = some s) {o : O} {τ τ' : T} {e : TaskStep C}
    (hholds : s.object o = some τ) (hne : τ' ≠ τ) (hstep : K.step s τ' e = some t) :
    G.Agree o t.store s.store := by
  obtain ⟨hb, seq, h⟩ := K.run_linear hrun
  have hsteps := K.steps_of_step hstep
  cases hsteps with
  | transfer hτ hcontroller =>
    obtain ⟨rfl, -, hown⟩ := h.own_action K hb hτ hcontroller
    apply G.exec_other
    rintro rfl
    exact hne (Option.some.inj (hown.symm.trans hholds))
  | _ => exact (G.agree_equiv o).refl _

/-! ## The order of the calls of one task -/

/-- The call a task is in. -/
def inProgress : Thread C ι α ρ → List C
  | .idle => []
  | .entering c => [c]
  | .inside c _ => [c]
  | .onBus c .. => [c]
  | .offBus c _ => [c]

/-- The calls that a task makes in a run, in its own order. -/
def callsOf (τ : T) (ls : List (T × TaskStep C)) : List C :=
  ls.filterMap fun l => match l with
    | (τ', .call c) => if τ' = τ then some c else none
    | _ => none

/-- The calls of a task that have returned, in the order of their returns. -/
def returnsOf (τ : T) (xs : List (T × C × ρ)) : List C :=
  xs.filterMap fun x => if x.1 = τ then some x.2.1 else none

/-- INTERNAL: a step adds to the calls of a task what it adds to those in progress or
returned. -/
theorem callsOf_step {s t : Tasks O T C ι α ρ σ} {τ' : T} {e : TaskStep C}
    (hstep : K.Steps s τ' e t) (τ : T) :
    returnsOf τ t.history ++ inProgress (t.thread τ) =
      returnsOf τ s.history ++ inProgress (s.thread τ) ++ callsOf τ [(τ', e)] := by
  by_cases heq : τ' = τ
  · subst heq
    cases hstep with
    | call c hτ => simp [moveTo, hτ, inProgress, callsOf]
    | skip hτ hlock hbody => simp [moveTo, hτ, inProgress, callsOf, returnsOf]
    | take hτ hlock hfree => simp [moveTo, hτ, inProgress, callsOf]
    | takeBus hτ hfree => simp [moveTo, hτ, inProgress, callsOf]
    | program hτ => simp [moveTo, hτ, inProgress, callsOf]
    | transfer hτ hcontroller => simp [moveTo, hτ, inProgress, callsOf]
    | giveBus hτ => simp [moveTo, hτ, inProgress, callsOf]
    | delay hτ => simp [moveTo, hτ, inProgress, callsOf]
    | give hτ hlock => simp [moveTo, hτ, inProgress, callsOf, returnsOf]
  · have hnone : callsOf τ [(τ', e)] = [] := by
      cases e <;> simp [callsOf, heq]
    rw [hnone, List.append_nil]
    cases hstep <;> simp [moveTo, Function.update_of_ne (Ne.symm heq), heq, returnsOf]

/-- INTERNAL: after every run the calls of a task that have returned are its calls in its own
order, but for one still in progress. -/
theorem run_calls {s₀ : σ} {s : Tasks O T C ι α ρ σ} {ls : List (T × TaskStep C)}
    (hrun : K.machine.run (start s₀) ls = some s) (τ : T) :
    returnsOf τ s.history ++ inProgress (s.thread τ) = callsOf τ ls := by
  have hgen : ∀ (ls : List (T × TaskStep C)) (u : Tasks O T C ι α ρ σ),
      K.machine.run u ls = some s →
        returnsOf τ s.history ++ inProgress (s.thread τ) =
          returnsOf τ u.history ++ inProgress (u.thread τ) ++ callsOf τ ls := by
    intro ls
    induction ls with
    | nil =>
      intro u hu
      obtain rfl : u = s := by simpa using hu
      simp [callsOf]
    | cons l ls ih =>
      intro u hu
      obtain ⟨v, hv, hrest⟩ := K.machine.run_cons_eq_some.mp hu
      have hl : callsOf τ (l :: ls) = callsOf τ [l] ++ callsOf τ ls := by
        rw [callsOf, callsOf, callsOf, ← List.filterMap_append]
        rfl
      rw [ih v hrest, K.callsOf_step (K.steps_of_step hv) τ, hl, List.append_assoc,
        List.append_assoc]
  exact (hgen ls _ hrun).trans (by simp [start, returnsOf, inProgress])

end GuardedCalls

end PicoDrone.Library
