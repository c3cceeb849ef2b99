import PicoDrone.Library.Machine

/-!
# Bounded queues

A queue of at most `cap` items as a machine whose labels are completed operations with the
items they carried: a history of operations is possible where the machine can run along it.
Where items only enter at the back, those received and those left are the ones that entered,
in their order (`boundedQueue_fifo`).
-/

set_option autoImplicit false

namespace PicoDrone.Library

/-- A completed operation on a queue, with the item that entered, left or was looked at. -/
inductive QueueEvent (α : Type*) where
  | back (x : α)
  | front (x : α)
  | overwrite (x : α)
  | received (x : α)
  | peeked (x : α)
  deriving DecidableEq, Repr

variable {α : Type*} [DecidableEq α]

/-- The queue of at most `cap` items; a queue of one item can be overwritten. -/
def boundedQueue (α : Type*) [DecidableEq α] (cap : ℕ) : Machine (List α) (QueueEvent α) where
  step xs
    | .back x => if xs.length < cap then some (xs ++ [x]) else none
    | .front x => if xs.length < cap then some (x :: xs) else none
    | .overwrite x => if cap = 1 then some [x] else none
    | .received x => if xs.head? = some x then some xs.tail else none
    | .peeked x => if xs.head? = some x then some xs else none

/-- What enters at the back, if anything. -/
def QueueEvent.entered : QueueEvent α → Option α
  | .back x => some x
  | _ => none

/-- What leaves, if anything. -/
def QueueEvent.left : QueueEvent α → Option α
  | .received x => some x
  | _ => none

/-- The item enters at the back, if one enters. -/
def QueueEvent.InOrder : QueueEvent α → Prop
  | .front _ => False
  | .overwrite _ => False
  | _ => True

theorem boundedQueue_step_length {cap : ℕ} {xs ys : List α} {e : QueueEvent α}
    (hxs : xs.length ≤ cap) (h : (boundedQueue α cap).step xs e = some ys) : ys.length ≤ cap := by
  cases e with
  | back x =>
    obtain ⟨hlt, ⟨⟩⟩ := Option.ite_none_right_eq_some.mp h
    rw [List.length_append]
    exact hlt
  | front x =>
    obtain ⟨hlt, ⟨⟩⟩ := Option.ite_none_right_eq_some.mp h
    exact hlt
  | overwrite x =>
    obtain ⟨rfl, ⟨⟩⟩ := Option.ite_none_right_eq_some.mp h
    exact Nat.le_refl 1
  | received x =>
    obtain ⟨-, ⟨⟩⟩ := Option.ite_none_right_eq_some.mp h
    rw [List.length_tail]
    omega
  | peeked x =>
    obtain ⟨-, ⟨⟩⟩ := Option.ite_none_right_eq_some.mp h
    exact hxs

/-- INTERNAL: a queue never holds more than its bound. -/
theorem boundedQueue_length {cap : ℕ} {es : List (QueueEvent α)} {xs : List α}
    (h : (boundedQueue α cap).run [] es = some xs) : xs.length ≤ cap :=
  (boundedQueue α cap).run_invariant (fun xs => xs.length ≤ cap)
    (fun _ _ _ => boundedQueue_step_length) (s := []) (Nat.zero_le cap) h

theorem boundedQueue_step_fifo {cap : ℕ} {xs ys : List α} {e : QueueEvent α}
    (he : e.InOrder) (h : (boundedQueue α cap).step xs e = some ys) :
    e.left.toList ++ ys = xs ++ e.entered.toList := by
  cases e with
  | back x =>
    obtain ⟨-, ⟨⟩⟩ := Option.ite_none_right_eq_some.mp h
    rfl
  | front x => exact he.elim
  | overwrite x => exact he.elim
  | received x =>
    obtain ⟨hhead, ⟨⟩⟩ := Option.ite_none_right_eq_some.mp h
    cases xs with
    | nil => cases hhead
    | cons y xs =>
      obtain rfl : y = x := Option.some.inj hhead
      simp [QueueEvent.left, QueueEvent.entered]
  | peeked x =>
    obtain ⟨-, ⟨⟩⟩ := Option.ite_none_right_eq_some.mp h
    simp [QueueEvent.left, QueueEvent.entered]

/-- INTERNAL: what has left and what is there are what was there and what has entered, in
the same order. -/
theorem boundedQueue_run_fifo {cap : ℕ} {es : List (QueueEvent α)} {xs ys : List α}
    (hes : ∀ e ∈ es, e.InOrder) (h : (boundedQueue α cap).run xs es = some ys) :
    es.filterMap QueueEvent.left ++ ys = xs ++ es.filterMap QueueEvent.entered := by
  induction es generalizing xs with
  | nil =>
    obtain rfl : xs = ys := by simpa using h
    simp
  | cons e es ih =>
    obtain ⟨zs, hz, hrest⟩ := (boundedQueue α cap).run_cons_eq_some.mp h
    have hstep := boundedQueue_step_fifo (hes e List.mem_cons_self) hz
    have hih := ih (fun k hk => hes k (List.mem_cons_of_mem e hk)) hrest
    have hcons : ∀ f : QueueEvent α → Option α,
        (e :: es).filterMap f = (f e).toList ++ es.filterMap f := by
      intro f
      cases hf : f e <;> simp [hf]
    calc (e :: es).filterMap QueueEvent.left ++ ys
        = e.left.toList ++ (es.filterMap QueueEvent.left ++ ys) := by
          rw [hcons, List.append_assoc]
      _ = (e.left.toList ++ zs) ++ es.filterMap QueueEvent.entered := by
          rw [hih, List.append_assoc]
      _ = xs ++ (e :: es).filterMap QueueEvent.entered := by
          rw [hstep, hcons, List.append_assoc]

theorem boundedQueue_fifo {cap : ℕ} {es : List (QueueEvent α)} {xs : List α}
    (hes : ∀ e ∈ es, e.InOrder) (h : (boundedQueue α cap).run [] es = some xs) :
    es.filterMap QueueEvent.left ++ xs = es.filterMap QueueEvent.entered :=
  boundedQueue_run_fifo hes h

end PicoDrone.Library
