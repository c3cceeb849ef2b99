import Mathlib.Data.Finset.Card
import Mathlib.Data.Finset.Insert
import Mathlib.Data.List.Nodup
import Mathlib.Tactic.Common

/-!
# Tasks waiting for units of a resource

Tasks try to take a unit of a resource and wait on a list where there is none; who adds a unit
takes a task from the list, or counts the unit while the list is locked, and who unlocks the
list takes as many tasks from it as were counted. `WaitList` says that no wake-up is lost: as
long as tasks wait, there are at least as many tasks about to try again as there are units.
Its rules are what the operations of such a protocol may do.
-/

set_option autoImplicit false

namespace PicoDrone.Library

variable {ι : Type*}

/-- `avail` units, a lock (`-1` open, otherwise a count that stops at `n`), the tasks waiting,
and those that will try to take a unit before they wait for one, where a task that waits is
counted too. -/
structure WaitList (n avail : ℕ) (lock : ℤ) (waiting : List ι) (retry : Finset ι) : Prop where
  nodup : waiting.Nodup
  sub : ∀ t ∈ waiting, t ∈ retry
  covered : waiting ≠ [] → avail + waiting.length ≤ retry.card + lock.toNat ∨ (n : ℤ) ≤ lock

namespace WaitList

variable {n avail : ℕ} {lock : ℤ} {waiting : List ι} {retry : Finset ι}

theorem nil : WaitList n avail lock ([] : List ι) retry := ⟨List.nodup_nil, by simp, by simp⟩

/-- INTERNAL: units that disappear need no task. -/
theorem mono (h : WaitList n avail lock waiting retry) {avail' : ℕ} (ha : avail' ≤ avail) :
    WaitList n avail' lock waiting retry := by
  refine ⟨h.nodup, h.sub, fun hw => ?_⟩
  obtain hc | hc := h.covered hw
  · exact Or.inl (by omega)
  · exact Or.inr hc

/-- INTERNAL: a unit comes and a task is taken from the list. -/
theorem post (h : WaitList n avail lock waiting retry) :
    WaitList n (avail + 1) lock waiting.tail retry := by
  cases waiting with
  | nil => exact nil
  | cons t waiting =>
    refine ⟨h.nodup.of_cons, fun u hu => h.sub u (List.mem_cons_of_mem t hu), fun _ => ?_⟩
    have hc := h.covered (List.cons_ne_nil t waiting)
    rw [List.length_cons] at hc
    rw [List.tail_cons]
    omega

/-- INTERNAL: a unit comes while the list is locked. -/
theorem count (h : WaitList n avail lock waiting retry) (hlock : 0 ≤ lock) :
    WaitList n (avail + 1) (if lock < n then lock + 1 else lock) waiting retry := by
  refine ⟨h.nodup, h.sub, fun hw => ?_⟩
  have hc := h.covered hw
  split_ifs <;> omega

/-- INTERNAL: the list is unlocked, and as many tasks taken from it as were counted. -/
theorem unlock (h : WaitList n avail lock waiting retry) (hn : waiting.length ≤ n) :
    WaitList n avail (-1) (waiting.drop lock.toNat) retry := by
  refine ⟨h.nodup.sublist (List.drop_sublist _ _), fun t ht => h.sub t (List.mem_of_mem_drop ht),
    fun hne => Or.inl ?_⟩
  have hlt : lock.toNat < waiting.length := by
    by_contra hle
    exact hne (List.drop_eq_nil_of_le (by omega))
  have hc := h.covered (List.ne_nil_of_length_pos (by omega))
  rw [List.length_drop]
  omega

/-- INTERNAL: the list is locked. -/
theorem locked (h : WaitList n avail lock waiting retry) :
    WaitList n avail (if lock = -1 then 0 else lock) waiting retry := by
  refine ⟨h.nodup, h.sub, fun hw => ?_⟩
  have hc := h.covered hw
  split_ifs <;> omega

variable [DecidableEq ι]

theorem length_le (h : WaitList n avail lock waiting retry) {t : ι} (hw : t ∉ waiting)
    (ht : t ∈ retry) : waiting.length + 1 ≤ retry.card := by
  have hsub : (t :: waiting).toFinset ⊆ retry := by
    intro u hu
    obtain rfl | hu := List.mem_cons.mp (List.mem_toFinset.mp hu)
    · exact ht
    · exact h.sub u hu
  calc waiting.length + 1 = (t :: waiting).toFinset.card :=
        (List.toFinset_card_of_nodup (List.nodup_cons.mpr ⟨hw, h.nodup⟩)).symm
    _ ≤ retry.card := Finset.card_le_card hsub

/-- INTERNAL: a task tries: it takes a unit, or there is none. -/
theorem leave (h : WaitList n avail lock waiting retry) {t : ι} {avail' : ℕ} (hw : t ∉ waiting)
    (ha : avail' + 1 ≤ avail ∨ avail' = 0) : WaitList n avail' lock waiting (retry.erase t) := by
  refine ⟨h.nodup, fun u hu => ?_, fun hne => ?_⟩
  · exact Finset.mem_erase.mpr ⟨ne_of_mem_of_not_mem hu hw, h.sub u hu⟩
  · by_cases ht : t ∈ retry
    · have hlen := h.length_le hw ht
      have hc := h.covered hne
      rw [Finset.card_erase_of_mem ht]
      omega
    · have hlen : waiting.length ≤ retry.card := by
        calc waiting.length = waiting.toFinset.card :=
              (List.toFinset_card_of_nodup h.nodup).symm
          _ ≤ retry.card := Finset.card_le_card fun u hu => h.sub u (List.mem_toFinset.mp hu)
      have hc := h.covered hne
      rw [Finset.erase_eq_of_notMem ht]
      omega

/-- INTERNAL: a task finds a unit, leaves it, and takes a task from the list. -/
theorem pass (h : WaitList n avail lock waiting retry) {t : ι} (hw : t ∉ waiting)
    (ht : t ∈ retry) : WaitList n avail lock waiting.tail (retry.erase t) := by
  cases waiting with
  | nil => exact nil
  | cons u waiting =>
    refine ⟨h.nodup.of_cons, fun v hv => ?_, fun _ => ?_⟩
    · have hv' := List.mem_cons_of_mem u hv
      exact Finset.mem_erase.mpr ⟨ne_of_mem_of_not_mem hv' hw, h.sub v hv'⟩
    · have hlen := h.length_le hw ht
      have hc := h.covered (List.cons_ne_nil u waiting)
      rw [List.length_cons] at hc
      rw [List.tail_cons, Finset.card_erase_of_mem ht]
      omega

/-- INTERNAL: another task is about to try. -/
theorem join (h : WaitList n avail lock waiting retry) (t : ι) :
    WaitList n avail lock waiting (insert t retry) := by
  refine ⟨h.nodup, fun u hu => Finset.mem_insert_of_mem (h.sub u hu), fun hw => ?_⟩
  have hc := h.covered hw
  have := Finset.card_le_card (Finset.subset_insert t retry)
  omega

/-- INTERNAL: a task that found no unit goes on the list; the units that have come since are
counted. -/
theorem place (h : WaitList n avail lock waiting retry) {t : ι} {waiting' : List ι}
    (hperm : waiting'.Perm (t :: waiting)) (ht : t ∉ retry)
    (ha : avail ≤ lock.toNat ∨ (n : ℤ) ≤ lock) :
    WaitList n avail lock waiting' (insert t retry) := by
  have hw : t ∉ waiting := fun hmem => ht (h.sub t hmem)
  refine ⟨hperm.nodup_iff.mpr (List.nodup_cons.mpr ⟨hw, h.nodup⟩), fun u hu => ?_, fun _ => ?_⟩
  · obtain rfl | hu := List.mem_cons.mp (hperm.mem_iff.mp hu)
    · exact Finset.mem_insert_self u retry
    · exact Finset.mem_insert_of_mem (h.sub u hu)
  · rw [hperm.length_eq, List.length_cons, Finset.card_insert_of_notMem ht]
    cases waiting with
    | nil =>
      rw [List.length_nil]
      omega
    | cons u waiting =>
      have hc := h.covered (List.cons_ne_nil u waiting)
      omega

/-- INTERNAL: a task leaves the list by itself. -/
theorem erase (h : WaitList n avail lock waiting retry) (t : ι) :
    WaitList n avail lock (waiting.erase t) retry := by
  refine ⟨h.nodup.erase t, fun u hu => h.sub u (List.mem_of_mem_erase hu), fun hne => ?_⟩
  have hlen := List.length_erase_le (a := t) (l := waiting)
  have hc := h.covered fun hnil => hne (by rw [hnil]; rfl)
  omega

end WaitList

end PicoDrone.Library
