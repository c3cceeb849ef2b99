import Mathlib.Data.List.Range
import Mathlib.Tactic.Common

/-!
# Memory with bounds

A region of `n` cells with loads, stores and block copies that fail outside of it. A
program translated with these operations returns `none` exactly where it would leave its
buffer. `put` and `slice` are the copies without the check; the lemmas say how they
compose.
-/

set_option autoImplicit false

namespace PicoDrone.Library

/-- The cells of memory from `pos` on are these. -/
def Holds {α : Type*} (mem : ℕ → α) (pos : ℕ) (xs : List α) : Prop :=
  ∀ i (hi : i < xs.length), mem (pos + i) = xs[i]

theorem holds_append {α : Type*} {mem : ℕ → α} {pos : ℕ} {xs ys : List α} :
    Holds mem pos (xs ++ ys) ↔ Holds mem pos xs ∧ Holds mem (pos + xs.length) ys := by
  constructor
  · intro h
    refine ⟨fun i hi => ?_, fun i hi => ?_⟩
    · rw [h i (by rw [List.length_append]; omega), List.getElem_append_left hi]
    · rw [Nat.add_assoc, h (xs.length + i) (by rw [List.length_append]; omega),
        List.getElem_append_right (by omega)]
      simp only [Nat.add_sub_cancel_left]
  · rintro ⟨hx, hy⟩ i hi
    rw [List.length_append] at hi
    by_cases hlt : i < xs.length
    · rw [hx i hlt, List.getElem_append_left hlt]
    · have hcell := hy (i - xs.length) (by omega)
      rw [show pos + xs.length + (i - xs.length) = pos + i by omega] at hcell
      rw [hcell, List.getElem_append_right (by omega)]

/-- `n` cells of memory; only those below `n` can be reached. -/
structure Region (n : ℕ) (α : Type*) where
  cell : ℕ → α

namespace Region

variable {n : ℕ} {α : Type*}

/-- The cells from `pos` on replaced by `xs`. -/
def put (r : Region n α) (pos : ℕ) (xs : List α) : Region n α :=
  ⟨fun i => if pos ≤ i then xs.getD (i - pos) (r.cell i) else r.cell i⟩

/-- The `len` cells from `pos` on. -/
def slice (r : Region n α) (pos len : ℕ) : List α :=
  (List.range len).map fun i => r.cell (pos + i)

/-- `memcpy` into the region. -/
def copyIn (r : Region n α) (pos : ℕ) (xs : List α) : Option (Region n α) :=
  if pos + xs.length ≤ n then some (r.put pos xs) else none

/-- `memcpy` out of the region. -/
def copyOut (r : Region n α) (pos len : ℕ) : Option (List α) :=
  if pos + len ≤ n then some (r.slice pos len) else none

def store (r : Region n α) (pos : ℕ) (x : α) : Option (Region n α) := r.copyIn pos [x]

def load (r : Region n α) (pos : ℕ) : Option α := if pos < n then some (r.cell pos) else none

/-! ## The checks -/

theorem copyIn_of_le {r : Region n α} {pos : ℕ} {xs : List α} (h : pos + xs.length ≤ n) :
    r.copyIn pos xs = some (r.put pos xs) := if_pos h

theorem copyOut_of_le {r : Region n α} {pos len : ℕ} (h : pos + len ≤ n) :
    r.copyOut pos len = some (r.slice pos len) := if_pos h

theorem store_of_lt {r : Region n α} {pos : ℕ} {x : α} (h : pos < n) :
    r.store pos x = some (r.put pos [x]) := if_pos h

theorem load_of_lt {r : Region n α} {pos : ℕ} (h : pos < n) :
    r.load pos = some (r.cell pos) := if_pos h

theorem le_of_copyIn {r r' : Region n α} {pos : ℕ} {xs : List α}
    (h : r.copyIn pos xs = some r') : pos + xs.length ≤ n := by
  unfold copyIn at h
  split at h
  · assumption
  · cases h

theorem le_of_copyOut {r : Region n α} {pos len : ℕ} {xs : List α}
    (h : r.copyOut pos len = some xs) : pos + len ≤ n := by
  unfold copyOut at h
  split at h
  · assumption
  · cases h

theorem lt_of_load {r : Region n α} {pos : ℕ} {x : α} (h : r.load pos = some x) : pos < n := by
  unfold load at h
  split at h
  · assumption
  · cases h

/-! ## Cells -/

@[simp] theorem slice_length (r : Region n α) (pos len : ℕ) : (r.slice pos len).length = len := by
  simp [slice]

theorem put_cell (r : Region n α) (pos : ℕ) {xs : List α} {i : ℕ} (hi : i < xs.length) :
    (r.put pos xs).cell (pos + i) = xs[i] := by
  simp [put, hi]

/-- INTERNAL: the cells of a copy to the start. -/
theorem put_zero_cell (r : Region n α) {xs : List α} {i : ℕ} (hi : i < xs.length) :
    (r.put 0 xs).cell i = xs[i] := by
  have h := put_cell r 0 hi
  rwa [Nat.zero_add] at h

/-- INTERNAL: the cells before a copy and after it are unchanged. -/
theorem put_cell_of_outside (r : Region n α) {pos i : ℕ} {xs : List α}
    (hi : i < pos ∨ pos + xs.length ≤ i) : (r.put pos xs).cell i = r.cell i := by
  unfold put
  obtain hlt | hge := hi
  · simp only [if_neg (show ¬ pos ≤ i by omega)]
  · simp only [if_pos (show pos ≤ i by omega)]
    rw [List.getD_eq_getElem?_getD, List.getElem?_eq_none (by omega), Option.getD_none]

@[simp] theorem put_nil (r : Region n α) (pos : ℕ) : r.put pos [] = r := by
  simp [put]

/-! ## Several copies -/

/-- INTERNAL: two adjacent copies are one. -/
theorem put_put (r : Region n α) {pos pos' : ℕ} {xs ys : List α}
    (h : pos' = pos + xs.length) : (r.put pos xs).put pos' ys = r.put pos (xs ++ ys) := by
  subst h
  unfold put
  congr 1
  funext i
  simp only [List.getD_eq_getElem?_getD, List.getElem?_append]
  by_cases h1 : pos ≤ i
  · by_cases h2 : pos + xs.length ≤ i
    · simp [h1, h2, show ¬ i - pos < xs.length by omega, Nat.sub_sub]
    · simp [h1, h2, show i - pos < xs.length by omega]
  · simp [h1, show ¬ pos + xs.length ≤ i by omega]

/-- INTERNAL: a copy that covers an earlier one. -/
theorem put_cover (r : Region n α) (pos : ℕ) {xs ys : List α} (h : xs.length ≤ ys.length) :
    (r.put pos xs).put pos ys = r.put pos ys := by
  unfold put
  congr 1
  funext i
  by_cases hpos : pos ≤ i
  · simp only [if_pos hpos, List.getD_eq_getElem?_getD]
    by_cases hlt : i - pos < ys.length
    · simp [hlt]
    · simp [List.getElem?_eq_none (show ys.length ≤ i - pos by omega),
        List.getElem?_eq_none (show xs.length ≤ i - pos by omega)]
  · simp only [if_neg hpos]

theorem slice_add (r : Region n α) (pos a b : ℕ) :
    r.slice pos (a + b) = r.slice pos a ++ r.slice (pos + a) b := by
  simp [slice, List.range_add, Nat.add_assoc]

theorem put_holds (r : Region n α) (pos : ℕ) (xs : List α) :
    Holds (r.put pos xs).cell pos xs := fun _ hi => r.put_cell pos hi

/-- INTERNAL: a copy elsewhere leaves what lies in memory. -/
theorem holds_put {r : Region n α} {pos pos' : ℕ} {xs ys : List α} (h : Holds r.cell pos xs)
    (hout : pos + xs.length ≤ pos' ∨ pos' + ys.length ≤ pos) :
    Holds (r.put pos' ys).cell pos xs := by
  intro i hi
  rw [put_cell_of_outside r (by omega), h i hi]

theorem slice_eq_iff {r : Region n α} {pos len : ℕ} {xs : List α} (hlen : len = xs.length) :
    r.slice pos len = xs ↔ Holds r.cell pos xs := by
  subst hlen
  constructor
  · intro h i hi
    have hcell : (r.slice pos xs.length)[i]? = xs[i]? := by rw [h]
    simpa [slice, hi] using hcell
  · intro h
    apply List.ext_getElem
    · rw [slice_length]
    · intro i _ hi
      simpa [slice] using h i hi

theorem slice_congr {r r' : Region n α} {pos len : ℕ}
    (h : ∀ i < len, r.cell (pos + i) = r'.cell (pos + i)) : r.slice pos len = r'.slice pos len :=
  List.map_congr_left fun i hi => h i (List.mem_range.mp hi)

theorem slice_put (r : Region n α) {pos len : ℕ} {xs : List α} (h : len = xs.length) :
    (r.put pos xs).slice pos len = xs := by
  subst h
  apply List.ext_getElem
  · simp
  · intro i _ hi
    simp [slice, put_cell _ _ hi]

end Region

end PicoDrone.Library
