import PicoDrone.Library.CircularBuffer

/-!
# Rings of slots

A region cut into `count` slots of `size` cells each, used as a ring of items. `slots` are the
items from a slot on, going round after the last one. A copy to the slot behind them appends
an item (`slots_put_back`), a copy to the slot before them prepends one (`slots_put_front`).
-/

set_option autoImplicit false

namespace PicoDrone.Library.Region

variable {n : ℕ} {α : Type*} {count size : ℕ}

/-- The contents of the `len` slots from slot `start` on. -/
def slots (r : Region n α) (count size start len : ℕ) : List (List α) :=
  (List.range len).map fun i => r.slice ((start + i) % count * size) size

@[simp] theorem slots_zero (r : Region n α) (start : ℕ) : r.slots count size start 0 = [] := rfl

@[simp] theorem slots_length (r : Region n α) (start len : ℕ) :
    (r.slots count size start len).length = len := by
  simp [slots]

theorem slots_mod (r : Region n α) (start len : ℕ) :
    r.slots count size (start % count) len = r.slots count size start len := by
  simp [slots]

theorem slots_succ (r : Region n α) (start len : ℕ) :
    r.slots count size start (len + 1) =
      r.slice (start % count * size) size :: r.slots count size (start + 1) len := by
  simp only [slots, List.range_succ_eq_map, List.map_cons, List.map_map, Nat.add_zero]
  congr 1
  apply List.map_congr_left
  intro i _
  simp only [Function.comp_apply, Nat.succ_eq_add_one, Nat.add_assoc, Nat.add_comm 1]

theorem slots_concat (r : Region n α) (start len : ℕ) :
    r.slots count size start (len + 1) =
      r.slots count size start len ++ [r.slice ((start + len) % count * size) size] := by
  simp [slots, List.range_succ]

/-- INTERNAL: two of the slots from `start` on are different ones. -/
theorem slot_ne {start i j : ℕ} (hij : i < j) (hj : j < count) :
    (start + i) % count ≠ (start + j) % count := by
  have hstart := Nat.mod_lt start (show 0 < count by omega)
  rw [← Nat.mod_add_mod start, ← Nat.mod_add_mod start count j,
    wrap_index hstart (by omega), wrap_index hstart (by omega)]
  split_ifs <;> omega

/-- INTERNAL: a copy to another slot. -/
theorem slice_put_slot (r : Region n α) {a b : ℕ} {xs : List α} (hab : a ≠ b)
    (hx : xs.length = size) : (r.put (b * size) xs).slice (a * size) size =
      r.slice (a * size) size := by
  apply slice_congr
  intro i hi
  apply put_cell_of_outside
  rw [hx]
  obtain hlt | hlt := Nat.lt_or_gt_of_ne hab
  · have := Nat.mul_le_mul_right size (show a + 1 ≤ b from hlt)
    rw [Nat.add_mul, Nat.one_mul] at this
    omega
  · have := Nat.mul_le_mul_right size (show b + 1 ≤ a from hlt)
    rw [Nat.add_mul, Nat.one_mul] at this
    omega

theorem slots_put_of_ne (r : Region n α) {start len b : ℕ} {xs : List α} (hx : xs.length = size)
    (hb : ∀ i < len, (start + i) % count ≠ b) :
    (r.put (b * size) xs).slots count size start len = r.slots count size start len := by
  apply List.map_congr_left
  intro i hi
  exact slice_put_slot r (hb i (List.mem_range.mp hi)) hx

/-- INTERNAL: a copy to the slot behind them appends an item. -/
theorem slots_put_back (r : Region n α) {start len : ℕ} {xs : List α} (hlen : len < count)
    (hx : xs.length = size) :
    (r.put ((start + len) % count * size) xs).slots count size start (len + 1) =
      r.slots count size start len ++ [xs] := by
  rw [slots_concat, slots_put_of_ne r hx fun i hi => slot_ne hi hlen, slice_put r hx.symm]

/-- INTERNAL: a copy to the slot before them prepends an item. -/
theorem slots_put_front (r : Region n α) {start len : ℕ} {xs : List α} (hlen : len < count)
    (hx : xs.length = size) :
    (r.put (start % count * size) xs).slots count size start (len + 1) =
      xs :: r.slots count size (start + 1) len := by
  rw [slots_succ, slice_put r hx.symm, slots_put_of_ne r hx]
  intro i hi
  rw [Nat.add_assoc]
  exact (slot_ne (i := 0) (j := 1 + i) (by omega) (by omega)).symm

/-- INTERNAL: the slots of a ring lie in the region. -/
theorem slot_le {i : ℕ} (hi : i < count) : i * size + size ≤ count * size := by
  have := Nat.mul_le_mul_right size (show i + 1 ≤ count from hi)
  rwa [Nat.add_mul, Nat.one_mul] at this

end PicoDrone.Library.Region
