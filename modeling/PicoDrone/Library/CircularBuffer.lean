import PicoDrone.Library.Region

/-!
# Circular buffers in a region

`ring start len` are the `len` cells of a region from `start` on, going round at its end.
A writer appends to them with copies that stop at the end of the region (`ring_append`), a
reader takes a prefix of them with one copy (`ring_eq_slice`) or with two that meet at the
end (`ring_eq_two_slices`).
-/

set_option autoImplicit false

namespace PicoDrone.Library.Region

variable {n : ℕ} {α : Type*}

/-- The `len` cells from `start` on, going round at the end of the region. -/
def ring (r : Region n α) (start len : ℕ) : List α :=
  (List.range len).map fun i => r.cell ((start + i) % n)

@[simp] theorem ring_length (r : Region n α) (start len : ℕ) : (r.ring start len).length = len := by
  simp [ring]

theorem wrap_index {start i : ℕ} (hs : start < n) (hi : i ≤ n) :
    (start + i) % n = if start + i < n then start + i else start + i - n := by
  split
  · rename_i h
    exact Nat.mod_eq_of_lt h
  · rw [Nat.mod_eq_sub_mod (by omega)]
    exact Nat.mod_eq_of_lt (by omega)

theorem ring_add (r : Region n α) (start a b : ℕ) :
    r.ring start (a + b) = r.ring start a ++ r.ring ((start + a) % n) b := by
  simp [ring, List.range_add, Nat.add_assoc]

theorem ring_eq_slice (r : Region n α) {start len : ℕ} (h : start + len ≤ n) :
    r.ring start len = r.slice start len := by
  apply List.map_congr_left
  intro i hi
  rw [Nat.mod_eq_of_lt]
  have := List.mem_range.mp hi
  omega

theorem ring_eq_two_slices (r : Region n α) {start a b : ℕ} (ha : start + a = n) (hb : b ≤ n) :
    r.ring start (a + b) = r.slice start a ++ r.slice 0 b := by
  rw [ring_add, ring_eq_slice r (by omega), ha, Nat.mod_self, ring_eq_slice r (by omega)]

/-- INTERNAL: a copy behind a ring, up to the end of the region at most, appends to it. -/
theorem ring_append (r : Region n α) {start len pos : ℕ} {xs : List α} (hs : start < n)
    (hpos : pos = (start + len) % n) (hend : pos + xs.length ≤ n) (hroom : len + xs.length ≤ n) :
    (r.put pos xs).ring start (len + xs.length) = r.ring start len ++ xs := by
  have hold : (r.put pos xs).ring start len = r.ring start len := by
    apply List.map_congr_left
    intro i hi
    have hlt := List.mem_range.mp hi
    apply put_cell_of_outside
    rw [wrap_index hs (by omega)] at hpos ⊢
    split_ifs at hpos ⊢ <;> omega
  have hnew : (r.put pos xs).ring ((start + len) % n) xs.length = xs := by
    rw [← hpos, ring_eq_slice _ hend, slice_put _ rfl]
  rw [ring_add, hold, hnew]

end PicoDrone.Library.Region
