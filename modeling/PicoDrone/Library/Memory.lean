import Mathlib.Algebra.Group.Nat.Defs
import Mathlib.Data.Nat.Basic
import Mathlib.Tactic.Common

/-!
# Byte memories

Bytes by address, and the little-endian 32-bit words that lie in them. A store of a word is
read back at its place (`word_setWord`) and changes no byte of another place
(`setWord_of_outside`).
-/

set_option autoImplicit false

namespace PicoDrone.Library

/-- Bytes by address. -/
abbrev Memory := ℕ → BitVec 8

namespace Memory

/-- The word at an address. -/
def word (m : Memory) (a : ℕ) : ℕ :=
  (m a).toNat + 256 * (m (a + 1)).toNat + 65536 * (m (a + 2)).toNat +
    16777216 * (m (a + 3)).toNat

/-- The memory after the store of a word. -/
def setWord (m : Memory) (a v : ℕ) : Memory := fun x =>
  if x = a then BitVec.ofNat 8 v
  else if x = a + 1 then BitVec.ofNat 8 (v / 256)
  else if x = a + 2 then BitVec.ofNat 8 (v / 65536)
  else if x = a + 3 then BitVec.ofNat 8 (v / 16777216)
  else m x

/-- The memory after the store of a byte. -/
def setByte (m : Memory) (a : ℕ) (b : BitVec 8) : Memory := fun x => if x = a then b else m x

/-- `memset`. -/
def fill (m : Memory) (a : ℕ) (b : BitVec 8) (n : ℕ) : Memory := fun x =>
  if a ≤ x ∧ x < a + n then b else m x

variable {m m' : Memory} {a b v x : ℕ}

theorem word_lt (m : Memory) (a : ℕ) : m.word a < 2 ^ 32 := by
  have h0 := (m a).isLt
  have h1 := (m (a + 1)).isLt
  have h2 := (m (a + 2)).isLt
  have h3 := (m (a + 3)).isLt
  simp only [word]
  omega

/-- INTERNAL: a word depends on its four bytes only. -/
theorem word_congr (h : ∀ x, a ≤ x → x < a + 4 → m' x = m x) : m'.word a = m.word a := by
  simp only [word, h a (by omega) (by omega), h (a + 1) (by omega) (by omega),
    h (a + 2) (by omega) (by omega), h (a + 3) (by omega) (by omega)]

theorem setWord_of_outside (h : x < a ∨ a + 4 ≤ x) : m.setWord a v x = m x := by
  simp only [setWord]
  repeat rw [if_neg (by omega)]

/-- INTERNAL: a stored word is read back. -/
theorem word_setWord (m : Memory) (a : ℕ) (hv : v < 2 ^ 32) : (m.setWord a v).word a = v := by
  simp only [word, setWord, if_true, Nat.add_eq_left, Nat.add_left_cancel_iff, reduceIte,
    BitVec.toNat_ofNat, Nat.reduceEqDiff, Nat.one_ne_zero]
  omega

/-- INTERNAL: a store leaves the words of other places. -/
theorem word_setWord_of_outside (h : b + 4 ≤ a ∨ a + 4 ≤ b) :
    (m.setWord a v).word b = m.word b := by
  apply word_congr
  intro x h0 h1
  exact setWord_of_outside (by omega)

theorem setByte_of_ne {c : BitVec 8} (h : x ≠ a) : m.setByte a c x = m x := if_neg h

theorem fill_of_outside {c : BitVec 8} {n : ℕ} (h : x < a ∨ a + n ≤ x) : m.fill a c n x = m x :=
  if_neg (by omega)

theorem fill_inside {c : BitVec 8} {n : ℕ} (h0 : a ≤ x) (h1 : x < a + n) : m.fill a c n x = c :=
  if_pos ⟨h0, h1⟩

end Memory

end PicoDrone.Library
