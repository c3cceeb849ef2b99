import Mathlib.Algebra.Group.Int.Defs
import Mathlib.Algebra.Group.Nat.Defs
import Mathlib.Data.Nat.Basic
import Mathlib.Data.Int.Basic
import Mathlib.Tactic.Common

/-!
# Machine words of the firmware

The RP2040 is a 32-bit core: `uint`, `size_t` and `uint32_t` have 32 bits, `int` has 32
bits, and arithmetic on `uint8_t` and `uint16_t` operands is done in `int` and cut down
when it is stored. Counters and indexes are kept as natural numbers; `u16` and `u32` are
the stores that cut an `int` result down.
-/

set_option autoImplicit false

namespace PicoDrone.Model

/-- `uint8_t`. -/
abbrev Byte := BitVec 8

/-- The bytes of an ASCII text. -/
def ascii (text : String) : List Byte := text.toList.map fun c => BitVec.ofNat 8 c.toNat

/-- A `uint32_t` register. -/
abbrev Word := BitVec 32

/-- Storing an `int` into a `uint16_t`. -/
def u16 (x : ℤ) : ℕ := (x % 65536).toNat

/-- Storing a result into a `uint32_t`, or computing it in `uint` or `size_t`. -/
def u32 (x : ℤ) : ℕ := (x % 4294967296).toNat

/-- `bool_to_bit` of the SDK. -/
def boolToBit (b : Bool) : Word := if b then 1#32 else 0#32

theorem u16_of_fits {x : ℤ} (h0 : 0 ≤ x) (h1 : x < 65536) : u16 x = x.toNat := by
  unfold u16
  rw [Int.emod_eq_of_lt h0 h1]

theorem u32_of_fits {x : ℤ} (h0 : 0 ≤ x) (h1 : x < 4294967296) : u32 x = x.toNat := by
  unfold u32
  rw [Int.emod_eq_of_lt h0 h1]

theorem u16_add {a b : ℕ} (h : a + b < 65536) : u16 (a + b) = a + b := by
  rw [u16_of_fits (by omega) (by omega)]
  omega

theorem u16_sub {a b : ℕ} (hle : b ≤ a) (h : a < 65536) : u16 (a - b) = a - b := by
  rw [u16_of_fits (by omega) (by omega)]
  omega

theorem u32_add {a b : ℕ} (h : a + b < 4294967296) : u32 (a + b) = a + b := by
  rw [u32_of_fits (by omega) (by omega)]
  omega

theorem u32_sub {a b : ℕ} (hle : b ≤ a) (h : a < 4294967296) : u32 (a - b) = a - b := by
  rw [u32_of_fits (by omega) (by omega)]
  omega

end PicoDrone.Model
