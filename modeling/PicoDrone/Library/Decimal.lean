import Mathlib.Data.Int.Basic
import Mathlib.Data.List.TakeWhile
import PicoDrone.Library.CString

/-!
# Decimal integers at the start of a text

`scanInt` is what `strtol`, `atoi` and `%d` of `sscanf` have in common: white space, a sign and
digits, up to the first byte that is none. What a byte ends is not changed by what follows
(`scanInt_append_stop`), and a text of digits is read in full (`scanInt_digits`). An integer
that `int` cannot hold has no defined result: `overflow` stands for what the library makes of it.
-/

set_option autoImplicit false

namespace PicoDrone.Library

def isDigit (b : BitVec 8) : Bool := 0x30#8 ≤ b && b ≤ 0x39#8

/-- The number that digits denote. -/
def decimalValue (digits : List (BitVec 8)) : ℕ :=
  digits.foldl (fun v d => 10 * v + (d.toNat - 0x30)) 0

/-- The sign that a text begins with, and the rest of the text. -/
def scanSign : List (BitVec 8) → ℤ × List (BitVec 8)
  | [] => (1, [])
  | b :: bs => if b = 0x2D#8 then (-1, bs) else if b = 0x2B#8 then (1, bs) else (1, b :: bs)

/-- The integer that a text begins with after white space, if there is one. -/
def scanInt (text : List (BitVec 8)) : Option ℤ :=
  let signed := scanSign (text.dropWhile isSpace)
  let digits := signed.2.takeWhile isDigit
  if digits = [] then none else some (signed.1 * decimalValue digits)

/-- The integer is one of `int`. -/
def FitsInt (v : ℤ) : Prop := -2147483648 ≤ v ∧ v ≤ 2147483647

instance (v : ℤ) : Decidable (FitsInt v) := inferInstanceAs (Decidable (_ ∧ _))

/-- The conversion of a scanned integer to `int`. -/
def toInt (overflow : ℤ → ℤ) (v : ℤ) : ℤ := if FitsInt v then v else overflow v

def atoi (overflow : ℤ → ℤ) (text : List (BitVec 8)) : ℤ :=
  match scanInt text with
  | some v => toInt overflow v
  | none => 0

/-- `sscanf` with `"%d"`: the target after the call, given what it was before. -/
def sscanfInt (overflow : ℤ → ℤ) (text : List (BitVec 8)) (target : ℤ) : ℤ :=
  match scanInt text with
  | some v => toInt overflow v
  | none => target

theorem toInt_of_fits (overflow : ℤ → ℤ) {v : ℤ} (h : FitsInt v) : toInt overflow v = v :=
  if_pos h

/-- INTERNAL: a result that does not depend on the library is an integer of `int`. -/
theorem fits_of_toInt {v w : ℤ} (h : ∀ overflow, toInt overflow v = w) : FitsInt v ∧ v = w := by
  by_cases hfits : FitsInt v
  · exact ⟨hfits, (toInt_of_fits id hfits).symm.trans (h id)⟩
  · have hnext := h fun _ => w + 1
    rw [toInt, if_neg hfits] at hnext
    omega

/-! ## What a scan reads -/

/-- A byte that ends an integer wherever it stands. -/
def Stops (b : BitVec 8) : Prop :=
  isSpace b = false ∧ isDigit b = false ∧ b ≠ 0x2D#8 ∧ b ≠ 0x2B#8

instance (b : BitVec 8) : Decidable (Stops b) := inferInstanceAs (Decidable (_ ∧ _))

theorem scanSign_append_stop {b : BitVec 8} (hminus : b ≠ 0x2D#8) (hplus : b ≠ 0x2B#8)
    (text rest : List (BitVec 8)) :
    scanSign (text ++ b :: rest) = ((scanSign text).1, (scanSign text).2 ++ b :: rest) := by
  cases text with
  | nil => simp [scanSign, hminus, hplus]
  | cons a text =>
    simp only [List.cons_append, scanSign]
    split
    · rfl
    · split <;> rfl

/-- INTERNAL: a scan does not see what is behind a byte that ends integers. -/
theorem scanInt_append_stop {b : BitVec 8} (hb : Stops b) (text rest : List (BitVec 8)) :
    scanInt (text ++ b :: rest) = scanInt text := by
  obtain ⟨hspace, hdigit, hminus, hplus⟩ := hb
  simp only [scanInt]
  rw [dropWhile_append_stop hspace, scanSign_append_stop hminus hplus,
    takeWhile_append_stop hdigit]

theorem digit_not_space {b : BitVec 8} (h : isDigit b = true) :
    isSpace b = false ∧ b ≠ 0x2D#8 ∧ b ≠ 0x2B#8 := by
  revert b
  decide

/-- INTERNAL: digits are scanned in full. -/
theorem scanInt_digits {digits : List (BitVec 8)} (hne : digits ≠ [])
    (h : ∀ b ∈ digits, isDigit b = true) : scanInt digits = some (decimalValue digits : ℤ) := by
  have htake : digits.takeWhile isDigit = digits := List.takeWhile_eq_self_iff.mpr h
  cases digits with
  | nil => exact absurd rfl hne
  | cons b digits =>
    obtain ⟨hspace, hminus, hplus⟩ := digit_not_space (h b List.mem_cons_self)
    simp [scanInt, scanSign, hspace, hminus, hplus, htake]

example : scanInt [0x20#8, 0x2D#8, 0x31#8, 0x32#8, 0x78#8] = some (-12) := by decide

end PicoDrone.Library
