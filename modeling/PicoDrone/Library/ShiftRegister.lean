import Mathlib.Logic.Function.Iterate
import Mathlib.Tactic.Common

/-!
# Shift registers over bit vectors

A register of width `w` that shifts right, and is xored with a fixed pattern `poly` when a
one falls out. This is the inner loop of every bitwise cyclic redundancy check that works
from the least significant bit.

The register is linear over xor (`steps_xor`, `steps_xorSum`). If the pattern has an odd number
of ones, a step keeps the parity of the register (`parity_step`); if it has its top bit, a step
can be taken back (`unstep_step`), so that one walk along the orbit of a value shows its states
to be distinct (`orbit_injective`).
-/

set_option autoImplicit false

namespace PicoDrone.Library.ShiftRegister

variable {w : ℕ} (poly : BitVec w)

def step (c : BitVec w) : BitVec w :=
  if c.getLsbD 0 then (c >>> 1) ^^^ poly else c >>> 1

/-! ## Linearity -/

theorem step_xor (a b : BitVec w) : step poly (a ^^^ b) = step poly a ^^^ step poly b := by
  unfold step
  rw [BitVec.getLsbD_xor, BitVec.ushiftRight_xor_distrib]
  cases a.getLsbD 0 <;> cases b.getLsbD 0 <;> ext i <;> simp <;> grind

theorem steps_xor (k : ℕ) (a b : BitVec w) :
    (step poly)^[k] (a ^^^ b) = (step poly)^[k] a ^^^ (step poly)^[k] b := by
  induction k generalizing a b with
  | zero => rfl
  | succ k ih => rw [Function.iterate_succ_apply, step_xor, ih]; rfl

/-- INTERNAL: a one that does not fall out moves down by one place. -/
theorem step_twoPow {k : ℕ} (hk : k + 1 < w) :
    step poly (BitVec.twoPow w (k + 1)) = BitVec.twoPow w k := by
  have hlow : (BitVec.twoPow w (k + 1)).getLsbD 0 = false := by simp
  unfold step
  rw [hlow, if_neg (by decide)]
  apply BitVec.eq_of_getLsbD_eq
  intro i _
  rw [BitVec.getLsbD_ushiftRight, BitVec.getLsbD_twoPow, BitVec.getLsbD_twoPow]
  grind

/-- INTERNAL: a one at place `k` reaches place zero in `k` steps. -/
theorem steps_twoPow {k : ℕ} (hk : k < w) : (step poly)^[k] (BitVec.twoPow w k) = 1#w := by
  induction k with
  | zero => exact BitVec.twoPow_zero
  | succ k ih =>
    rw [Function.iterate_succ_apply, step_twoPow poly hk]
    exact ih (by omega)

/-! ## Sums -/

/-- The sum of the registers that belong to some places. -/
def xorSum (f : ℕ → BitVec w) (ps : List ℕ) : BitVec w := ps.foldr (fun p c => f p ^^^ c) 0#w

theorem xorSum_cons (f : ℕ → BitVec w) (p : ℕ) (ps : List ℕ) :
    xorSum f (p :: ps) = f p ^^^ xorSum f ps := rfl

theorem xorSum_congr {f g : ℕ → BitVec w} {ps : List ℕ} (h : ∀ p ∈ ps, f p = g p) :
    xorSum f ps = xorSum g ps := by
  induction ps with
  | nil => rfl
  | cons p ps ih =>
    rw [xorSum_cons, xorSum_cons, h p List.mem_cons_self,
      ih fun q hq => h q (List.mem_cons_of_mem p hq)]

/-- INTERNAL: a linear map of a sum. -/
theorem map_xorSum {v : ℕ} (F : BitVec w → BitVec v) (hzero : F 0#w = 0#v)
    (hxor : ∀ a b, F (a ^^^ b) = F a ^^^ F b) (f : ℕ → BitVec w) (ps : List ℕ) :
    F (xorSum f ps) = xorSum (fun p => F (f p)) ps := by
  induction ps with
  | nil => exact hzero
  | cons p ps ih => rw [xorSum_cons, xorSum_cons, hxor, ih]

theorem steps_zero (k : ℕ) : (step poly)^[k] 0#w = 0#w := by
  induction k with
  | zero => rfl
  | succ k ih =>
    have hstep : step poly 0#w = 0#w := by simp [step]
    rw [Function.iterate_succ_apply, hstep, ih]

theorem steps_xorSum (k : ℕ) (f : ℕ → BitVec w) (ps : List ℕ) :
    (step poly)^[k] (xorSum f ps) = xorSum (fun p => (step poly)^[k] (f p)) ps :=
  map_xorSum _ (steps_zero poly k) (steps_xor poly k) f ps

/-- INTERNAL: a sum in two parts. -/
theorem xorSum_filter (f : ℕ → BitVec w) (q : ℕ → Bool) (ps : List ℕ) :
    xorSum f ps = xorSum f (ps.filter q) ^^^ xorSum f (ps.filter fun p => !q p) := by
  induction ps with
  | nil => exact (BitVec.xor_self).symm
  | cons p ps ih =>
    cases hp : q p with
    | false =>
      rw [List.filter_cons_of_neg (by simp [hp]), List.filter_cons_of_pos (by simp [hp]),
        xorSum_cons, xorSum_cons, ih, ← BitVec.xor_assoc, BitVec.xor_comm (f p),
        BitVec.xor_assoc]
    | true =>
      rw [List.filter_cons_of_pos hp, List.filter_cons_of_neg (by simp [hp]), xorSum_cons,
        xorSum_cons, ih, BitVec.xor_assoc]

/-- INTERNAL: single ones at different places do not cancel. -/
theorem xorSum_twoPow {g : ℕ → ℕ} {ps : List ℕ} (hg : (ps.map g).Nodup) (i : ℕ) :
    (xorSum (fun p => BitVec.twoPow w (g p)) ps).getLsbD i = decide (i < w ∧ i ∈ ps.map g) := by
  induction ps with
  | nil => simp [xorSum]
  | cons p ps ih =>
    rw [List.map_cons, List.nodup_cons] at hg
    rw [xorSum_cons, BitVec.getLsbD_xor, ih hg.2, BitVec.getLsbD_twoPow, List.map_cons]
    by_cases hi : g p = i
    · subst hi
      simp [hg.1]
    · simp [hi, Ne.symm hi]

/-! ## Parity -/

/-- The parity of the lowest bits of a register. -/
def parityBelow (c : BitVec w) : ℕ → Bool
  | 0 => false
  | k + 1 => c.getLsbD k ^^ parityBelow c k

/-- The number of ones in a register is odd. -/
def parity (c : BitVec w) : Bool := parityBelow c w

theorem parityBelow_xor (a b : BitVec w) (k : ℕ) :
    parityBelow (a ^^^ b) k = (parityBelow a k ^^ parityBelow b k) := by
  induction k with
  | zero => rfl
  | succ k ih =>
    simp only [parityBelow, ih, BitVec.getLsbD_xor]
    rw [Bool.xor_assoc, Bool.xor_assoc, Bool.xor_left_comm (b.getLsbD k)]

theorem parity_xor (a b : BitVec w) : parity (a ^^^ b) = (parity a ^^ parity b) :=
  parityBelow_xor a b w

/-- INTERNAL: a shift to the right loses the lowest bit. -/
theorem parityBelow_shift (c : BitVec w) (k : ℕ) :
    parityBelow (c >>> 1) k = (c.getLsbD 0 ^^ parityBelow c (k + 1)) := by
  induction k with
  | zero => simp [parityBelow]
  | succ k ih =>
    rw [parityBelow, ih, BitVec.getLsbD_ushiftRight, Nat.add_comm 1 k]
    conv_rhs => rw [parityBelow]
    cases c.getLsbD 0 <;> cases c.getLsbD (k + 1) <;> simp

theorem parity_shift (c : BitVec w) : parity (c >>> 1) = (c.getLsbD 0 ^^ parity c) := by
  rw [parity, parityBelow_shift, parityBelow, BitVec.getLsbD_of_ge c w (Nat.le_refl w),
    Bool.false_xor]
  rfl

/-- INTERNAL: a pattern with an odd number of ones makes up for the one that falls out. -/
theorem parity_step (hpoly : parity poly = true) (c : BitVec w) :
    parity (step poly c) = parity c := by
  unfold step
  by_cases hlow : c.getLsbD 0 = true
  · rw [if_pos hlow, parity_xor, parity_shift, hlow, hpoly]
    cases parity c <;> rfl
  · rw [Bool.not_eq_true] at hlow
    rw [hlow, if_neg (by decide), parity_shift, hlow, Bool.false_xor]

theorem parity_steps (hpoly : parity poly = true) (k : ℕ) (c : BitVec w) :
    parity ((step poly)^[k] c) = parity c := by
  induction k generalizing c with
  | zero => rfl
  | succ k ih => rw [Function.iterate_succ_apply, ih, parity_step poly hpoly]

/-- INTERNAL: a register with a single one has odd parity. -/
theorem parity_twoPow {k : ℕ} (hk : k < w) : parity (BitVec.twoPow w k) = true := by
  have hbelow : ∀ j, parityBelow (BitVec.twoPow w k) j = decide (k < j) := by
    intro j
    induction j with
    | zero => rfl
    | succ j ih =>
      rw [parityBelow, ih, BitVec.getLsbD_twoPow]
      grind
  rw [parity, hbelow, decide_eq_true hk]

/-! ## Orbits -/

/-- The step taken back: the top bit tells whether the pattern was added. -/
def unstep (c : BitVec w) : BitVec w :=
  if c.msb then ((c ^^^ poly) <<< 1) ||| 1#w else c <<< 1

theorem unstep_step (hmsb : poly.msb = true) (c : BitVec w) : unstep poly (step poly c) = c := by
  have hw : 0 < w := by
    by_contra h
    rw [BitVec.msb_eq_getLsbD_last, BitVec.getLsbD_of_ge _ _ (by omega)] at hmsb
    cases hmsb
  have hshift : (c >>> 1).msb = false := by
    rw [BitVec.msb_ushiftRight]
    simp
  have hback : ∀ i < w, ((c >>> 1) <<< 1).getLsbD i = (c.getLsbD i && decide (i ≠ 0)) := by
    intro i hi
    cases i with
    | zero => simp
    | succ i => simp [hi, Nat.add_comm]
  unfold step
  by_cases hlow : c.getLsbD 0 = true
  · rw [if_pos hlow, unstep, BitVec.msb_xor, hshift, hmsb, Bool.false_xor, if_pos rfl,
      BitVec.xor_assoc, BitVec.xor_self, BitVec.xor_zero]
    apply BitVec.eq_of_getLsbD_eq
    intro i hi
    rw [BitVec.getLsbD_or, hback i hi, BitVec.getLsbD_one]
    cases i with
    | zero => simpa [hw] using hlow.symm
    | succ i => simp
  · rw [if_neg hlow, unstep, hshift, if_neg (by decide)]
    apply BitVec.eq_of_getLsbD_eq
    intro i hi
    rw [hback i hi]
    cases i with
    | zero => simpa using hlow
    | succ i => simp

theorem unsteps_steps (hmsb : poly.msb = true) (k : ℕ) (c : BitVec w) :
    (unstep poly)^[k] ((step poly)^[k] c) = c :=
  Function.LeftInverse.iterate (unstep_step poly hmsb) k c

/-- INTERNAL: with a pattern that has its top bit, a step is injective. -/
theorem step_injective (hmsb : poly.msb = true) : Function.Injective (step poly) :=
  (show Function.LeftInverse (unstep poly) (step poly) from unstep_step poly hmsb).injective

/-- The next `n` states after `c` all differ from `target`. -/
def avoids (target : BitVec w) : ℕ → BitVec w → Bool
  | 0, _ => true
  | n + 1, c => step poly c != target && avoids target n (step poly c)

/-- INTERNAL: what one walk along an orbit checks. -/
theorem ne_of_avoids {target c : BitVec w} {n k : ℕ} (h : avoids poly target n c = true)
    (hk : k < n) : (step poly)^[k + 1] c ≠ target := by
  induction n generalizing c k with
  | zero => omega
  | succ n ih =>
    simp only [avoids, Bool.and_eq_true, bne_iff_ne] at h
    cases k with
    | zero => exact h.1
    | succ k =>
      rw [Function.iterate_succ_apply]
      exact ih h.2 (by omega)

/-- INTERNAL: a state that is not met again within `n` steps starts an orbit of distinct
states. -/
theorem orbit_injective (hmsb : poly.msb = true) {c : BitVec w} {n : ℕ}
    (h : avoids poly c n c = true) {i j : ℕ} (hi : i ≤ n) (hj : j ≤ n)
    (hij : (step poly)^[i] c = (step poly)^[j] c) : i = j := by
  -- the earlier of the two states can be cancelled
  have hlt : ∀ i j, i < j → j ≤ n → (step poly)^[i] c ≠ (step poly)^[j] c := by
    intro i j hlt hj heq
    obtain ⟨k, rfl⟩ := Nat.exists_eq_add_of_lt hlt
    rw [Nat.add_assoc, Function.iterate_add_apply] at heq
    have hreturn := (step_injective poly hmsb).iterate i heq
    exact ne_of_avoids poly h (by omega) hreturn.symm
  obtain hlt' | rfl | hgt := Nat.lt_trichotomy i j
  · exact absurd hij (hlt i j hlt' hj)
  · rfl
  · exact absurd hij.symm (hlt j i hgt hi)

end PicoDrone.Library.ShiftRegister
