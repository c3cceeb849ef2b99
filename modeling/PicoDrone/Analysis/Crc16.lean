import PicoDrone.Library.ShiftRegister
import PicoDrone.Model.Eeprom

/-!
# What the checksum of the store detects

`crc16` runs a shift register with pattern `0xA001`, so it is affine over xor: a flipped bit
of a stored block changes the difference between the stored and the computed checksum by a
value that depends on its place alone (`residue_flipBit`). Every such value has odd parity,
and up to 62 bytes of data they are distinct, since they lie on one orbit of the register
(`syndrome_injective`). A block with two flipped bits or an odd number of them therefore
never passes the check (`residue_flipBits`).
-/

set_option autoImplicit false

namespace PicoDrone.Analysis

open PicoDrone.Library PicoDrone.Model

/-! ## The loop is a shift register -/

/-- INTERNAL: the inner loop of `crc16` steps a shift register.
SOURCE: eeprom/EEPROM.cpp:24-28 -/
theorem crcBit_eq_step : crcBit = ShiftRegister.step 0xA001#16 := by
  funext c
  have hlow : c &&& 0x0001#16 ≠ 0#16 ↔ c.getLsbD 0 = true := by
    rw [← not_iff_not, not_not, Bool.not_eq_true]
    constructor
    · intro h
      have := congrArg (fun c => c.getLsbD 0) h
      simpa using this
    · intro h
      apply BitVec.eq_of_getLsbD_eq
      intro i _
      cases i <;> simp_all
  unfold crcBit ShiftRegister.step
  simp only [hlow]

theorem crcByte_xor_left (c d : BitVec 16) (b : Byte) :
    crcByte (c ^^^ d) b = crcByte c b ^^^ crcBit^[8] d := by
  unfold crcByte
  rw [crcBit_eq_step, ← ShiftRegister.steps_xor]
  congr 1
  rw [BitVec.xor_assoc, BitVec.xor_assoc, BitVec.xor_comm d]

theorem crcByte_xor_right (c : BitVec 16) (b m : Byte) :
    crcByte c (b ^^^ m) = crcByte c b ^^^ crcBit^[8] (m.setWidth 16) := by
  unfold crcByte
  rw [crcBit_eq_step, ← ShiftRegister.steps_xor, BitVec.setWidth_xor, BitVec.xor_assoc]

theorem foldl_crcByte_xor (xs : List Byte) (c d : BitVec 16) :
    xs.foldl crcByte (c ^^^ d) = xs.foldl crcByte c ^^^ crcBit^[8 * xs.length] d := by
  induction xs generalizing c d with
  | nil => rfl
  | cons b xs ih =>
    rw [List.foldl_cons, List.foldl_cons, crcByte_xor_left, ih, ← Function.iterate_add_apply,
      List.length_cons, Nat.mul_succ]

/-- INTERNAL: a difference in one byte of the data. -/
theorem crc16_modify {data : List Byte} {i : ℕ} (hi : i < data.length) (m : Byte) :
    crc16 (data.modify i (· ^^^ m)) =
      crc16 data ^^^ crcBit^[8 * (data.length - i)] (m.setWidth 16) := by
  have hlen : 8 * (data.length - i) = 8 * (data.drop (i + 1)).length + 8 := by
    rw [List.length_drop]
    omega
  have hdata : crc16 data = (data.drop (i + 1)).foldl crcByte
      (crcByte ((data.take i).foldl crcByte 0xFFFF#16) data[i]) := by
    unfold crc16
    conv_lhs => rw [show data = data.take i ++ data[i] :: data.drop (i + 1) by simp]
    rw [List.foldl_append, List.foldl_cons]
  rw [hdata, hlen, Function.iterate_add_apply, ← foldl_crcByte_xor, ← crcByte_xor_right]
  unfold crc16
  rw [List.modify_eq_take_cons_drop hi, List.foldl_append, List.foldl_cons]

/-! ## Flipped bits -/

/-- A block of bytes with one bit flipped; the bits are counted from the lowest bit of the
first byte. -/
def flipBit (p : ℕ) (block : List Byte) : List Byte :=
  block.modify (p / 8) (· ^^^ BitVec.twoPow 8 (p % 8))

/-- A block of bytes with some bits flipped. -/
def flipBits (ps : List ℕ) (block : List Byte) : List Byte := ps.foldr flipBit block

@[simp] theorem flipBits_length (ps : List ℕ) (block : List Byte) :
    (flipBits ps block).length = block.length := by
  induction ps with
  | nil => rfl
  | cons p ps ih => simpa [flipBits, flipBit] using ih

/-- Two bytes put together, high byte first. -/
def join (high low : Byte) : BitVec 16 := high.setWidth 16 <<< 8 ||| low.setWidth 16

/-- The difference between the checksum stored in a block, high byte first, and the one
computed from the `n` bytes before it. -/
def residue (n : ℕ) (block : List Byte) : BitVec 16 :=
  join (block.getD n 0#8) (block.getD (n + 1) 0#8) ^^^ crc16 (block.take n)

/-- What flipping bit `p` of a block with `n` bytes of data adds to its residue. -/
def syndrome (n p : ℕ) : BitVec 16 :=
  if p / 8 < n then crcBit^[8 * (n - p / 8)] (BitVec.twoPow 16 (p % 8))
  else if p / 8 = n then BitVec.twoPow 16 (8 + p % 8)
  else BitVec.twoPow 16 (p % 8)

/-- INTERNAL: a bit flipped in the high byte. -/
theorem join_flip_high (high low : Byte) {k : ℕ} (hk : k < 8) :
    join (high ^^^ BitVec.twoPow 8 k) low = join high low ^^^ BitVec.twoPow 16 (8 + k) := by
  apply BitVec.eq_of_getLsbD_eq
  intro i hi
  simp only [join, BitVec.getLsbD_or, BitVec.getLsbD_shiftLeft, BitVec.getLsbD_setWidth,
    BitVec.getLsbD_xor, BitVec.getLsbD_twoPow]
  by_cases h8 : i < 8
  · grind
  · have hlow : low.getLsbD i = false := BitVec.getLsbD_of_ge _ _ (by omega)
    grind

/-- INTERNAL: a bit flipped in the low byte. -/
theorem join_flip_low (high low : Byte) {k : ℕ} (hk : k < 8) :
    join high (low ^^^ BitVec.twoPow 8 k) = join high low ^^^ BitVec.twoPow 16 k := by
  apply BitVec.eq_of_getLsbD_eq
  intro i hi
  simp only [join, BitVec.getLsbD_or, BitVec.getLsbD_shiftLeft, BitVec.getLsbD_setWidth,
    BitVec.getLsbD_xor, BitVec.getLsbD_twoPow]
  by_cases h8 : i < 8
  · grind
  · grind

/-- INTERNAL: a flipped bit adds its syndrome to the residue. -/
theorem residue_flipBit {n p : ℕ} {block : List Byte} (hblock : block.length = n + 2)
    (hp : p < 8 * (n + 2)) : residue n (flipBit p block) = residue n block ^^^ syndrome n p := by
  have hk : p % 8 < 8 := Nat.mod_lt _ (by decide)
  have hgetD : ∀ j < n + 2, (flipBit p block).getD j 0#8 =
      if p / 8 = j then block.getD j 0#8 ^^^ BitVec.twoPow 8 (p % 8) else block.getD j 0#8 := by
    intro j hj
    rw [flipBit, List.getD_eq_getElem?_getD, List.getElem?_modify, List.getD_eq_getElem?_getD,
      List.getElem?_eq_getElem (by omega)]
    split <;> simp
  unfold residue syndrome
  rw [hgetD n (by omega), hgetD (n + 1) (by omega)]
  by_cases hdata : p / 8 < n
  · -- the flipped bit is in the data
    have htake : (flipBit p block).take n =
        (block.take n).modify (p / 8) (· ^^^ BitVec.twoPow 8 (p % 8)) := by
      apply List.ext_getElem?
      intro j
      simp only [flipBit, List.getElem?_take, List.getElem?_modify]
      split <;> simp
    have hwide : (BitVec.twoPow 8 (p % 8)).setWidth 16 = BitVec.twoPow 16 (p % 8) := by
      apply BitVec.eq_of_getLsbD_eq
      intro i hi
      simp only [BitVec.getLsbD_setWidth, BitVec.getLsbD_twoPow]
      grind
    have hlen : (block.take n).length = n := by
      rw [List.length_take]
      omega
    rw [if_neg (by omega), if_neg (by omega), if_pos hdata, htake, crc16_modify (by omega), hwide,
      hlen, BitVec.xor_assoc]
  · -- the flipped bit is in one of the two checksum bytes
    have htake : (flipBit p block).take n = block.take n := by
      apply List.ext_getElem?
      intro j
      simp only [flipBit, List.getElem?_take, List.getElem?_modify]
      by_cases hj : j < n
      · simp [hj, show ¬ p / 8 = j by omega]
      · simp [hj]
    rw [htake, if_neg hdata]
    by_cases hhigh : p / 8 = n
    · rw [if_pos hhigh, if_neg (by omega), if_pos hhigh, join_flip_high _ _ hk, BitVec.xor_assoc,
        BitVec.xor_comm (BitVec.twoPow 16 (8 + p % 8)), ← BitVec.xor_assoc]
    · rw [if_neg hhigh, if_pos (by omega), if_neg hhigh, join_flip_low _ _ hk, BitVec.xor_assoc,
        BitVec.xor_comm (BitVec.twoPow 16 (p % 8)), ← BitVec.xor_assoc]

/-! ## Syndromes -/

/-- INTERNAL: a register with a single one meets the orbit of the register 1. -/
theorem steps_single {k j : ℕ} (hk : k < 16) (hj : k ≤ j) :
    crcBit^[j] (BitVec.twoPow 16 k) = crcBit^[j - k] 1#16 := by
  conv_lhs => rw [show j = j - k + k by omega]
  rw [Function.iterate_add_apply, crcBit_eq_step, ShiftRegister.steps_twoPow _ hk]

/-- The place of a syndrome on the orbit of the register 1, fifteen steps on. -/
def place (n p : ℕ) : ℕ :=
  if p / 8 < n then 8 * (n - p / 8) + 15 - p % 8
  else if p / 8 = n then 7 - p % 8
  else 15 - p % 8

/-- INTERNAL: every syndrome lies on the orbit of the register 1. -/
theorem steps_syndrome (n p : ℕ) : crcBit^[15] (syndrome n p) = crcBit^[place n p] 1#16 := by
  unfold syndrome place
  split_ifs
  · rw [← Function.iterate_add_apply, steps_single (by omega) (by omega)]
    congr 1
    omega
  · rw [steps_single (by omega) (by omega)]
    congr 1
    omega
  · rw [steps_single (by omega) (by omega)]

/-- INTERNAL: two bits of a block of at most 64 bytes have different syndromes. -/
theorem syndrome_injective {n p q : ℕ} (hn : n ≤ 62) (hp : p < 8 * (n + 2))
    (hq : q < 8 * (n + 2)) (h : syndrome n p = syndrome n q) : p = q := by
  have horbit : ShiftRegister.avoids 0xA001#16 1#16 511 1#16 = true := by decide +kernel
  have hsteps : crcBit^[place n p] 1#16 = crcBit^[place n q] 1#16 := by
    rw [← steps_syndrome, ← steps_syndrome, h]
  have hle : ∀ p < 8 * (n + 2), place n p ≤ 511 := by
    intro p hp
    unfold place
    split_ifs <;> omega
  rw [crcBit_eq_step] at hsteps
  have hplace := ShiftRegister.orbit_injective _ (by decide) horbit (hle p hp) (hle q hq) hsteps
  unfold place at hplace
  split_ifs at hplace <;> omega

/-- INTERNAL: every syndrome has an odd number of ones. -/
theorem parity_syndrome (n p : ℕ) : ShiftRegister.parity (syndrome n p) = true := by
  unfold syndrome
  split_ifs
  · rw [crcBit_eq_step, ShiftRegister.parity_steps _ (by decide)]
    exact ShiftRegister.parity_twoPow (by omega)
  · exact ShiftRegister.parity_twoPow (by omega)
  · exact ShiftRegister.parity_twoPow (by omega)

/-! ## Detection -/

/-- What flipping some bits of a block with `n` bytes of data adds to its residue. -/
def effect (n : ℕ) (ps : List ℕ) : BitVec 16 := ShiftRegister.xorSum (syndrome n) ps

theorem residue_flipBits_eq {n : ℕ} {block : List Byte} (hblock : block.length = n + 2)
    {ps : List ℕ} (hps : ∀ p ∈ ps, p < 8 * (n + 2)) :
    residue n (flipBits ps block) = residue n block ^^^ effect n ps := by
  induction ps with
  | nil => exact (BitVec.xor_zero).symm
  | cons p ps ih =>
    change residue n (flipBit p (flipBits ps block)) = _
    rw [residue_flipBit (by simpa using hblock) (hps p List.mem_cons_self),
      ih fun q hq => hps q (List.mem_cons_of_mem p hq), effect, effect, ShiftRegister.xorSum_cons,
      BitVec.xor_assoc, BitVec.xor_comm (syndrome n p)]

/-- INTERNAL: the parity of what is added counts the flipped bits. -/
theorem parity_effect (n : ℕ) (ps : List ℕ) :
    ShiftRegister.parity (effect n ps) = decide (ps.length % 2 = 1) := by
  induction ps with
  | nil => exact (show ShiftRegister.parity 0#16 = false by decide)
  | cons p ps ih =>
    rw [effect, ShiftRegister.xorSum_cons, ShiftRegister.parity_xor, parity_syndrome, ← effect, ih,
      List.length_cons]
    by_cases hodd : ps.length % 2 = 1
    · simp [hodd, show ¬ (ps.length + 1) % 2 = 1 by omega]
    · simp [hodd, show (ps.length + 1) % 2 = 1 by omega]

/-- INTERNAL: a block whose checksum matches does not match any more after two or an odd
number of its bits were flipped. -/
theorem residue_flipBits {n : ℕ} (hn : n ≤ 62) {block : List Byte}
    (hblock : block.length = n + 2) (hgood : residue n block = 0#16) {ps : List ℕ}
    (hnodup : ps.Nodup) (hps : ∀ p ∈ ps, p < 8 * (n + 2))
    (hcount : ps.length = 2 ∨ ps.length % 2 = 1) : residue n (flipBits ps block) ≠ 0#16 := by
  intro hzero
  rw [residue_flipBits_eq hblock hps, hgood, BitVec.zero_xor] at hzero
  obtain htwo | hodd := hcount
  · obtain ⟨p, q, rfl⟩ := List.length_eq_two.mp htwo
    have hne : p ≠ q := by simpa using hnodup
    have hp := hps p (by simp)
    have hq := hps q (by simp)
    change syndrome n p ^^^ (syndrome n q ^^^ 0#16) = 0#16 at hzero
    rw [BitVec.xor_zero, BitVec.xor_eq_zero_iff] at hzero
    exact hne (syndrome_injective hn hp hq hzero)
  · have hparity := parity_effect n ps
    rw [hzero, decide_eq_true hodd] at hparity
    exact absurd hparity (by decide)

end PicoDrone.Analysis
