import Mathlib.Data.List.Nodup
import PicoDrone.Analysis.EepromStore

/-!
# Bursts of errors in a stored block

The flipped bits of a burst lie in a window of 16 bits. Inside the data they reach the register
of `crc16` in their own order, inside the checksum they are added as they are, so a burst in
either part changes the residue (`effect_of_data`, `effect_of_checksum`). The checksum is stored
high byte first, which is not the order of the register: across the boundary there are six
patterns whose sums leave the residue as it is (`blindBasis`), and no others
(`effect_eq_zero_iff`), and all of them cross it (`blind_crosses`). `readFromMemory` rejects every
burst but these (`burst_rejected_iff`).
-/

set_option autoImplicit false

namespace PicoDrone.Analysis

open PicoDrone.Library PicoDrone.Library.ShiftRegister PicoDrone.Model

/-! ## What a flipped bit adds to the residue -/

/-- INTERNAL: a bit of the data, in a register whose bits are the last `k` bits of the data.
SOURCE: eeprom/EEPROM.cpp:19-32 -/
theorem syndrome_data {n p k : ℕ} (hp : p < 8 * n) (hlow : 8 * n ≤ p + k)
    (hhigh : p + k - 8 * n < 16) :
    syndrome n p = crcBit^[k] (BitVec.twoPow 16 (p + k - 8 * n)) := by
  have hinj : Function.Injective crcBit^[15] := by
    rw [crcBit_eq_step]
    exact (step_injective _ (by decide)).iterate 15
  apply hinj
  rw [steps_syndrome, ← Function.iterate_add_apply, steps_single hhigh (by omega), place,
    if_pos (by omega)]
  congr 1
  omega

/-- The two bytes of a checksum exchanged. -/
def swapBytes (c : BitVec 16) : BitVec 16 := c <<< 8 ^^^ c >>> 8

theorem swapBytes_xor (a b : BitVec 16) :
    swapBytes (a ^^^ b) = swapBytes a ^^^ swapBytes b := by
  unfold swapBytes
  rw [BitVec.shiftLeft_xor_distrib, BitVec.ushiftRight_xor_distrib]
  ac_rfl

theorem swapBytes_swapBytes (c : BitVec 16) : swapBytes (swapBytes c) = c := by
  unfold swapBytes
  apply BitVec.eq_of_getLsbD_eq
  intro i hi
  simp only [BitVec.getLsbD_xor, BitVec.getLsbD_shiftLeft, BitVec.getLsbD_ushiftRight]
  have hout : c.getLsbD (8 + (8 + i)) = false := BitVec.getLsbD_of_ge _ _ (by omega)
  by_cases h8 : i < 8
  · simp [h8, hi, hout, show 8 + i < 16 by omega]
  · simp [h8, hi, hout, show i - 8 < 16 by omega, show i - 8 < 8 by omega,
      show 8 + (i - 8) = i by omega, show ¬ 8 + i < 16 by omega]

theorem swapBytes_twoPow : ∀ j < 16, swapBytes (BitVec.twoPow 16 j) =
    if j < 8 then BitVec.twoPow 16 (8 + j) else BitVec.twoPow 16 (j - 8) := by
  decide

/-- INTERNAL: a bit of the checksum, which is stored high byte first.
SOURCE: eeprom/EEPROM.cpp:48-49 79 -/
theorem syndrome_checksum {n p : ℕ} (hp : 8 * n ≤ p) (hp' : p < 8 * (n + 2)) :
    syndrome n p = swapBytes (BitVec.twoPow 16 (p - 8 * n)) := by
  rw [swapBytes_twoPow _ (by omega), syndrome, if_neg (by omega)]
  by_cases hhigh : p / 8 = n
  · rw [if_pos hhigh, if_pos (by omega)]
    congr 1
    omega
  · rw [if_neg hhigh, if_neg (by omega)]
    congr 1
    omega

/-! ## The data and the checksum apart -/

/-- The bits flipped in the data, in a register whose bits are the last `k` bits of the data. -/
def dataBits (n k : ℕ) (ps : List ℕ) : BitVec 16 :=
  xorSum (fun p => BitVec.twoPow 16 (p + k - 8 * n)) (ps.filter (· < 8 * n))

/-- The bits flipped in the checksum, in stored order. -/
def checksumBits (n : ℕ) (ps : List ℕ) : BitVec 16 :=
  xorSum (fun p => BitVec.twoPow 16 (p - 8 * n)) (ps.filter fun p => !decide (p < 8 * n))

/-- INTERNAL: a burst is seen by the check as two registers. -/
theorem effect_eq {n k : ℕ} {ps : List ℕ} (hps : ∀ p ∈ ps, p < 8 * (n + 2))
    (hwindow : ∀ p ∈ ps, p < 8 * n → 8 * n ≤ p + k ∧ p + k - 8 * n < 16) :
    effect n ps = crcBit^[k] (dataBits n k ps) ^^^ swapBytes (checksumBits n ps) := by
  have hdata : xorSum (syndrome n) (ps.filter (· < 8 * n)) =
      crcBit^[k] (dataBits n k ps) := by
    rw [dataBits, crcBit_eq_step, steps_xorSum, ← crcBit_eq_step]
    apply xorSum_congr
    intro p hp
    rw [List.mem_filter, decide_eq_true_iff] at hp
    obtain ⟨hlow, hhigh⟩ := hwindow p hp.1 hp.2
    exact syndrome_data hp.2 hlow hhigh
  have hchecksum : xorSum (syndrome n) (ps.filter fun p => !decide (p < 8 * n)) =
      swapBytes (checksumBits n ps) := by
    rw [checksumBits, map_xorSum swapBytes rfl swapBytes_xor]
    apply xorSum_congr
    intro p hp
    simp only [List.mem_filter, Bool.not_eq_true', decide_eq_false_iff_not] at hp
    exact syndrome_checksum (by omega) (hps p hp.1)
  rw [effect, xorSum_filter _ (fun p => decide (p < 8 * n)), hdata, hchecksum]

theorem dataBits_getLsbD {n k : ℕ} {ps : List ℕ} (hnodup : ps.Nodup)
    (hlow : ∀ p ∈ ps, p < 8 * n → 8 * n ≤ p + k) (i : ℕ) :
    (dataBits n k ps).getLsbD i = true ↔ i < 16 ∧ ∃ p ∈ ps, p < 8 * n ∧ p + k = 8 * n + i := by
  have hmap : ((ps.filter (· < 8 * n)).map fun p => p + k - 8 * n).Nodup := by
    refine List.Nodup.map_on ?_ (hnodup.filter _)
    intro p hp q hq heq
    rw [List.mem_filter, decide_eq_true_iff] at hp hq
    have := hlow p hp.1 hp.2
    have := hlow q hq.1 hq.2
    omega
  rw [dataBits, xorSum_twoPow hmap, decide_eq_true_iff]
  apply and_congr_right
  intro _
  simp only [List.mem_map, List.mem_filter, decide_eq_true_eq, and_assoc]
  constructor
  · rintro ⟨p, hp, hlt, rfl⟩
    have := hlow p hp hlt
    exact ⟨p, hp, hlt, by omega⟩
  · rintro ⟨p, hp, hlt, heq⟩
    exact ⟨p, hp, hlt, by omega⟩

theorem checksumBits_getLsbD {n : ℕ} {ps : List ℕ} (hnodup : ps.Nodup) (i : ℕ) :
    (checksumBits n ps).getLsbD i = true ↔ i < 16 ∧ 8 * n + i ∈ ps := by
  have hmap : ((ps.filter fun p => !decide (p < 8 * n)).map fun p => p - 8 * n).Nodup := by
    refine List.Nodup.map_on ?_ (hnodup.filter _)
    intro p hp q hq heq
    simp only [List.mem_filter, Bool.not_eq_true', decide_eq_false_iff_not] at hp hq
    omega
  rw [checksumBits, xorSum_twoPow hmap, decide_eq_true_iff]
  apply and_congr_right
  intro _
  simp only [List.mem_map, List.mem_filter, Bool.not_eq_true', decide_eq_false_iff_not]
  constructor
  · rintro ⟨p, ⟨hp, hge⟩, rfl⟩
    rwa [Nat.add_sub_of_le (by omega)]
  · intro hp
    exact ⟨_, ⟨hp, by omega⟩, by omega⟩

/-! ## Bursts across the boundary -/

/-- The six patterns whose sums pass the check, over the last six bits of the data and the first
nine of the checksum. -/
def blindBasis : List (BitVec 15) :=
  [0x0143#15, 0x0286#15, 0x050C#15, 0x0A18#15, 0x1430#15, 0x6820#15]

/-- The flipped bits around the boundary as a pattern. -/
def boundaryPattern (n : ℕ) (ps : List ℕ) : BitVec 15 :=
  xorSum (fun p => BitVec.twoPow 15 (p + 6 - 8 * n)) ps

/-- The flipped bits all lie around the boundary and are a sum of some of the six patterns. -/
def Blind (n : ℕ) (ps : List ℕ) : Prop :=
  (∀ p ∈ ps, 8 * n ≤ p + 6 ∧ p < 8 * n + 9) ∧
    ∃ gs ∈ blindBasis.sublists, boundaryPattern n ps = gs.foldr (· ^^^ ·) 0#15

instance (n : ℕ) (ps : List ℕ) : Decidable (Blind n ps) := inferInstanceAs (Decidable (_ ∧ _))

/-- What a pattern around the boundary adds to the residue. -/
def patternEffect (v : BitVec 15) : BitVec 16 :=
  crcBit^[15] ((v &&& 0x3F#15).setWidth 16 <<< 9) ^^^ swapBytes ((v >>> 6).setWidth 16)

theorem patternEffect_xor (a b : BitVec 15) :
    patternEffect (a ^^^ b) = patternEffect a ^^^ patternEffect b := by
  have hmask : (a ^^^ b) &&& 0x3F#15 = (a &&& 0x3F#15) ^^^ (b &&& 0x3F#15) := by
    apply BitVec.eq_of_getLsbD_eq
    intro i _
    simp only [BitVec.getLsbD_and, BitVec.getLsbD_xor, Bool.and_xor_distrib_right]
  unfold patternEffect
  rw [hmask, BitVec.setWidth_xor, BitVec.shiftLeft_xor_distrib, BitVec.ushiftRight_xor_distrib,
    BitVec.setWidth_xor, swapBytes_xor, crcBit_eq_step, steps_xor]
  ac_rfl

theorem patternEffect_twoPow : ∀ i < 15, patternEffect (BitVec.twoPow 15 i) =
    if i < 6 then crcBit^[15] (BitVec.twoPow 16 (i + 9))
    else swapBytes (BitVec.twoPow 16 (i - 6)) := by
  decide +kernel

/-- INTERNAL: the pattern decides what bits around the boundary add. -/
theorem effect_eq_patternEffect {n : ℕ} {ps : List ℕ} (hps : ∀ p ∈ ps, p < 8 * (n + 2))
    (hnear : ∀ p ∈ ps, 8 * n ≤ p + 6 ∧ p < 8 * n + 9) :
    effect n ps = patternEffect (boundaryPattern n ps) := by
  rw [effect, boundaryPattern, map_xorSum patternEffect (by decide +kernel) patternEffect_xor]
  apply xorSum_congr
  intro p hp
  obtain ⟨hlow, hhigh⟩ := hnear p hp
  rw [patternEffect_twoPow _ (by omega)]
  by_cases hdata : p < 8 * n
  · rw [if_pos (by omega), syndrome_data hdata (k := 15) (by omega) (by omega)]
    congr 2
    omega
  · rw [if_neg (by omega), syndrome_checksum (by omega) (hps p hp)]
    congr 2
    omega

/-- INTERNAL: a pattern that adds nothing is a sum of the six, since the bits of the data
determine those of the checksum. -/
theorem blind_of_patternEffect {v : BitVec 15} (h : patternEffect v = 0#16) :
    ∃ gs ∈ blindBasis.sublists, v = gs.foldr (· ^^^ ·) 0#15 := by
  have hsum : ∀ k < 64, ∃ gs ∈ blindBasis.sublists, gs.foldr (· ^^^ ·) 0#15 =
      BitVec.ofNat 15 k ^^^
        ((swapBytes (crcBit^[15] ((BitVec.ofNat 15 k).setWidth 16 <<< 9))).setWidth 15 <<< 6) := by
    decide +kernel
  have hlow : BitVec.ofNat 15 (v &&& 0x3F#15).toNat = v &&& 0x3F#15 := BitVec.ofNat_toNat _ _
  have hlt : (v &&& 0x3F#15).toNat < 64 := by
    rw [BitVec.toNat_and]
    exact Nat.lt_of_le_of_lt Nat.and_le_right (by decide)
  have hhigh : swapBytes (crcBit^[15] ((v &&& 0x3F#15).setWidth 16 <<< 9)) =
      (v >>> 6).setWidth 16 := by
    rw [patternEffect, BitVec.xor_eq_zero_iff] at h
    rw [h, swapBytes_swapBytes]
  obtain ⟨gs, hgs, hv⟩ := hsum _ hlt
  refine ⟨gs, hgs, ?_⟩
  rw [hv, hlow, hhigh]
  apply BitVec.eq_of_getLsbD_eq
  intro i hi
  have hmask : ∀ i < 15, (0x3F#15).getLsbD i = decide (i < 6) := by decide
  simp only [BitVec.getLsbD_xor, BitVec.getLsbD_and, hmask i hi, BitVec.getLsbD_shiftLeft,
    BitVec.getLsbD_setWidth, BitVec.getLsbD_ushiftRight]
  by_cases h6 : i < 6
  · simp [h6]
  · simp [h6, hi, show i - 6 < 15 by omega, show i - 6 < 16 by omega,
      show 6 + (i - 6) = i by omega]

/-- The flipped bits, at least one, lie in a window of 16 bits. -/
def Burst (ps : List ℕ) : Prop := ps ≠ [] ∧ ∃ s, ∀ p ∈ ps, s ≤ p ∧ p < s + 16

/-- INTERNAL: a register whose lowest bits are zero is a shifted number. -/
theorem ofNat_shiftLeft {d : BitVec 16} {k : ℕ} (hlow : ∀ i < k, d.getLsbD i = false) :
    BitVec.ofNat 16 (d.toNat / 2 ^ k) <<< k = d := by
  apply BitVec.eq_of_getLsbD_eq
  intro i hi
  rw [BitVec.getLsbD_shiftLeft, BitVec.getLsbD_ofNat, Nat.testBit_div_two_pow, ← BitVec.getLsbD]
  by_cases h : i < k
  · simp [h, hlow i h]
  · simp [h, hi, show i - k < 16 by omega, show i - k + k = i by omega]

/-- INTERNAL: a checksum with bits in its first byte only determines the bits of the data that
cancel it, and these are among the last six, or too far from it. -/
theorem localised_short {d c : BitVec 16} (hcancel : crcBit^[15] d = swapBytes c)
    (htop : d.getLsbD 15 = false) (hwindow : ∀ i, d.getLsbD i = true → c >>> (i + 1) = 0#16)
    (hsmall : c.toNat < 256) : ∀ i < 9, d.getLsbD i = false := by
  have hfew : ∀ k < 256,
      ((unstep 0xA001#16)^[15] (swapBytes (BitVec.ofNat 16 k))).getLsbD 15 = true ∨
        (∃ i < 9, ((unstep 0xA001#16)^[15] (swapBytes (BitVec.ofNat 16 k))).getLsbD i = true ∧
          BitVec.ofNat 16 k >>> (i + 1) ≠ 0#16) ∨
        ∀ i < 9, ((unstep 0xA001#16)^[15] (swapBytes (BitVec.ofNat 16 k))).getLsbD i = false := by
    decide +kernel
  have hd : (unstep 0xA001#16)^[15] (swapBytes (BitVec.ofNat 16 c.toNat)) = d := by
    rw [BitVec.ofNat_toNat, BitVec.setWidth_eq, ← hcancel, crcBit_eq_step,
      unsteps_steps _ (by decide)]
  have hcases := hfew _ hsmall
  rw [hd, BitVec.ofNat_toNat, BitVec.setWidth_eq] at hcases
  obtain h | ⟨i, -, hi, hne⟩ | h := hcases
  · rw [htop] at h
    cases h
  · exact absurd (hwindow i hi) hne
  · exact h

/-- INTERNAL: a checksum that reaches into its second byte leaves no room in the window for the
first nine bits of the register of the data. -/
theorem localised_long {d c : BitVec 16} (hcancel : crcBit^[15] d = swapBytes c)
    (htop : d.getLsbD 15 = false) (hwindow : ∀ i, d.getLsbD i = true → c >>> (i + 1) = 0#16)
    (hlarge : ¬ c.toNat < 256) : ∀ i < 9, d.getLsbD i = false := by
  have hbyte : ∀ i < 8, d.getLsbD i = false := by
    intro i hi
    rw [← Bool.not_eq_true]
    intro hbit
    have hzero := congrArg BitVec.toNat (hwindow i hbit)
    rw [BitVec.toNat_ushiftRight, Nat.shiftRight_eq_div_pow, BitVec.toNat_ofNat, Nat.zero_mod,
      Nat.div_eq_zero_iff_lt (Nat.two_pow_pos _)] at hzero
    have hpow : 2 ^ (i + 1) ≤ 2 ^ 8 := Nat.pow_le_pow_right (by decide) hi
    exact hlarge (Nat.lt_of_lt_of_le hzero hpow)
  -- the eighth bit alone would flip a bit of the checksum beyond the window
  have hfew : ∀ k < 256, (BitVec.ofNat 16 k <<< 8).getLsbD 15 = false →
      (BitVec.ofNat 16 k <<< 8).getLsbD 8 = true →
        swapBytes (crcBit^[15] (BitVec.ofNat 16 k <<< 8)) >>> (8 + 1) ≠ 0#16 := by
    decide +kernel
  have hlt := d.isLt
  have hcases := hfew (d.toNat / 2 ^ 8) (by omega)
  rw [ofNat_shiftLeft hbyte, hcancel, swapBytes_swapBytes] at hcases
  intro i hi
  by_cases h8 : i < 8
  · exact hbyte i h8
  · obtain rfl : i = 8 := by omega
    rw [← Bool.not_eq_true]
    exact fun hbit => hcases htop hbit (hwindow 8 hbit)

/-- INTERNAL: a register with bits among the last fifteen of the data and a checksum whose bits
do not reach beyond the window of the first of them: if they cancel, only the last six bits of
the data are in it. -/
theorem localised {d c : BitVec 16} (hcancel : crcBit^[15] d = swapBytes c)
    (htop : d.getLsbD 15 = false)
    (hwindow : ∀ i j, d.getLsbD i = true → c.getLsbD j = true → j ≤ i) :
    ∀ i < 9, d.getLsbD i = false := by
  have hshift : ∀ i, d.getLsbD i = true → c >>> (i + 1) = 0#16 := by
    intro i hi
    apply BitVec.eq_of_getLsbD_eq
    intro j _
    rw [BitVec.getLsbD_ushiftRight, BitVec.getLsbD_zero, ← Bool.not_eq_true]
    intro hj
    have := hwindow i _ hi hj
    omega
  by_cases hsmall : c.toNat < 256
  · exact localised_short hcancel htop hshift hsmall
  · exact localised_long hcancel htop hshift hsmall

/-- INTERNAL: what cancels bits among the last six of the data lies in the first nine of the
checksum. -/
theorem short_checksum {d c : BitVec 16} (hcancel : crcBit^[15] d = swapBytes c)
    (htop : d.getLsbD 15 = false) (hfar : ∀ i < 9, d.getLsbD i = false) {j : ℕ}
    (hj : c.getLsbD j = true) : j < 9 := by
  have hfew : ∀ k < 64, swapBytes (crcBit^[15] (BitVec.ofNat 16 k <<< 9)) >>> 9 = 0#16 := by
    decide +kernel
  have htop' : d.toNat < 2 ^ 15 := by
    apply Nat.lt_pow_two_of_testBit
    intro i hi
    by_cases h15 : i = 15
    · rw [h15]
      exact htop
    · exact BitVec.getLsbD_of_ge d i (by omega)
  have hzero := hfew (d.toNat / 2 ^ 9) (by omega)
  rw [ofNat_shiftLeft hfar, hcancel, swapBytes_swapBytes] at hzero
  by_contra hge
  have hbit := congrArg (fun v => v.getLsbD (j - 9)) hzero
  simp only [BitVec.getLsbD_ushiftRight, show 9 + (j - 9) = j by omega, hj,
    BitVec.getLsbD_zero] at hbit
  cases hbit

/-- INTERNAL: a burst inside the data changes the residue.
SOURCE: eeprom/EEPROM.cpp:19-32 -/
theorem effect_of_data {n s : ℕ} {ps : List ℕ} (hnodup : ps.Nodup) (hne : ps ≠ [])
    (hps : ∀ p ∈ ps, p < 8 * n) (hwindow : ∀ p ∈ ps, s ≤ p ∧ p < s + 16) :
    effect n ps ≠ 0#16 := by
  obtain ⟨p, hp⟩ := List.exists_mem_of_ne_nil ps hne
  have hs : s < 8 * n := Nat.lt_of_le_of_lt (hwindow p hp).1 (hps p hp)
  have hlow : ∀ q ∈ ps, q < 8 * n → 8 * n ≤ q + (8 * n - s) := by
    intro q hq _
    have := (hwindow q hq).1
    omega
  have hnone : checksumBits n ps = 0#16 := by
    rw [checksumBits, List.filter_eq_nil_iff.mpr]
    · rfl
    · intro q hq
      simpa using hps q hq
  have heffect := effect_eq (k := 8 * n - s) (fun q hq => by have := hps q hq; omega)
    fun q hq hlt => ⟨hlow q hq hlt, by have := hwindow q hq; omega⟩
  intro hzero
  rw [heffect, hnone, show swapBytes 0#16 = 0#16 from rfl, BitVec.xor_zero, crcBit_eq_step] at hzero
  have hbits : dataBits n (8 * n - s) ps = 0#16 :=
    (step_injective _ (by decide)).iterate _ (hzero.trans (steps_zero _ _).symm)
  have hbit := (dataBits_getLsbD hnodup hlow (p - s)).mpr
    ⟨by have := (hwindow p hp).2; omega, p, hp, hps p hp, by have := (hwindow p hp).1; omega⟩
  rw [hbits] at hbit
  simp at hbit

/-- INTERNAL: a burst inside the checksum changes the residue.
SOURCE: eeprom/EEPROM.cpp:79 -/
theorem effect_of_checksum {n : ℕ} {ps : List ℕ} (hnodup : ps.Nodup) (hne : ps ≠ [])
    (hps : ∀ p ∈ ps, 8 * n ≤ p ∧ p < 8 * (n + 2)) : effect n ps ≠ 0#16 := by
  obtain ⟨p, hp⟩ := List.exists_mem_of_ne_nil ps hne
  have hnone : dataBits n 0 ps = 0#16 := by
    rw [dataBits, List.filter_eq_nil_iff.mpr]
    · rfl
    · intro q hq
      simpa using (hps q hq).1
  have heffect := effect_eq (k := 0) (fun q hq => (hps q hq).2)
    fun q hq hlt => absurd hlt (by have := (hps q hq).1; omega)
  intro hzero
  rw [heffect, hnone, Function.iterate_zero_apply, BitVec.zero_xor] at hzero
  have hbits : checksumBits n ps = 0#16 := by
    rw [← swapBytes_swapBytes (checksumBits n ps), hzero]
    rfl
  have hbit := (checksumBits_getLsbD hnodup (p - 8 * n)).mpr
    ⟨by have := (hps p hp).2; omega, by rwa [Nat.add_sub_of_le (hps p hp).1]⟩
  rw [hbits] at hbit
  simp at hbit

/-- INTERNAL: a burst that leaves the residue as it is crosses the boundary and stays near it. -/
theorem near_of_effect {n : ℕ} {ps : List ℕ} (hnodup : ps.Nodup)
    (hps : ∀ p ∈ ps, p < 8 * (n + 2)) (hburst : Burst ps) (hzero : effect n ps = 0#16) :
    ∀ p ∈ ps, 8 * n ≤ p + 6 ∧ p < 8 * n + 9 := by
  obtain ⟨hne, s, hwindow⟩ := hburst
  have hchecksum : ∃ p ∈ ps, 8 * n ≤ p := by
    by_contra hnone
    simp only [not_exists, not_and, Nat.not_le] at hnone
    exact effect_of_data hnodup hne hnone hwindow hzero
  obtain ⟨q, hq, hqge⟩ := hchecksum
  have hs : 8 * n < s + 16 := Nat.lt_of_le_of_lt hqge (hwindow q hq).2
  have hlow : ∀ p ∈ ps, p < 8 * n → 8 * n ≤ p + 15 := by
    intro p hp _
    have := (hwindow p hp).1
    omega
  have hcancel : crcBit^[15] (dataBits n 15 ps) = swapBytes (checksumBits n ps) := by
    rw [← BitVec.xor_eq_zero_iff, ← hzero]
    refine (effect_eq hps fun p hp hlt => ⟨hlow p hp hlt, ?_⟩).symm
    omega
  have htop : (dataBits n 15 ps).getLsbD 15 = false := by
    rw [← Bool.not_eq_true, dataBits_getLsbD hnodup hlow]
    rintro ⟨-, r, -, hr, heq⟩
    omega
  have hfar := localised hcancel htop (by
    intro i j hi hj
    obtain ⟨-, r, hr, -, hri⟩ := (dataBits_getLsbD hnodup hlow i).mp hi
    obtain ⟨-, hj⟩ := (checksumBits_getLsbD hnodup j).mp hj
    have := hwindow r hr
    have := hwindow _ hj
    omega)
  intro p hp
  by_cases hlt : p < 8 * n
  · -- a bit of the data
    refine ⟨?_, by omega⟩
    by_contra hout
    have := hlow p hp hlt
    have hbit := (dataBits_getLsbD hnodup hlow (p + 15 - 8 * n)).mpr
      ⟨by omega, p, hp, hlt, by omega⟩
    rw [hfar _ (by omega)] at hbit
    cases hbit
  · -- a bit of the checksum
    have hj := (checksumBits_getLsbD hnodup (p - 8 * n)).mpr
      ⟨by have := hps p hp; omega, by rwa [Nat.add_sub_of_le (by omega)]⟩
    have := short_checksum hcancel htop hfar hj
    omega

/-- INTERNAL: the bursts that the check does not see. -/
theorem effect_eq_zero_iff {n : ℕ} {ps : List ℕ} (hnodup : ps.Nodup)
    (hps : ∀ p ∈ ps, p < 8 * (n + 2)) (hburst : Burst ps) : effect n ps = 0#16 ↔ Blind n ps := by
  constructor
  · intro hzero
    have hnear := near_of_effect hnodup hps hburst hzero
    refine ⟨hnear, blind_of_patternEffect ?_⟩
    rw [← effect_eq_patternEffect hps hnear, hzero]
  · rintro ⟨hnear, gs, hgs, hpattern⟩
    have hsums : ∀ gs ∈ blindBasis.sublists,
        patternEffect (gs.foldr (· ^^^ ·) 0#15) = 0#16 := by decide +kernel
    rw [effect_eq_patternEffect hps hnear, hpattern, hsums gs hgs]

/-- CONTRACT: a burst that the check does not see has bits in the data and in the checksum. -/
theorem blind_crosses {n : ℕ} {ps : List ℕ} (hnodup : ps.Nodup)
    (hps : ∀ p ∈ ps, p < 8 * (n + 2)) (hburst : Burst ps) (hblind : Blind n ps) :
    (∃ p ∈ ps, p < 8 * n) ∧ ∃ p ∈ ps, 8 * n ≤ p := by
  have hzero := (effect_eq_zero_iff hnodup hps hburst).mpr hblind
  obtain ⟨hne, s, hwindow⟩ := hburst
  constructor
  · by_contra hnone
    simp only [not_exists, not_and, Nat.not_lt] at hnone
    exact effect_of_checksum hnodup hne (fun p hp => ⟨hnone p hp, hps p hp⟩) hzero
  · by_contra hnone
    simp only [not_exists, not_and, Nat.not_le] at hnone
    exact effect_of_data hnodup hne hnone hwindow hzero

/-! ## The read -/

/-- CONTRACT: a block as stored for some data, of any length the guard of `readFromMemory`
accepts, with a burst of its bits flipped on the chip: the caller gets zeros, unless the burst
is one of the sums of six patterns across the boundary.
SOURCE: eeprom/EEPROM.cpp:19-93 -/
theorem burst_rejected_iff (e : Eeprom Chip) (buffer : Region 64 Byte)
    (addressBuffer : Region 2 Byte) (memoryAddress : BitVec 16) (out : ℕ → Byte)
    (data : List Byte) (ps : List ℕ) (haccept : ¬ u32 (data.length + 2) > 64)
    (hnodup : ps.Nodup) (hps : ∀ p ∈ ps, p < 8 * (data.length + 2)) (hburst : Burst ps)
    (hholds : Chip.Holds e.bus memoryAddress.toNat (flipBits ps (storedBlock data))) :
    (∃ e', readFromMemory Chip.bus true buffer addressBuffer memoryAddress out data.length e =
        some (e', copyTo out (List.replicate data.length 0#8)) ∧
      e'.printed = e.printed ++ ["CRC mismatch! Data is corrupted.\n"]) ↔
      ¬ Blind data.length ps := by
  have hlen : data.length ≤ 62 := by
    -- a block on the chip is too short for the addition to wrap
    have hfits := hholds.fits
    rw [flipBits_length, storedBlock_length] at hfits
    simp only [eepromSize] at hfits
    rw [u32_of_fits (by omega) (by omega)] at haccept
    omega
  have hblock : (flipBits ps (storedBlock data)).length = data.length + 2 := by simp
  have hresidue : residue data.length (flipBits ps (storedBlock data)) = effect data.length ps := by
    rw [residue_flipBits_eq (storedBlock_length data) hps, residue_storedBlock, BitVec.zero_xor]
  obtain ⟨c, -, hread⟩ := readFromMemory_holds buffer addressBuffer memoryAddress out hlen
    hblock hholds
  rw [hresidue] at hread
  rw [← effect_eq_zero_iff hnodup hps hburst]
  constructor
  · rintro ⟨e', he', hprinted⟩ hblind
    rw [if_pos hblind] at hread
    obtain ⟨rfl, -⟩ := Prod.mk.inj (Option.some.inj (hread.symm.trans he'))
    simp [Eeprom.print] at hprinted
  · intro hseen
    rw [if_neg hseen] at hread
    exact ⟨_, hread, rfl⟩

/-- A chip that holds the block of one byte with a burst of its bits flipped. -/
def burstChip (ps : List ℕ) : Chip :=
  ⟨Region.put ⟨fun _ => 0#8⟩ 64 (flipBits ps (storedBlock [0x41#8])), 0⟩

/-- A burst of 16 bits across the boundary is seen. -/
theorem burst_rejected_iff_wide :
    Chip.Holds (burstChip [1, 4, 9, 16]) 64 (flipBits [1, 4, 9, 16] (storedBlock [0x41#8])) ∧
      ∃ e', readFromMemory Chip.bus true ⟨fun _ => 0#8⟩ ⟨fun _ => 0#8⟩ 64#16 (fun _ => 0xFF#8) 1
          ⟨0x50#16, burstChip [1, 4, 9, 16], []⟩ = some (e', copyTo (fun _ => 0xFF#8) [0#8]) ∧
        e'.printed = ["CRC mismatch! Data is corrupted.\n"] := by
  have hholds : Chip.Holds (burstChip [1, 4, 9, 16]) 64
      (flipBits [1, 4, 9, 16] (storedBlock [0x41#8])) :=
    holds_put_self (c := ⟨⟨fun _ => 0#8⟩, 0⟩) rfl (by decide) (by decide) (by decide)
  exact ⟨hholds, (burst_rejected_iff ⟨0x50#16, burstChip [1, 4, 9, 16], []⟩ ⟨fun _ => 0#8⟩
    ⟨fun _ => 0#8⟩ 64#16 (fun _ => 0xFF#8) [0x41#8] [1, 4, 9, 16] (by decide) (by decide)
    (by decide) ⟨by decide, 1, by decide⟩ hholds).mpr (by decide +kernel)⟩

/-- A burst of nine bits across the boundary is not seen: the read of the block delivers the
corrupted byte. -/
theorem burst_of_nine_delivered :
    Burst [2, 3, 8, 10] ∧
      Chip.Holds (burstChip [2, 3, 8, 10]) 64 (flipBits [2, 3, 8, 10] (storedBlock [0x41#8])) ∧
      ∃ e', readFromMemory Chip.bus true ⟨fun _ => 0#8⟩ ⟨fun _ => 0#8⟩ 64#16 (fun _ => 0xFF#8) 1
          ⟨0x50#16, burstChip [2, 3, 8, 10], []⟩ =
          some (e', copyTo (fun _ => 0xFF#8) [0x4D#8]) ∧
        e'.printed = ["Read data from EEPROM.\n"] := by
  have hholds : Chip.Holds (burstChip [2, 3, 8, 10]) 64
      (flipBits [2, 3, 8, 10] (storedBlock [0x41#8])) :=
    holds_put_self (c := ⟨⟨fun _ => 0#8⟩, 0⟩) rfl (by decide) (by decide) (by decide)
  obtain ⟨c, -, hread⟩ := readFromMemory_holds (e := ⟨0x50#16, burstChip [2, 3, 8, 10], []⟩)
    ⟨fun _ => 0#8⟩ ⟨fun _ => 0#8⟩ 64#16 (fun _ => 0xFF#8) (show 1 ≤ 62 by decide) (by decide) hholds
  rw [if_pos (by decide +kernel)] at hread
  exact ⟨⟨by decide, 2, by decide⟩, hholds, _, hread, rfl⟩

end PicoDrone.Analysis
