import PicoDrone.Library.Region

/-!
# Options with a code, a length and a value

A list of options as it lies in memory: each one is its code, the number of bytes of its
value, and the value. `Tlv.place` says where the first option with a code begins, and the
bytes there are the code, the length and the value of the option that `Tlv.first` names
(`place_eq_some`).
-/

set_option autoImplicit false

namespace PicoDrone.Library

/-- An option: a code and a value. -/
structure Tlv where
  code : BitVec 8
  value : List (BitVec 8)
  deriving DecidableEq, Repr

namespace Tlv

/-- An option in memory. -/
def bytes (o : Tlv) : List (BitVec 8) := o.code :: BitVec.ofNat 8 o.value.length :: o.value

/-- Some options in memory, one after the other. -/
def encode (opts : List Tlv) : List (BitVec 8) := opts.flatMap bytes

/-- The first option with a code. -/
def first (code : BitVec 8) (opts : List Tlv) : Option Tlv := opts.find? (·.code = code)

/-- Where the first option with a code begins, if the options begin at `pos`. -/
def place (code : BitVec 8) : ℕ → List Tlv → Option ℕ
  | _, [] => none
  | pos, o :: opts => if o.code = code then some pos else place code (pos + o.bytes.length) opts

@[simp] theorem bytes_length (o : Tlv) : o.bytes.length = 2 + o.value.length := by
  simp only [bytes, List.length_cons]
  omega

@[simp] theorem encode_nil : encode [] = [] := rfl

@[simp] theorem encode_cons (o : Tlv) (opts : List Tlv) :
    encode (o :: opts) = o.bytes ++ encode opts := rfl

/-- INTERNAL: the two bytes in front of the value of an option. -/
theorem holds_bytes {mem : ℕ → BitVec 8} {pos : ℕ} {o : Tlv} (h : Holds mem pos o.bytes) :
    mem pos = o.code ∧ mem (pos + 1) = BitVec.ofNat 8 o.value.length ∧
      Holds mem (pos + 2) o.value := by
  refine ⟨h 0 (by rw [bytes_length]; omega), h 1 (by rw [bytes_length]; omega), fun i hi => ?_⟩
  have hcell := h (i + 2) (by rw [bytes_length]; omega)
  rw [show pos + (i + 2) = pos + 2 + i by omega] at hcell
  exact hcell

theorem place_isSome_iff {code : BitVec 8} {opts : List Tlv} {pos : ℕ} :
    (place code pos opts).isSome ↔ (first code opts).isSome := by
  induction opts generalizing pos with
  | nil => rfl
  | cons o opts ih =>
    by_cases ho : o.code = code
    · simp [place, first, ho]
    · simpa [place, first, ho] using ih

/-- INTERNAL: at the place of the first option with a code lies that option. -/
theorem place_eq_some {mem : ℕ → BitVec 8} {code : BitVec 8} {opts : List Tlv} {pos p : ℕ}
    (hmem : Holds mem pos (encode opts)) (h : place code pos opts = some p) :
    ∃ o, first code opts = some o ∧ Holds mem p o.bytes ∧
      p + o.bytes.length ≤ pos + (encode opts).length := by
  induction opts generalizing pos with
  | nil => cases h
  | cons o opts ih =>
    rw [encode_cons, holds_append] at hmem
    rw [place] at h
    split at h
    · rename_i ho
      obtain rfl := Option.some.inj h
      refine ⟨o, by simp [first, ho], hmem.1, ?_⟩
      rw [encode_cons, List.length_append]
      omega
    · rename_i ho
      obtain ⟨found, hfound, hholds, hle⟩ := ih hmem.2 h
      refine ⟨found, by simpa [first, ho] using hfound, hholds, ?_⟩
      rw [encode_cons, List.length_append]
      omega

theorem place_eq_none_iff {code : BitVec 8} {opts : List Tlv} {pos : ℕ} :
    place code pos opts = none ↔ first code opts = none := by
  rw [← Option.not_isSome_iff_eq_none, ← Option.not_isSome_iff_eq_none, place_isSome_iff]

end Tlv

end PicoDrone.Library
