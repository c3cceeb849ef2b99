import Mathlib.Data.List.Basic
import Mathlib.Tactic.Common

/-!
# Domain names in a message

A name is a list of labels. In a message each label follows its length, and a byte 0 ends the
name; instead of the rest of a name there may be a pointer to a place in the message.
`readName` reads a name at a place and `skipName` finds the place behind it. Both recover
what `nameBytes` writes (`readName_nameBytes`, `skipName_nameBytes`).
-/

set_option autoImplicit false

namespace PicoDrone.Library

/-- A label in a message. -/
def labelBytes (label : List (BitVec 8)) : List (BitVec 8) :=
  BitVec.ofNat 8 label.length :: label

/-- A name in a message. -/
def nameBytes (name : List (List (BitVec 8))) : List (BitVec 8) :=
  name.flatMap labelBytes ++ [0#8]

/-- A label that can be written. -/
def IsLabel (label : List (BitVec 8)) : Prop := 0 < label.length ∧ label.length ≤ 63

/-- The name at a place of a message, following at most `fuel` labels and pointers. -/
def readName (msg : List (BitVec 8)) : ℕ → ℕ → Option (List (List (BitVec 8)))
  | 0, _ => none
  | fuel + 1, pos => do
    let b ← msg[pos]?
    if b = 0#8 then some []
    else if b &&& 0xc0#8 = 0xc0#8 then
      let lo ← msg[pos + 1]?
      readName msg fuel ((b &&& 0x3f#8) ++ lo).toNat
    else if b.toNat ≤ 63 ∧ pos + 1 + b.toNat ≤ msg.length then
      let rest ← readName msg fuel (pos + 1 + b.toNat)
      some ((msg.drop (pos + 1)).take b.toNat :: rest)
    else none

/-- The place behind the name at a place of a message. -/
def skipName (msg : List (BitVec 8)) : ℕ → ℕ → Option ℕ
  | 0, _ => none
  | fuel + 1, pos => do
    let b ← msg[pos]?
    if b = 0#8 then some (pos + 1)
    else if b &&& 0xc0#8 = 0xc0#8 then some (pos + 2)
    else skipName msg fuel (pos + 1 + b.toNat)

@[simp] theorem nameBytes_nil : nameBytes [] = [0#8] := rfl

theorem nameBytes_cons (label : List (BitVec 8)) (name : List (List (BitVec 8))) :
    nameBytes (label :: name) = labelBytes label ++ nameBytes name := by
  simp [nameBytes]

@[simp] theorem labelBytes_length (label : List (BitVec 8)) :
    (labelBytes label).length = label.length + 1 := by
  simp [labelBytes]

theorem length_lt_nameBytes {name : List (List (BitVec 8))} :
    name.length < (nameBytes name).length := by
  induction name with
  | nil => simp
  | cons label name ih =>
    rw [nameBytes_cons, List.length_append, labelBytes_length, List.length_cons]
    omega

/-- INTERNAL: the length in front of a label is no end and no pointer. -/
theorem label_length {label : List (BitVec 8)} (h : IsLabel label) :
    (BitVec.ofNat 8 label.length).toNat = label.length ∧ BitVec.ofNat 8 label.length ≠ 0#8 ∧
      BitVec.ofNat 8 label.length &&& 0xc0#8 ≠ 0xc0#8 := by
  obtain ⟨hpos, hle⟩ := h
  generalize label.length = n at hpos hle
  have hall : ∀ n < 64, 0 < n → (BitVec.ofNat 8 n).toNat = n ∧ BitVec.ofNat 8 n ≠ 0#8 ∧
      BitVec.ofNat 8 n &&& 0xc0#8 ≠ 0xc0#8 := by decide
  exact hall n (by omega) hpos

theorem readName_label {before after label : List (BitVec 8)} (h : IsLabel label) (fuel : ℕ) :
    readName (before ++ (labelBytes label ++ after)) (fuel + 1) before.length =
      (readName (before ++ (labelBytes label ++ after)) fuel
        (before.length + (labelBytes label).length)).map (label :: ·) := by
  obtain ⟨hnat, hne, hptr⟩ := label_length h
  have hfirst : (before ++ (labelBytes label ++ after))[before.length]? =
      some (BitVec.ofNat 8 label.length) := by
    rw [List.getElem?_append_right (Nat.le_refl _), Nat.sub_self]
    rfl
  have htake : ((before ++ (labelBytes label ++ after)).drop (before.length + 1)).take
      label.length = label := by
    rw [← List.drop_drop, List.drop_left, labelBytes, List.cons_append, List.drop_one,
      List.tail_cons, List.take_left]
  have hroom : label.length ≤ 63 ∧
      before.length + 1 + label.length ≤ (before ++ (labelBytes label ++ after)).length := by
    refine ⟨h.2, ?_⟩
    rw [List.length_append, List.length_append, labelBytes_length]
    omega
  rw [readName, hfirst]
  simp only [Option.bind_eq_bind, Option.bind_some, if_neg hne, if_neg hptr, hnat, if_pos hroom,
    htake, labelBytes_length]
  rw [show before.length + 1 + label.length = before.length + (label.length + 1) by omega]
  cases readName (before ++ (labelBytes label ++ after)) fuel
    (before.length + (label.length + 1)) <;> rfl

/-- INTERNAL: a name that has been written is read back, by induction on its labels. -/
theorem readName_nameBytes {name : List (List (BitVec 8))} (h : ∀ label ∈ name, IsLabel label)
    {fuel : ℕ} (hfuel : name.length < fuel) (before after : List (BitVec 8)) :
    readName (before ++ (nameBytes name ++ after)) fuel before.length = some name := by
  induction name generalizing fuel before with
  | nil =>
    obtain ⟨fuel, rfl⟩ := Nat.exists_eq_succ_of_ne_zero (by omega : fuel ≠ 0)
    have hend : (before ++ (nameBytes [] ++ after))[before.length]? = some 0#8 := by
      rw [List.getElem?_append_right (Nat.le_refl _), Nat.sub_self]
      rfl
    rw [Nat.succ_eq_add_one, readName, hend]
    rfl
  | cons label name ih =>
    rw [List.length_cons] at hfuel
    obtain ⟨fuel, rfl⟩ := Nat.exists_eq_succ_of_ne_zero (by omega : fuel ≠ 0)
    have hrest := @ih (fun l hl => h l (List.mem_cons_of_mem label hl)) fuel (by omega)
      (before ++ labelBytes label)
    rw [List.length_append, List.append_assoc] at hrest
    rw [nameBytes_cons, List.append_assoc, Nat.succ_eq_add_one,
      readName_label (h label List.mem_cons_self), hrest]
    rfl

/-- INTERNAL: the place behind a name that has been written. -/
theorem skipName_nameBytes {name : List (List (BitVec 8))} (h : ∀ label ∈ name, IsLabel label)
    {fuel : ℕ} (hfuel : name.length < fuel) (before after : List (BitVec 8)) :
    skipName (before ++ (nameBytes name ++ after)) fuel before.length =
      some (before.length + (nameBytes name).length) := by
  induction name generalizing fuel before with
  | nil =>
    obtain ⟨fuel, rfl⟩ := Nat.exists_eq_succ_of_ne_zero (by omega : fuel ≠ 0)
    have hend : (before ++ (nameBytes [] ++ after))[before.length]? = some 0#8 := by
      rw [List.getElem?_append_right (Nat.le_refl _), Nat.sub_self]
      rfl
    rw [Nat.succ_eq_add_one, skipName, hend]
    rfl
  | cons label name ih =>
    rw [List.length_cons] at hfuel
    obtain ⟨fuel, rfl⟩ := Nat.exists_eq_succ_of_ne_zero (by omega : fuel ≠ 0)
    obtain ⟨hnat, hne, hptr⟩ := label_length (h label List.mem_cons_self)
    have hrest := @ih (fun l hl => h l (List.mem_cons_of_mem label hl)) fuel (by omega)
      (before ++ labelBytes label)
    rw [List.length_append, List.append_assoc] at hrest
    have hfirst : (before ++ (labelBytes label ++ (nameBytes name ++ after)))[before.length]? =
        some (BitVec.ofNat 8 label.length) := by
      rw [List.getElem?_append_right (Nat.le_refl _), Nat.sub_self]
      rfl
    rw [nameBytes_cons, List.append_assoc, Nat.succ_eq_add_one, skipName, hfirst]
    simp only [Option.bind_eq_bind, Option.bind_some, if_neg hne, if_neg hptr, hnat]
    rw [labelBytes_length] at hrest
    rw [show before.length + 1 + label.length = before.length + (label.length + 1) by omega, hrest,
      List.length_append, labelBytes_length]
    congr 1
    omega

/-- INTERNAL: a pointer to a place before 256. -/
theorem readName_pointer {msg : List (BitVec 8)} {pos : ℕ} {lo : BitVec 8} (fuel : ℕ)
    (hhi : msg[pos]? = some 0xc0#8) (hlo : msg[pos + 1]? = some lo) :
    readName msg (fuel + 1) pos = readName msg fuel lo.toNat ∧
      skipName msg (fuel + 1) pos = some (pos + 2) := by
  have hplace : ((0xc0#8 &&& 0x3f#8) ++ lo).toNat = lo.toNat := by
    rw [BitVec.toNat_append]
    simp
  constructor
  · rw [readName, hhi]
    simp only [Option.bind_eq_bind, Option.bind_some, hlo, hplace]
    rfl
  · rw [skipName, hhi]
    rfl

end PicoDrone.Library
