import Mathlib.Algebra.Order.BigOperators.Group.List
import Mathlib.Algebra.Order.Group.Nat
import Mathlib.Algebra.Ring.Nat
import Mathlib.Data.List.Chain
import Mathlib.Tactic.Common

/-!
# Tilings of an interval by blocks

An interval of addresses cut into blocks, each free or in use: what an allocator that keeps
its blocks in the memory it hands out maintains. `release` puts a block back and merges it
with a free one on either side, `firstFit` takes the first free block that is large enough.

A tiling with no two free blocks beside each other keeps that under both
(`coalesced_release`, `coalesced_carve`), its blocks do not overlap (`blocks_disjoint`), and
once none is in use it is one block (`eq_free_of_unused`).
-/

set_option autoImplicit false

namespace PicoDrone.Library

/-- A block of an interval, free or in use, with its size. -/
inductive Tile where
  | free (size : ℕ)
  | used (size : ℕ)
  deriving DecidableEq, Repr

namespace Tile

/-- The size of a block. -/
def size : Tile → ℕ
  | free s => s
  | used s => s

/-- The bytes of a block that are free. -/
def freeSize : Tile → ℕ
  | free s => s
  | used _ => 0

/-- The block is free. -/
def IsFree : Tile → Prop
  | free _ => True
  | used _ => False

end Tile

namespace Tiling

/-- The bytes that blocks cover. -/
def extent (L : List Tile) : ℕ := (L.map Tile.size).sum

/-- The bytes of the free blocks. -/
def freeBytes (L : List Tile) : ℕ := (L.map Tile.freeSize).sum

/-- The blocks with their addresses, from an address on. -/
def blocks (a : ℕ) : List Tile → List (ℕ × Tile)
  | [] => []
  | x :: L => (a, x) :: blocks (a + x.size) L

/-- The sizes of the free blocks. -/
def freeSizes (L : List Tile) : List ℕ :=
  L.filterMap fun
    | .free s => some s
    | .used _ => none

/-- No two free blocks lie beside each other. -/
def Coalesced (L : List Tile) : Prop := L.IsChain fun s t => ¬(s.IsFree ∧ t.IsFree)

/-- A free block before others, merged with a free one that they begin with. -/
def absorb (s : ℕ) : List Tile → List Tile
  | .free s' :: post => .free (s + s') :: post
  | post => .free s :: post

/-- A block put back between others, merged with a free one on either side. -/
def release (pre : List Tile) (s : ℕ) (post : List Tile) : List Tile :=
  match pre.getLast? with
  | some (.free s') => pre.dropLast ++ absorb (s' + s) post
  | _ => pre ++ absorb s post

/-- A free block taken into use, cut if more than `minimum` of it would be left over. -/
def carve (minimum w : ℕ) (pre : List Tile) (s : ℕ) (post : List Tile) : List Tile :=
  if minimum < s - w then pre ++ .used w :: .free (s - w) :: post else pre ++ .used s :: post

/-- The size of the block that is then in use. -/
def taken (minimum w s : ℕ) : ℕ := if minimum < s - w then w else s

/-- The first free block of at least this size, with what lies before and behind it. -/
def firstFit (w : ℕ) : List Tile → Option (List Tile × ℕ × List Tile)
  | [] => none
  | .free s :: L =>
    if s < w then (firstFit w L).map fun found => (.free s :: found.1, found.2)
    else some ([], s, L)
  | .used s :: L => (firstFit w L).map fun found => (.used s :: found.1, found.2)

section Lists

variable {a b s t w : ℕ} {L L' pre post : List Tile}

@[simp] theorem extent_nil : extent [] = 0 := rfl

@[simp] theorem extent_cons (x : Tile) : extent (x :: L) = x.size + extent L := by
  simp [extent]

@[simp] theorem extent_append : extent (L ++ L') = extent L + extent L' := by
  simp [extent]

@[simp] theorem freeBytes_nil : freeBytes [] = 0 := rfl

@[simp] theorem freeBytes_cons (x : Tile) : freeBytes (x :: L) = x.freeSize + freeBytes L := by
  simp [freeBytes]

@[simp] theorem freeBytes_append : freeBytes (L ++ L') = freeBytes L + freeBytes L' := by
  simp [freeBytes]

@[simp] theorem freeSizes_nil : freeSizes [] = [] := rfl

@[simp] theorem freeSizes_free : freeSizes (.free s :: L) = s :: freeSizes L := rfl

@[simp] theorem freeSizes_used : freeSizes (.used s :: L) = freeSizes L := rfl

theorem sum_freeSizes : (freeSizes L).sum = freeBytes L := by
  induction L with
  | nil => rfl
  | cons x L ih => cases x <;> simp [ih, Tile.freeSize]

theorem freeBytes_le_extent : freeBytes L ≤ extent L := by
  induction L with
  | nil => exact Nat.le_refl _
  | cons x L ih =>
    rw [freeBytes_cons, extent_cons]
    cases x <;> simp only [Tile.freeSize, Tile.size] <;> omega

theorem le_freeBytes_of_mem (h : s ∈ freeSizes L) : s ≤ freeBytes L := by
  rw [← sum_freeSizes]
  exact List.le_sum_of_mem h

theorem mem_freeSizes : s ∈ freeSizes L ↔ .free s ∈ L := by
  induction L with
  | nil => simp
  | cons x L ih => cases x <;> simp [ih]

theorem blocks_append : blocks a (L ++ L') = blocks a L ++ blocks (a + extent L) L' := by
  induction L generalizing a with
  | nil => simp [blocks]
  | cons x L ih => simp [blocks, ih, Nat.add_assoc]

/-- INTERNAL: a block lies within the interval that the blocks cover. -/
theorem within_of_mem_blocks {x : Tile} (h : (b, x) ∈ blocks a L) :
    a ≤ b ∧ b + x.size ≤ a + extent L := by
  induction L generalizing a with
  | nil => simp [blocks] at h
  | cons y L ih =>
    simp only [blocks, List.mem_cons, Prod.mk.injEq] at h
    rw [extent_cons]
    obtain ⟨rfl, rfl⟩ | h := h
    · omega
    · have := ih h
      omega

/-- INTERNAL: the blocks lie one behind the other. -/
theorem blocks_apart : (blocks a L).Pairwise fun x y => x.1 + x.2.size ≤ y.1 := by
  induction L generalizing a with
  | nil => exact List.Pairwise.nil
  | cons x L ih => exact List.Pairwise.cons (fun y hy => (within_of_mem_blocks hy).1) ih

/-- INTERNAL: two blocks are one block or do not overlap. -/
theorem blocks_disjoint {c : ℕ} {x y : Tile} (hx : (b, x) ∈ blocks a L) (hy : (c, y) ∈ blocks a L) :
    (b, x) = (c, y) ∨ b + x.size ≤ c ∨ c + y.size ≤ b := by
  by_cases heq : (b, x) = (c, y)
  · exact Or.inl heq
  · have hpair : (blocks a L).Pairwise fun x y =>
        x.1 + x.2.size ≤ y.1 ∨ y.1 + y.2.size ≤ x.1 := blocks_apart.imp Or.inl
    have : Std.Symm fun x y : ℕ × Tile => x.1 + x.2.size ≤ y.1 ∨ y.1 + y.2.size ≤ x.1 :=
      ⟨fun _ _ => Or.symm⟩
    exact Or.inr (hpair.forall hx hy heq)

/-- INTERNAL: a block, found by its address. -/
theorem split_of_mem_blocks {x : Tile} (h : (b, x) ∈ blocks a L) :
    ∃ pre post, L = pre ++ x :: post ∧ b = a + extent pre := by
  induction L generalizing a with
  | nil => simp [blocks] at h
  | cons y L ih =>
    simp only [blocks, List.mem_cons, Prod.mk.injEq] at h
    obtain ⟨rfl, rfl⟩ | h := h
    · exact ⟨[], L, rfl, rfl⟩
    · obtain ⟨pre, post, rfl, rfl⟩ := ih h
      exact ⟨y :: pre, post, rfl, by simp [Nat.add_assoc]⟩

end Lists

section Release

variable {a b s w : ℕ} {L pre post : List Tile}

theorem absorb_of_not_free (h : ∀ x ∈ post.head?, ¬x.IsFree) : absorb s post = .free s :: post := by
  cases post with
  | nil => rfl
  | cons x post =>
    cases x with
    | free s' => exact absurd trivial (h (.free s') rfl)
    | used s' => rfl

theorem absorb_eq_free : ∃ t post', absorb s post = .free t :: post' := by
  cases post with
  | nil => exact ⟨_, _, rfl⟩
  | cons x post => cases x <;> exact ⟨_, _, rfl⟩

theorem release_nil : release [] s post = absorb s post := rfl

theorem release_free {s' : ℕ} :
    release (pre ++ [.free s']) s post = pre ++ absorb (s' + s) post := by
  simp [release]

theorem release_used {s' : ℕ} :
    release (pre ++ [.used s']) s post = pre ++ [.used s'] ++ absorb s post := by
  simp [release]

/-- INTERNAL: the three ways a list of blocks ends. -/
theorem eq_nil_or_ends (pre : List Tile) :
    pre = [] ∨ (∃ pre' s', pre = pre' ++ [.free s']) ∨ ∃ pre' s', pre = pre' ++ [.used s'] := by
  obtain rfl | ⟨pre', x, rfl⟩ := pre.eq_nil_or_concat
  · exact Or.inl rfl
  · cases x with
    | free s' => exact Or.inr (Or.inl ⟨pre', s', by simp⟩)
    | used s' => exact Or.inr (Or.inr ⟨pre', s', by simp⟩)

theorem extent_absorb : extent (absorb s post) = s + extent post := by
  cases post with
  | nil => rfl
  | cons x post => cases x <;> simp [absorb, Tile.size, Nat.add_assoc]

theorem freeBytes_absorb : freeBytes (absorb s post) = s + freeBytes post := by
  cases post with
  | nil => rfl
  | cons x post => cases x <;> simp [absorb, Tile.freeSize, Nat.add_assoc]

theorem extent_release : extent (release pre s post) = extent pre + s + extent post := by
  obtain rfl | ⟨pre', s', rfl⟩ | ⟨pre', s', rfl⟩ := eq_nil_or_ends pre
  · simp [release_nil, extent_absorb]
  · simp [release_free, extent_absorb, Tile.size, Nat.add_assoc]
  · simp [release_used, extent_absorb, Tile.size, Nat.add_assoc]

theorem freeBytes_release :
    freeBytes (release pre s post) = freeBytes pre + s + freeBytes post := by
  obtain rfl | ⟨pre', s', rfl⟩ | ⟨pre', s', rfl⟩ := eq_nil_or_ends pre
  · simp [release_nil, freeBytes_absorb]
  · simp [release_free, freeBytes_absorb, Tile.freeSize, Nat.add_assoc]
  · simp [release_used, freeBytes_absorb, Tile.freeSize, Nat.add_assoc]

theorem used_mem_blocks_absorb {u : ℕ} : (b, .used u) ∈ blocks a (absorb s post) ↔
    (b, .used u) ∈ blocks (a + s) post := by
  cases post with
  | nil => simp [absorb, blocks]
  | cons x post => cases x <;> simp [absorb, blocks, Tile.size, Nat.add_assoc]

/-- INTERNAL: a block put back changes none of the blocks in use. -/
theorem used_mem_blocks_release {u : ℕ} : (b, .used u) ∈ blocks a (release pre s post) ↔
    (b, .used u) ∈ blocks a pre ∨ (b, .used u) ∈ blocks (a + extent pre + s) post := by
  obtain rfl | ⟨pre', s', rfl⟩ | ⟨pre', s', rfl⟩ := eq_nil_or_ends pre
  · simp [release_nil, used_mem_blocks_absorb, blocks]
  · simp [release_free, blocks_append, used_mem_blocks_absorb, blocks, Tile.size, Nat.add_assoc]
  · simp [release_used, blocks_append, used_mem_blocks_absorb, blocks, Tile.size, Nat.add_assoc,
      or_assoc]

/-- INTERNAL: a free block before the place stays where it is, grown or not. -/
theorem free_mem_blocks_release {u : ℕ} (h : (b, .free u) ∈ blocks a pre) :
    ∃ u', (b, .free u') ∈ blocks a (release pre s post) := by
  obtain rfl | ⟨pre', s', rfl⟩ | ⟨pre', s', rfl⟩ := eq_nil_or_ends pre
  · simp [blocks] at h
  · rw [release_free, blocks_append]
    rw [blocks_append, List.mem_append] at h
    obtain h | h := h
    · exact ⟨u, List.mem_append_left _ h⟩
    · simp only [blocks, List.mem_singleton, Prod.mk.injEq] at h
      obtain ⟨t, post', habsorb⟩ : ∃ t post', absorb (s' + s) post = .free t :: post' :=
        absorb_eq_free
      exact ⟨t, List.mem_append_right _ (by rw [habsorb, h.1]; exact List.mem_cons_self)⟩
  · rw [release_used, blocks_append]
    exact ⟨u, List.mem_append_left _ h⟩

/-- INTERNAL: a property of sizes that sums keep. -/
theorem forall_release {P : ℕ → Prop} (hadd : ∀ x y, P x → P y → P (x + y))
    (hpre : ∀ x ∈ pre, P x.size) (hs : P s) (hpost : ∀ x ∈ post, P x.size) :
    ∀ x ∈ release pre s post, P x.size := by
  have habsorb (s : ℕ) (hs : P s) : ∀ x ∈ absorb s post, P x.size := by
    cases post with
    | nil => simpa [absorb, Tile.size] using hs
    | cons y post =>
      simp only [List.forall_mem_cons] at hpost
      cases y with
      | free s' =>
        simpa only [absorb, List.forall_mem_cons] using ⟨hadd _ _ hs hpost.1, hpost.2⟩
      | used s' =>
        simpa only [absorb, List.forall_mem_cons] using ⟨hs, hpost⟩
  obtain rfl | ⟨pre', s', rfl⟩ | ⟨pre', s', rfl⟩ := eq_nil_or_ends pre
  · exact habsorb s hs
  · rw [release_free]
    simp only [List.forall_mem_append, List.forall_mem_singleton] at hpre ⊢
    exact ⟨hpre.1, habsorb _ (hadd _ _ hpre.2 hs)⟩
  · rw [release_used]
    simp only [List.forall_mem_append] at hpre ⊢
    exact ⟨hpre, habsorb _ hs⟩

theorem coalesced_append : Coalesced (pre ++ post) ↔ Coalesced pre ∧ Coalesced post ∧
    ∀ x ∈ pre.getLast?, ∀ y ∈ post.head?, ¬(x.IsFree ∧ y.IsFree) :=
  List.isChain_append

/-- INTERNAL: what follows a free block is not free. -/
theorem coalesced_free_cons :
    Coalesced (.free s :: post) ↔ (∀ x ∈ post.head?, ¬x.IsFree) ∧ Coalesced post := by
  rw [Coalesced, List.isChain_cons]
  simp [Coalesced, Tile.IsFree]

theorem coalesced_used_cons : Coalesced (.used s :: post) ↔ Coalesced post := by
  rw [Coalesced, List.isChain_cons]
  simp [Coalesced, Tile.IsFree]

theorem coalesced_absorb (h : Coalesced post) : Coalesced (absorb s post) := by
  cases post with
  | nil => exact List.isChain_singleton _
  | cons x post =>
    cases x with
    | free s' => exact coalesced_free_cons.mpr (coalesced_free_cons.mp h)
    | used s' => exact coalesced_free_cons.mpr ⟨by simp [Tile.IsFree], h⟩

/-- CONTRACT: a block put back leaves no two free blocks beside each other. -/
theorem coalesced_release (hpre : Coalesced pre) (hpost : Coalesced post) :
    Coalesced (release pre s post) := by
  obtain rfl | ⟨pre', s', rfl⟩ | ⟨pre', s', rfl⟩ := eq_nil_or_ends pre
  · exact coalesced_absorb hpost
  · rw [release_free]
    obtain ⟨h, -, hlast⟩ := coalesced_append.mp hpre
    refine coalesced_append.mpr ⟨h, coalesced_absorb hpost, fun x hx y hy hxy => ?_⟩
    exact hlast x hx (.free s') rfl ⟨hxy.1, trivial⟩
  · rw [release_used]
    refine coalesced_append.mpr ⟨hpre, coalesced_absorb hpost, fun x hx y hy hxy => ?_⟩
    obtain rfl : .used s' = x := by simpa using hx
    exact hxy.1

/-- INTERNAL: a free block taken into use, with the rest of it left free or not. -/
theorem coalesced_split (h : Coalesced (pre ++ .free s :: post)) :
    Coalesced (pre ++ .used w :: post) ∧
      ∀ r, Coalesced (pre ++ .used w :: .free r :: post) := by
  obtain ⟨hpre, hrest, -⟩ := coalesced_append.mp h
  have hpost := coalesced_free_cons.mp hrest
  refine ⟨coalesced_append.mpr ⟨hpre, coalesced_used_cons.mpr hpost.2, ?_⟩,
    fun r => coalesced_append.mpr ⟨hpre, ?_, ?_⟩⟩
  · rintro x - y hy ⟨-, hfree⟩
    obtain rfl : .used w = y := by simpa using hy
    exact hfree
  · exact coalesced_used_cons.mpr (coalesced_free_cons.mpr hpost)
  · rintro x - y hy ⟨-, hfree⟩
    obtain rfl : .used w = y := by simpa using hy
    exact hfree

/-- CONTRACT: a block taken into use leaves no two free blocks beside each other. -/
theorem coalesced_carve {minimum : ℕ} (h : Coalesced (pre ++ .free s :: post)) :
    Coalesced (carve minimum w pre s post) := by
  rw [carve]
  split_ifs
  · exact (coalesced_split h).2 (s - w)
  · exact (coalesced_split h).1

theorem extent_carve {minimum : ℕ} (hws : w ≤ s) :
    extent (carve minimum w pre s post) = extent (pre ++ .free s :: post) := by
  rw [carve]
  split_ifs
  · simp only [extent_append, extent_cons, Tile.size]
    omega
  · simp only [extent_append, extent_cons, Tile.size]

theorem freeBytes_carve {minimum : ℕ} (hws : w ≤ s) :
    freeBytes (carve minimum w pre s post) + taken minimum w s =
      freeBytes (pre ++ .free s :: post) := by
  rw [carve, taken]
  split_ifs
  · simp only [freeBytes_append, freeBytes_cons, Tile.freeSize]
    omega
  · simp only [freeBytes_append, freeBytes_cons, Tile.freeSize]
    omega

/-- INTERNAL: the blocks in use after one more has been taken. -/
theorem used_mem_blocks_carve {minimum u : ℕ} (hws : w ≤ s) :
    (b, .used u) ∈ blocks a (carve minimum w pre s post) ↔
      (b, .used u) ∈ blocks a (pre ++ .free s :: post) ∨
        b = a + extent pre ∧ u = taken minimum w s := by
  rw [carve, taken]
  split_ifs
  · have : a + extent pre + w + (s - w) = a + extent pre + s := by omega
    simp only [blocks_append, blocks, Tile.size, List.mem_append, List.mem_cons, Prod.mk.injEq,
      Tile.used.injEq, reduceCtorEq, and_false, false_or, this]
    tauto
  · simp only [blocks_append, blocks, Tile.size, List.mem_append, List.mem_cons, Prod.mk.injEq,
      Tile.used.injEq, reduceCtorEq, and_false, false_or]
    tauto

/-- CONTRACT: once no block is in use, the interval is one free block. -/
theorem eq_free_of_unused (h : Coalesced L) (hfree : ∀ x ∈ L, x.IsFree) :
    L = [] ∨ L = [.free (extent L)] := by
  cases L with
  | nil => exact Or.inl rfl
  | cons x L =>
    cases x with
    | used s => exact (hfree (.used s) List.mem_cons_self).elim
    | free s =>
      cases L with
      | nil => exact Or.inr (by simp [Tile.size])
      | cons y L =>
        exact absurd (hfree y (by simp)) ((coalesced_free_cons.mp h).1 y rfl)

end Release

section FirstFit

variable {s w : ℕ} {L pre post : List Tile}

/-- INTERNAL: what first fit finds. -/
theorem firstFit_eq_some (h : firstFit w L = some (pre, s, post)) :
    L = pre ++ .free s :: post ∧ w ≤ s ∧ ∀ t ∈ freeSizes pre, t < w := by
  induction L generalizing pre with
  | nil => simp [firstFit] at h
  | cons x L ih =>
    cases x with
    | free s' =>
      simp only [firstFit] at h
      split_ifs at h with hlt
      · obtain ⟨⟨pre', s', post'⟩, hfound, heq⟩ := Option.map_eq_some_iff.mp h
        simp only [Prod.mk.injEq] at heq
        obtain ⟨rfl, rfl, rfl⟩ := heq
        obtain ⟨rfl, hle, hall⟩ := ih hfound
        exact ⟨rfl, hle, by simpa using ⟨hlt, hall⟩⟩
      · simp only [Option.some.injEq, Prod.mk.injEq] at h
        obtain ⟨rfl, rfl, rfl⟩ := h
        exact ⟨rfl, by omega, by simp⟩
    | used s' =>
      simp only [firstFit] at h
      obtain ⟨⟨pre', s', post'⟩, hfound, heq⟩ := Option.map_eq_some_iff.mp h
      simp only [Prod.mk.injEq] at heq
      obtain ⟨rfl, rfl, rfl⟩ := heq
      obtain ⟨rfl, hle, hall⟩ := ih hfound
      exact ⟨rfl, hle, hall⟩

/-- INTERNAL: first fit finds nothing exactly when every free block is too small. -/
theorem firstFit_eq_none : firstFit w L = none ↔ ∀ t ∈ freeSizes L, t < w := by
  induction L with
  | nil => simp [firstFit]
  | cons x L ih =>
    cases x with
    | free s =>
      simp only [firstFit, freeSizes_free, List.forall_mem_cons]
      split_ifs with hlt
      · simp [hlt, ih]
      · simp [hlt]
    | used s => simp [firstFit, ih]

end FirstFit

end Tiling

end PicoDrone.Library
