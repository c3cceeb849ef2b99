import PicoDrone.Library.BlockTiling
import PicoDrone.Model.Heap

/-!
# The free list in the memory of the heap

`Threaded m e p a L` says that the free ones among the blocks `L` from address `a` on are
linked in memory `m`, from the link at `p` to `e`. The loops over the list find what they look
for (`findInsertPosition_eq`, `findBlock_eq`), and `prvInsertBlockIntoFreeList` turns the list
of a tiling into that of the tiling with the block put back (`insertBlock_spec`), writing
nowhere else than the headers of the block and of the free one before it.
-/

set_option autoImplicit false

namespace PicoDrone.Analysis

open PicoDrone.Library PicoDrone.Library.Tiling PicoDrone.Model

/-- INTERNAL: the free blocks from `a` on are linked, from the link at `p` to `e`. -/
def Threaded (m : Memory) (e : ℕ) : ℕ → ℕ → List Tile → Prop
  | p, _, [] => pxNextFreeBlock m p = e
  | p, a, .free s :: L =>
    pxNextFreeBlock m p = a ∧ xBlockSize m a = s ∧ Threaded m e a (a + s) L
  | p, a, .used s :: L => Threaded m e p (a + s) L

/-- INTERNAL: where the last link of such a list lies. -/
def lastLink : ℕ → ℕ → List Tile → ℕ
  | p, _, [] => p
  | _, a, .free s :: L => lastLink a (a + s) L
  | p, a, .used s :: L => lastLink p (a + s) L

/-- INTERNAL: blocks are aligned and have room for a header and something behind it. -/
def Sized (L : List Tile) : Prop := ∀ x ∈ L, 16 ≤ x.size ∧ x.size % 8 = 0

section List

variable {m m' : Memory} {e n p q a b s v : ℕ} {L L' : List Tile}

theorem sized_cons {x : Tile} : Sized (x :: L) ↔ (16 ≤ x.size ∧ x.size % 8 = 0) ∧ Sized L :=
  List.forall_mem_cons

theorem sized_append : Sized (L ++ L') ↔ Sized L ∧ Sized L' := List.forall_mem_append

theorem lastLink_append :
    lastLink p a (L ++ L') = lastLink (lastLink p a L) (a + extent L) L' := by
  induction L generalizing p a with
  | nil => rfl
  | cons x L ih =>
    cases x <;> simp only [List.cons_append, lastLink, ih, extent_cons, Tile.size, Nat.add_assoc]

/-- INTERNAL: the last link lies at `p` or in a free block. -/
theorem lastLink_mem (p a : ℕ) (L : List Tile) :
    lastLink p a L = p ∨ ∃ s, (lastLink p a L, .free s) ∈ blocks a L := by
  induction L generalizing p a with
  | nil => exact Or.inl rfl
  | cons x L ih =>
    cases x with
    | free s =>
      simp only [lastLink, blocks, Tile.size, List.mem_cons]
      obtain h | ⟨t, h⟩ := ih a (a + s)
      · exact Or.inr ⟨s, Or.inl (by rw [h])⟩
      · exact Or.inr ⟨t, Or.inr h⟩
    | used s =>
      simp only [lastLink, blocks, Tile.size, List.mem_cons]
      obtain h | ⟨t, h⟩ := ih p (a + s)
      · exact Or.inl h
      · exact Or.inr ⟨t, Or.inr h⟩

/-- INTERNAL: a header lies inside its block. -/
theorem header_within {x : Tile} (hsized : Sized L) (h : (b, x) ∈ blocks a L) :
    a ≤ b ∧ b + 16 ≤ a + extent L := by
  obtain ⟨pre, post, rfl, rfl⟩ := split_of_mem_blocks h
  have := (hsized x (by simp)).1
  simp only [extent_append, extent_cons]
  omega

/-- INTERNAL: where the last link lies. -/
theorem lastLink_within (hsized : Sized L) :
    lastLink p a L = p ∨ a ≤ lastLink p a L ∧ lastLink p a L + 16 ≤ a + extent L := by
  obtain h | ⟨s, h⟩ := lastLink_mem p a L
  · exact Or.inl h
  · exact Or.inr (header_within hsized h)

theorem Threaded.exit (h : Threaded m e p a L) : pxNextFreeBlock m (lastLink p a L) = e := by
  induction L generalizing p a with
  | nil => exact h
  | cons x L ih =>
    cases x with
    | free s => exact ih h.2.2
    | used s => exact ih h

/-- INTERNAL: the list of blocks behind others goes on at their last link. -/
theorem threaded_append : Threaded m e p a (L ++ L') ↔
    (∃ n, Threaded m n p a L) ∧ Threaded m e (lastLink p a L) (a + extent L) L' := by
  induction L generalizing p a with
  | nil => simp [Threaded, lastLink]
  | cons x L ih =>
    cases x with
    | free s =>
      simp only [List.cons_append, Threaded, lastLink, ih, extent_cons, Tile.size, Nat.add_assoc]
      constructor
      · rintro ⟨hp, hs, ⟨n, hn⟩, hrest⟩
        exact ⟨⟨n, hp, hs, hn⟩, hrest⟩
      · rintro ⟨⟨n, hp, hs, hn⟩, hrest⟩
        exact ⟨hp, hs, ⟨n, hn⟩, hrest⟩
    | used s =>
      simp only [List.cons_append, Threaded, lastLink, ih, extent_cons, Tile.size, Nat.add_assoc]

/-- INTERNAL: the list is there in every memory with its headers, from any link to its head. -/
theorem Threaded.move (h : Threaded m e p a L) (hq : pxNextFreeBlock m' q = pxNextFreeBlock m p)
    (hagree : ∀ b s, (b, .free s) ∈ blocks a L → ∀ x, b ≤ x → x < b + 8 → m' x = m x) :
    Threaded m' e q a L := by
  induction L generalizing p q a with
  | nil => exact hq.trans h
  | cons x L ih =>
    cases x with
    | free s =>
      have hhead := hagree a s List.mem_cons_self
      refine ⟨hq.trans h.1, ?_, ih h.2.2 ?_ fun b t hb => hagree b t (List.mem_cons_of_mem _ hb)⟩
      · rw [← h.2.1]
        exact Memory.word_congr fun x h0 h1 => hhead x (by omega) (by omega)
      · exact Memory.word_congr fun x h0 h1 => hhead x (by omega) (by omega)
    | used s => exact ih h hq fun b t hb => hagree b t (List.mem_cons_of_mem _ hb)

/-- INTERNAL: the same for two memories that agree on all the blocks. -/
theorem Threaded.move_of_agree (hsized : Sized L) (h : Threaded m e p a L)
    (hq : pxNextFreeBlock m' q = pxNextFreeBlock m p)
    (hagree : ∀ x, a ≤ x → x < a + extent L → m' x = m x) : Threaded m' e q a L := by
  refine h.move hq fun b s hb x h0 h1 => ?_
  have := header_within hsized hb
  exact hagree x (by omega) (by omega)

/-- INTERNAL: a store into the last link leads the list to somewhere else. -/
theorem Threaded.relink (hsized : Sized L) (hp : p + 8 ≤ a ∨ a + extent L ≤ p) (hv : v < 2 ^ 32)
    (h : Threaded m n p a L) : Threaded (setNextFreeBlock m (lastLink p a L) v) v p a L := by
  induction L generalizing p a with
  | nil => exact Memory.word_setWord m p hv
  | cons x L ih =>
    have hx := (sized_cons.mp hsized).1
    have hL := (sized_cons.mp hsized).2
    rw [extent_cons] at hp
    cases x with
    | free s =>
      simp only [Tile.size] at hx hp
      have hlast := lastLink_within (p := a) (a := a + s) hL
      refine ⟨?_, ?_, ih hL (by omega) h.2.2⟩
      · exact (Memory.word_setWord_of_outside (by simp only [lastLink]; omega)).trans h.1
      · exact (Memory.word_setWord_of_outside (by simp only [lastLink]; omega)).trans h.2.1
    | used s =>
      simp only [Tile.size] at hx hp
      exact ih hL (by omega) h

/-- INTERNAL: the header of a free block holds its size. -/
theorem Threaded.size_of_mem (h : Threaded m e p a L) (hb : (b, .free s) ∈ blocks a L) :
    xBlockSize m b = s := by
  induction L generalizing p a with
  | nil => simp [blocks] at hb
  | cons x L ih =>
    cases x with
    | free t =>
      simp only [blocks, List.mem_cons, Prod.mk.injEq, Tile.free.injEq] at hb
      obtain ⟨rfl, rfl⟩ | hb := hb
      · exact h.2.1
      · exact ih h.2.2 hb
    | used t =>
      simp only [blocks, List.mem_cons, Prod.mk.injEq, reduceCtorEq, and_false, false_or] at hb
      exact ih h hb

/-- INTERNAL: how many free blocks there can be. -/
theorem sixteen_length_freeSizes_le (hsized : Sized L) : 16 * (freeSizes L).length ≤ extent L := by
  induction L with
  | nil => simp
  | cons x L ih =>
    have hx := (sized_cons.mp hsized).1
    have := ih (sized_cons.mp hsized).2
    cases x <;> simp only [freeSizes_free, freeSizes_used, List.length_cons, extent_cons] <;>
      omega

/-- INTERNAL: a link leads to the blocks behind it or to the end. -/
theorem Threaded.le_next (h : Threaded m e p a L) (he : a + extent L ≤ e) :
    a ≤ pxNextFreeBlock m p := by
  induction L generalizing p a with
  | nil =>
    rw [show pxNextFreeBlock m p = e from h]
    simpa using he
  | cons x L ih =>
    rw [extent_cons] at he
    cases x with
    | free s => exact h.1.ge
    | used s =>
      simp only [Tile.size] at he
      have := ih h (by omega)
      omega

/-- INTERNAL: the loop of an insertion ends at the last free block before the place.
SOURCE: FreeRTOS-KernelV10.6.2/portable/MemMang/heap_4.c:447-452 -/
theorem findInsertPosition_eq {turns x : ℕ} (hsized : Sized L) (h : Threaded m n p a L)
    (hx : x = a + extent L) (hn : x ≤ n) (hturns : (freeSizes L).length < turns) :
    findInsertPosition m x turns p = .ok (lastLink p a L) := by
  induction L generalizing p a turns with
  | nil =>
    obtain ⟨turns, rfl⟩ := Nat.exists_eq_succ_of_ne_zero (Nat.ne_of_gt hturns)
    rw [findInsertPosition, if_neg (by rw [show pxNextFreeBlock m p = n from h]; omega)]
    rfl
  | cons y L ih =>
    have hy := (sized_cons.mp hsized).1
    have hL := (sized_cons.mp hsized).2
    rw [extent_cons] at hx
    cases y with
    | free s =>
      simp only [freeSizes_free, List.length_cons] at hturns
      obtain ⟨turns, rfl⟩ := Nat.exists_eq_succ_of_ne_zero (show turns ≠ 0 by omega)
      simp only [Tile.size] at hx hy
      rw [findInsertPosition, if_pos (by rw [h.1]; omega), h.1]
      exact ih hL h.2.2 (by omega) (by omega)
    | used s =>
      simp only [Tile.size] at hx
      exact ih hL h (by omega) hturns

/-- INTERNAL: the loop of an allocation finds the first free block that fits, behind the link
to it, or the end marker.
SOURCE: FreeRTOS-KernelV10.6.2/portable/MemMang/heap_4.c:206-215 -/
theorem findBlock_eq {w turns : ℕ} (ha : 0 < a) (hsized : Sized L) (h : Threaded m e p a L)
    (hnull : pxNextFreeBlock m e = 0) (he : a + extent L ≤ e)
    (hturns : (freeSizes L).length < turns) :
    findBlock m w turns p (pxNextFreeBlock m p) = .ok (match firstFit w L with
      | some (pre, _, _) => (lastLink p a pre, a + extent pre)
      | none => (lastLink p a L, e)) := by
  induction L generalizing p a turns with
  | nil =>
    obtain ⟨turns, rfl⟩ := Nat.exists_eq_succ_of_ne_zero (Nat.ne_of_gt hturns)
    have hp : pxNextFreeBlock m p = e := h
    rw [hp, findBlock, if_neg fun hc => hc.2 hnull]
    rfl
  | cons y L ih =>
    have hy := (sized_cons.mp hsized).1
    have hL := (sized_cons.mp hsized).2
    rw [extent_cons] at he
    cases y with
    | free s =>
      simp only [freeSizes_free, List.length_cons] at hturns
      obtain ⟨turns, rfl⟩ := Nat.exists_eq_succ_of_ne_zero (show turns ≠ 0 by omega)
      simp only [Tile.size] at he hy
      have hnext := Threaded.le_next h.2.2 (by omega)
      rw [h.1, findBlock, h.2.1, firstFit]
      split_ifs with hgo hlt hlt
      · rw [ih (by omega) hL h.2.2 (by omega) (by omega)]
        cases firstFit w L with
        | none => rfl
        | some found => simp [lastLink, Tile.size, Nat.add_assoc]
      · exact absurd hgo.1 hlt
      · exact absurd ⟨hlt, by omega⟩ hgo
      · rfl
    | used s =>
      simp only [Tile.size] at he
      rw [ih (by omega) hL h (by omega) hturns, firstFit]
      cases firstFit w L with
      | none => rfl
      | some found => simp [lastLink, Tile.size, Nat.add_assoc]

end List

section Insert

variable {m : Memory} {e it blk t s : ℕ} {pre post : List Tile}

/-- INTERNAL: stores into the header of a block change no other byte. -/
theorem header_frame {v w y : ℕ} (hy : y < blk ∨ blk + 8 ≤ y) :
    setNextFreeBlock (setBlockSize m blk v) blk w y = m y := by
  rw [setNextFreeBlock, Memory.setWord_of_outside (by omega), setBlockSize,
    Memory.setWord_of_outside (by omega)]

/-- INTERNAL: the header that two stores leave. -/
theorem header_read (m : Memory) (blk : ℕ) {v w : ℕ} (hv : v < 2 ^ 32) (hw : w < 2 ^ 32) :
    pxNextFreeBlock (setNextFreeBlock (setBlockSize m blk v) blk w) blk = w ∧
      xBlockSize (setNextFreeBlock (setBlockSize m blk v) blk w) blk = v := by
  refine ⟨Memory.word_setWord _ _ hw, ?_⟩
  exact (Memory.word_setWord_of_outside (by omega)).trans (Memory.word_setWord _ _ hv)

/-- INTERNAL: a block that is linked behind, joined with the free block that it touches.
SOURCE: FreeRTOS-KernelV10.6.2/portable/MemMang/heap_4.c:468-488 -/
theorem joinBehind_spec (hsized : Sized post) (ht : 8 ≤ t) (hfits : e < 2 ^ 32)
    (hend : blk + t + extent post = e) (hit : it = blk ∨ it + 8 ≤ blk ∨ blk + 8 ≤ it)
    (hsize : xBlockSize m blk = t) (h : Threaded m e it (blk + t) post) :
    (∃ t' post', absorb t post = .free t' :: post' ∧
      xBlockSize (joinBehind e m it blk) blk = t' ∧
      Threaded (joinBehind e m it blk) e blk (blk + t') post') ∧
    ∀ y, y < blk ∨ blk + 8 ≤ y → joinBehind e m it blk y = m y := by
  have htouch : u32 (blk + xBlockSize m blk) = blk + t := by
    rw [hsize]
    exact u32_add (by omega)
  cases post with
  | nil =>
    have hnext : pxNextFreeBlock m it = e := h
    have hjoin : joinBehind e m it blk = setNextFreeBlock m blk e := by
      rw [extent_nil] at hend
      rw [joinBehind, if_pos (by rw [htouch, hnext]; omega), if_neg (by simp [hnext])]
    rw [hjoin]
    refine ⟨⟨t, [], rfl, ?_, Memory.word_setWord _ _ hfits⟩, fun y hy => ?_⟩
    · exact (Memory.word_setWord_of_outside (by omega)).trans hsize
    · exact Memory.setWord_of_outside (by omega)
  | cons x post =>
    have hx := (sized_cons.mp hsized).1
    have hpost := (sized_cons.mp hsized).2
    rw [extent_cons] at hend
    cases x with
    | free u =>
      simp only [Tile.size] at hx hend
      -- the block touches a free one, which is taken out of the list
      obtain ⟨hnext, hu, hrest⟩ := h
      have hkeep : pxNextFreeBlock (setBlockSize m blk (t + u)) it = blk + t := by
        refine (Memory.word_setWord_of_outside ?_).trans hnext
        omega
      have hsecond : pxNextFreeBlock (setBlockSize m blk (t + u)) (blk + t) =
          pxNextFreeBlock m (blk + t) := Memory.word_setWord_of_outside (by omega)
      have hjoin : joinBehind e m it blk = setNextFreeBlock (setBlockSize m blk (t + u)) blk
          (pxNextFreeBlock m (blk + t)) := by
        rw [joinBehind, if_pos (by rw [htouch, hnext]), if_pos (by omega)]
        simp only [hnext, hsize, hu, hkeep, hsecond]
      have hread := header_read m blk (v := t + u)
        (w := pxNextFreeBlock m (blk + t)) (by omega) (Memory.word_lt _ _)
      rw [hjoin]
      refine ⟨⟨t + u, post, rfl, hread.2, ?_⟩, fun y hy => header_frame hy⟩
      rw [show blk + (t + u) = blk + t + u by omega]
      refine hrest.move_of_agree hpost hread.1 fun y h0 _ => header_frame (by omega)
    | used u =>
      simp only [Tile.size] at hx hend
      have hnext := Threaded.le_next (L := post) h (by omega)
      have hjoin : joinBehind e m it blk = setNextFreeBlock m blk (pxNextFreeBlock m it) := by
        rw [joinBehind, if_neg (by rw [htouch]; omega)]
      rw [hjoin]
      refine ⟨⟨t, .used u :: post, rfl, ?_, ?_⟩, fun y hy => ?_⟩
      · exact (Memory.word_setWord_of_outside (by omega)).trans hsize
      · refine Threaded.move_of_agree hsized h (Memory.word_setWord _ _ (Memory.word_lt _ _)) ?_
        intro y h0 _
        exact Memory.setWord_of_outside (by omega)
      · exact Memory.setWord_of_outside (by omega)

/-- INTERNAL: a block lies between blocks whose free ones are linked past it. -/
structure Gap (B : HeapBuild) (m : Memory) (base e : ℕ) (pre : List Tile) (s : ℕ)
    (post : List Tile) : Prop where
  sized_pre : Sized pre
  sized : 16 ≤ s ∧ s % 8 = 0
  sized_post : Sized post
  extent_eq : base + extent pre + s + extent post = e
  fits : e + 8 ≤ 2 ^ 32
  short : e ≤ base + configTotalHeapSize
  apart : B.xStart + 8 ≤ base ∨ e + 8 ≤ B.xStart
  start_size : xBlockSize m B.xStart = 0
  before : ∃ n, Threaded m n B.xStart base pre
  size : xBlockSize m (base + extent pre) = s
  behind : Threaded m e (lastLink B.xStart base pre) (base + extent pre + s) post

/-- INTERNAL: what an insertion leaves in memory. -/
structure Inserted (B : HeapBuild) (m m' : Memory) (base e : ℕ) (pre : List Tile) (s : ℕ)
    (post : List Tile) : Prop where
  threaded : Threaded m' e B.xStart base (release pre s post)
  start_size : xBlockSize m' B.xStart = 0
  size_le : xBlockSize m' (base + extent pre) ≤ s + extent post
  frame : ∀ y, y < lastLink B.xStart base pre ∨ lastLink B.xStart base pre + 8 ≤ y →
    y < base + extent pre ∨ base + extent pre + 8 ≤ y → m' y = m y

variable {B : HeapBuild} {m' : Memory} {base : ℕ}

theorem prvInsertBlockIntoFreeList_eq {x : ℕ}
    (hfind : findInsertPosition m x heapTurns B.xStart = .ok it)
    (hjoin : joinBefore m it x = (m', blk)) :
    prvInsertBlockIntoFreeList B e m x =
      .ok (if it ≠ blk then setNextFreeBlock (joinBehind e m' it blk) it blk
        else joinBehind e m' it blk) := by
  rw [prvInsertBlockIntoFreeList, hfind]
  simp only [bind, Except.bind, hjoin]

/-- INTERNAL: a block and the free one behind it, as one block. -/
theorem Gap.absorb_eq {post' : List Tile} (h : Gap B m base e pre s post)
    (habsorb : absorb s post = .free t :: post') :
    Sized post' ∧ 16 ≤ t ∧ t + extent post' = s + extent post := by
  have hsized : ∀ x ∈ release [] s post, 16 ≤ x.size ∧ x.size % 8 = 0 :=
    forall_release (P := fun n => 16 ≤ n ∧ n % 8 = 0) (fun x y hx hy => by omega) (by simp)
      h.sized h.sized_post
  rw [release_nil, habsorb] at hsized
  have hsum : extent (absorb s post) = s + extent post := extent_absorb
  rw [habsorb, extent_cons] at hsum
  exact ⟨(sized_cons.mp hsized).2, (sized_cons.mp hsized).1.1, hsum⟩

theorem Gap.findInsertPosition_eq (h : Gap B m base e pre s post) :
    findInsertPosition m (base + extent pre) heapTurns B.xStart =
      .ok (lastLink B.xStart base pre) := by
  obtain ⟨n, hn⟩ := h.before
  have hnext := h.behind.le_next h.extent_eq.le
  rw [hn.exit] at hnext
  have := sixteen_length_freeSizes_le h.sized_pre
  have := h.sized.1
  have := h.extent_eq
  have := h.short
  refine PicoDrone.Analysis.findInsertPosition_eq h.sized_pre hn rfl (by omega) ?_
  rw [heapTurns]
  omega

/-- INTERNAL: a block that does not touch a free one before it.
SOURCE: FreeRTOS-KernelV10.6.2/portable/MemMang/heap_4.c:442-502 -/
theorem insert_apart (h : Gap B m base e pre s post)
    (hrel : release pre s post = pre ++ absorb s post)
    (hno : u32 (lastLink B.xStart base pre + xBlockSize m (lastLink B.xStart base pre)) ≠
      base + extent pre) :
    ∃ m', prvInsertBlockIntoFreeList B e m (base + extent pre) = .ok m' ∧
      Inserted B m m' base e pre s post := by
  have hlast := lastLink_within (p := B.xStart) (a := base) h.sized_pre
  have hext := h.extent_eq
  have hfits := h.fits
  have hs := h.sized.1
  have hapart := h.apart
  obtain ⟨n, hbefore⟩ := h.before
  set it := lastLink B.xStart base pre with hit
  set x := base + extent pre with hx
  obtain ⟨⟨t, post', habsorb, hsize, hbehind⟩, hframe⟩ :=
    joinBehind_spec h.sized_post (by omega) (by omega) hext (by omega) h.size h.behind
  set m2 := joinBehind e m it x with hm2
  obtain ⟨hsized, ht, hsum⟩ := h.absorb_eq habsorb
  refine ⟨setNextFreeBlock m2 it x, ?_, ?_, ?_, ?_, ?_⟩
  · rw [prvInsertBlockIntoFreeList_eq h.findInsertPosition_eq (if_neg hno), if_pos (by omega)]
  · rw [hrel, habsorb]
    refine threaded_append.mpr ⟨⟨x, ?_⟩, Memory.word_setWord _ _ (by omega), ?_, ?_⟩
    · refine Threaded.relink h.sized_pre (by omega) (by omega) (n := n) ?_
      refine hbefore.move_of_agree h.sized_pre ?_ fun y h0 h1 => hframe y (by omega)
      exact Memory.word_congr fun y h0 h1 => hframe y (by omega)
    · exact (Memory.word_setWord_of_outside (by omega)).trans hsize
    · refine hbehind.move_of_agree hsized (Memory.word_setWord_of_outside (by omega)) ?_
      intro y h0 h1
      exact Memory.setWord_of_outside (by omega)
  · refine Eq.trans (Memory.word_congr fun y h0 h1 => ?_) h.start_size
    rw [setNextFreeBlock, Memory.setWord_of_outside (by omega), hframe y (by omega)]
  · have : xBlockSize (setNextFreeBlock m2 it x) x = t :=
      (Memory.word_setWord_of_outside (by omega)).trans hsize
    rw [← hx, this]
    omega
  · intro y h0 h1
    rw [setNextFreeBlock, Memory.setWord_of_outside (by omega), hframe y h1]

/-- INTERNAL: a block that touches the free one before it.
SOURCE: FreeRTOS-KernelV10.6.2/portable/MemMang/heap_4.c:442-502 -/
theorem insert_joined {u : ℕ} (h : Gap B m base e (pre ++ [.free u]) s post) :
    ∃ m', prvInsertBlockIntoFreeList B e m (base + extent (pre ++ [.free u])) = .ok m' ∧
      Inserted B m m' base e (pre ++ [.free u]) s post := by
  have hsized := sized_append.mp h.sized_pre
  have hu := (hsized.2 (.free u) (by simp)).1
  have hlast := lastLink_within (p := B.xStart) (a := base) hsized.1
  obtain ⟨n, hbefore⟩ := h.before
  obtain ⟨⟨n', hpre⟩, hlink, husize, -⟩ := threaded_append.mp hbefore
  have hfits := h.fits
  have hs := h.sized.1
  have hapart := h.apart
  have hext := h.extent_eq
  set it := base + extent pre with hit
  have hx : base + extent (pre ++ [.free u]) = it + u := by simp [Tile.size, hit, Nat.add_assoc]
  have hlink_it : lastLink B.xStart base (pre ++ [.free u]) = it := by
    simp [lastLink_append, lastLink, hit]
  have hfind := h.findInsertPosition_eq
  have hsize := h.size
  have hbehind := h.behind
  rw [hx] at hext hfind hsize hbehind ⊢
  rw [hlink_it] at hfind hbehind
  simp only [Tile.size] at hu
  -- the size of the free block grows first
  set m1 := setBlockSize m it (u + s) with hm1
  have hjoin : joinBefore m it (it + u) = (m1, it) := by
    rw [joinBefore, husize, if_pos (u32_add (by omega)), hsize]
  have hkeep : ∀ y, y < it + 4 ∨ it + 8 ≤ y → m1 y = m y :=
    fun y hy => Memory.setWord_of_outside (by omega)
  have hbehind1 : Threaded m1 e it (it + (u + s)) post := by
    rw [← Nat.add_assoc]
    refine hbehind.move_of_agree h.sized_post ?_ fun y h0 _ => hkeep y (by omega)
    exact Memory.word_congr fun y h0 h1 => hkeep y (by omega)
  obtain ⟨⟨t, post', habsorb, hsize', hthread⟩, hframe⟩ :=
    joinBehind_spec h.sized_post (by omega) (by omega) (by omega) (Or.inl rfl)
      (Memory.word_setWord _ _ (by omega)) hbehind1
  set m2 := joinBehind e m1 it it with hm2
  have hagree : ∀ y, y < it ∨ it + 8 ≤ y → m2 y = m y := fun y hy =>
    (hframe y hy).trans (hkeep y (by omega))
  refine ⟨m2, ?_, ?_, ?_, ?_, ?_⟩
  · rw [prvInsertBlockIntoFreeList_eq hfind hjoin, if_neg (by simp)]
  · rw [release_free, habsorb]
    refine threaded_append.mpr ⟨⟨n', ?_⟩, ?_, hsize', hthread⟩
    · refine hpre.move_of_agree hsized.1 ?_ fun y h0 h1 => hagree y (by omega)
      exact Memory.word_congr fun y h0 h1 => hagree y (by omega)
    · exact (Memory.word_congr fun y h0 h1 => hagree y (by omega)).trans hlink
  · rw [← h.start_size]
    exact Memory.word_congr fun y h0 h1 => hagree y (by omega)
  · have : xBlockSize m2 (it + u) = s := by
      rw [← hsize]
      exact Memory.word_congr fun y h0 h1 => hagree y (by omega)
    rw [hx, this]
    omega
  · intro y h0 h1
    rw [hlink_it] at h0
    exact hagree y h0

/-- INTERNAL: a block put back into the free list.
SOURCE: FreeRTOS-KernelV10.6.2/portable/MemMang/heap_4.c:442-502 -/
theorem insertBlock_spec (h : Gap B m base e pre s post) :
    ∃ m', prvInsertBlockIntoFreeList B e m (base + extent pre) = .ok m' ∧
      Inserted B m m' base e pre s post := by
  have hext := h.extent_eq
  have hfits := h.fits
  have hs := h.sized.1
  have hapart := h.apart
  have hstart (hlast : lastLink B.xStart base pre = B.xStart) :
      u32 (lastLink B.xStart base pre + xBlockSize m (lastLink B.xStart base pre)) ≠
        base + extent pre := by
    have hxStart := B.xStart_fits
    rw [sizeofBlockLink] at hxStart
    rw [hlast, h.start_size, u32_add (by omega)]
    omega
  obtain rfl | ⟨pre', u, rfl⟩ | ⟨pre', u, rfl⟩ := eq_nil_or_ends pre
  · exact insert_apart h release_nil (hstart rfl)
  · exact insert_joined h
  · refine insert_apart h release_used ?_
    obtain hlast | ⟨t, ht⟩ := lastLink_mem B.xStart base (pre' ++ [.used u])
    · exact hstart hlast
    · -- the last free block ends where the block in use begins, or before
      obtain ⟨n, hbefore⟩ := h.before
      rw [hbefore.size_of_mem ht]
      simp only [blocks_append, blocks, List.mem_append, List.mem_singleton, Prod.mk.injEq,
        reduceCtorEq, and_false, or_false] at ht
      have hwithin := within_of_mem_blocks ht
      have hu := (h.sized_pre (.used u) (by simp)).1
      simp only [extent_append, extent_cons, extent_nil, Tile.size] at hext hu hwithin ⊢
      rw [u32_add (by omega)]
      omega

end Insert

end PicoDrone.Analysis
