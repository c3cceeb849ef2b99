import Mathlib.Data.Nat.Bitwise
import PicoDrone.Analysis.HeapList

/-!
# The calls of the heap

`HeapOk B h L` says that the memory of the heap is tiled by the blocks `L`: the free ones are
the list from `xStart` to `pxEnd`, no two of them touch, the others carry the header of an
allocated block, and `xFreeBytesRemaining` is what is free. `allocate_spec` and
`vPortFree_spec` are the two calls on a tiled heap: first fit, and a release that merges.
Neither writes into a block in use.
-/

set_option autoImplicit false

namespace PicoDrone.Analysis

open PicoDrone.Library PicoDrone.Library.Tiling PicoDrone.Model

theorem and_alignmentMask (x : ℕ) : x &&& portByteAlignmentMask = x % 8 :=
  Nat.and_two_pow_sub_one_eq_mod x 3

theorem xHeapStructSize_eq : xHeapStructSize = 8 := by decide

theorem clearAlignmentBits_eq (x : ℕ) : clearAlignmentBits x = x / 8 * 8 := by
  rw [clearAlignmentBits, and_alignmentMask]
  omega

/-- INTERNAL: the bit that marks an allocated block. -/
theorem and_allocatedBitmask {x : ℕ} (hx : x < 2 ^ 32) :
    x &&& heapBlockAllocatedBitmask = if x < 2 ^ 31 then 0 else 2 ^ 31 := by
  rw [show heapBlockAllocatedBitmask = 2 ^ 31 by rfl, Nat.and_two_pow,
    Nat.testBit_eq_decide_div_mod_eq]
  split_ifs with h
  · rw [show x / 2 ^ 31 = 0 by omega]
    rfl
  · rw [show x / 2 ^ 31 = 1 by omega]
    rfl

theorem or_allocatedBitmask {x : ℕ} (hx : x < 2 ^ 31) :
    x ||| heapBlockAllocatedBitmask = x + 2 ^ 31 := by
  have h := Nat.two_pow_add_eq_or_of_lt hx 1
  rw [Nat.mul_one] at h
  rw [show heapBlockAllocatedBitmask = 2 ^ 31 by rfl, Nat.or_comm, ← h, Nat.add_comm]

theorem and_notAllocatedBitmask (x : ℕ) :
    x &&& (heapSizeMax - heapBlockAllocatedBitmask) = x % 2 ^ 31 :=
  Nat.and_two_pow_sub_one_eq_mod x 31

theorem configAssert_of_true {B : HeapBuild} {x : Bool} (hx : x = true) :
    configAssert B x = .ok () := by
  simp [configAssert, hx]

/-- INTERNAL: where the heap lies. -/
structure Layout (B : HeapBuild) : Prop where
  base_pos : 0 < B.pucAlignedHeap
  base_aligned : B.pucAlignedHeap % 8 = 0
  base_ge : B.ucHeap ≤ B.pucAlignedHeap
  end_aligned : B.endMarker % 8 = 0
  end_fits : B.endMarker + 8 ≤ B.ucHeap + configTotalHeapSize
  span : B.pucAlignedHeap + 131056 ≤ B.endMarker
  address : B.endMarker + 8 ≤ 2 ^ 32
  short : B.endMarker ≤ B.pucAlignedHeap + configTotalHeapSize
  apart : B.xStart + 8 ≤ B.pucAlignedHeap ∨ B.endMarker + 8 ≤ B.xStart

theorem HeapBuild.layout (B : HeapBuild) : Layout B := by
  have hpos := B.ucHeap_pos
  have hfits := B.ucHeap_fits
  have hapart := B.apart
  have hbase : B.pucAlignedHeap = (B.ucHeap + 7) / 8 * 8 := by
    rw [HeapBuild.pucAlignedHeap, and_alignmentMask, portByteAlignment, clearAlignmentBits_eq]
    split_ifs <;> omega
  have hend : B.endMarker = (B.ucHeap + 131064) / 8 * 8 := by
    rw [HeapBuild.endMarker, clearAlignmentBits_eq, HeapBuild.xTotalHeapSize, xHeapStructSize_eq,
      configTotalHeapSize]
    omega
  simp only [configTotalHeapSize, sizeofBlockLink] at hfits hapart
  constructor <;> (try rw [configTotalHeapSize]) <;> omega

/-- INTERNAL: the size of the block for a request. -/
theorem blockSizeFor_eq {n : ℕ} (hn : n ≤ heapSizeMax) :
    blockSizeFor n = if 0 < n ∧ (n + 15) / 8 * 8 < 2 ^ 32 then (n + 15) / 8 * 8 else 0 := by
  rw [heapSizeMax] at hn
  simp only [blockSizeFor, heapAddWillOverflow, and_alignmentMask, xHeapStructSize_eq, heapSizeMax,
    portByteAlignment, decide_eq_false_iff_not]
  split_ifs <;> omega

/-- INTERNAL: the memory of the heap is tiled by blocks. -/
structure HeapOk (B : HeapBuild) (h : Heap) (L : List Tile) : Prop where
  started : h.pxEnd = B.endMarker
  sized : Sized L
  coalesced : Coalesced L
  extent_eq : B.pucAlignedHeap + extent L = B.endMarker
  threaded : Threaded h.mem B.endMarker B.xStart B.pucAlignedHeap L
  start_size : xBlockSize h.mem B.xStart = 0
  end_null : pxNextFreeBlock h.mem B.endMarker = 0
  headers : ∀ b s, (b, .used s) ∈ blocks B.pucAlignedHeap L →
    xBlockSize h.mem b = s + 2 ^ 31 ∧ pxNextFreeBlock h.mem b = 0
  free_eq : h.xFreeBytesRemaining = freeBytes L

/-- INTERNAL: an address belongs to a free block. -/
def InFree (B : HeapBuild) (L : List Tile) (y : ℕ) : Prop :=
  ∃ b s, (b, .free s) ∈ blocks B.pucAlignedHeap L ∧ b ≤ y ∧ y < b + s

/-- INTERNAL: an address belongs to `xStart`. -/
def InStart (B : HeapBuild) (y : ℕ) : Prop := B.xStart ≤ y ∧ y < B.xStart + 8

section Calls

variable {B : HeapBuild} {h : Heap} {L pre post : List Tile} {s t b w : ℕ}

/-- INTERNAL: no block is larger than the heap. -/
theorem size_le_of_mem {x : Tile} (hext : B.pucAlignedHeap + extent L = B.endMarker)
    (hx : (b, x) ∈ blocks B.pucAlignedHeap L) :
    B.pucAlignedHeap ≤ b ∧ b + x.size ≤ B.endMarker ∧ x.size ≤ configTotalHeapSize := by
  have := within_of_mem_blocks hx
  have := (HeapBuild.layout B).short
  omega

/-- INTERNAL: the bytes of a block in use are neither in a free block nor in `xStart`. -/
theorem not_inFree_of_used (hext : B.pucAlignedHeap + extent L = B.endMarker)
    (hb : (b, .used t) ∈ blocks B.pucAlignedHeap L) {y : ℕ} (h0 : b ≤ y) (h1 : y < b + t) :
    ¬InFree B L y ∧ ¬InStart B y := by
  refine ⟨?_, ?_⟩
  · rintro ⟨c, u, hc, hy0, hy1⟩
    obtain h | h | h := blocks_disjoint hb hc
    · simp at h
    · simp only [Tile.size] at h
      omega
    · simp only [Tile.size] at h
      omega
  · rintro ⟨hy0, hy1⟩
    have hwithin := size_le_of_mem hext hb
    have := (HeapBuild.layout B).apart
    simp only [Tile.size] at hwithin
    omega

/-- INTERNAL: the last free block before a place lies in `xStart` or in a free block. -/
theorem lastLink_inFree (hext : B.pucAlignedHeap + extent (pre ++ post) = B.endMarker)
    (hsized : Sized pre) {y : ℕ} (hfree : ¬InFree B (pre ++ post) y) (hstart : ¬InStart B y) :
    y < lastLink B.xStart B.pucAlignedHeap pre ∨
      lastLink B.xStart B.pucAlignedHeap pre + 8 ≤ y := by
  by_contra hcon
  obtain hlast | ⟨u, hu⟩ := lastLink_mem B.xStart B.pucAlignedHeap pre
  · exact hstart ⟨by omega, by omega⟩
  · obtain ⟨pre', post', rfl, hb⟩ := split_of_mem_blocks hu
    have := (hsized (.free u) (by simp)).1
    refine hfree ⟨lastLink B.xStart B.pucAlignedHeap (pre' ++ .free u :: post'), u, ?_,
      by omega, ?_⟩
    · rw [blocks_append]
      exact List.mem_append_left _ hu
    · simp only [Tile.size] at this
      omega

theorem extent_mod (hsized : Sized L) : extent L % 8 = 0 := by
  induction L with
  | nil => rfl
  | cons x L ih =>
    have := (sized_cons.mp hsized).1
    have := ih (sized_cons.mp hsized).2
    rw [extent_cons]
    omega

/-- INTERNAL: a block has room for its header. -/
theorem header_size {x : Tile} (hsized : Sized L) (hb : (b, x) ∈ blocks B.pucAlignedHeap L) :
    16 ≤ x.size := by
  obtain ⟨pre, post, rfl, -⟩ := split_of_mem_blocks hb
  exact (hsized x (by simp)).1

/-- INTERNAL: the list with a block taken out of it. -/
theorem unlink_spec {m : Memory} (hsized : Sized (pre ++ .free s :: post))
    (hext : B.pucAlignedHeap + extent (pre ++ .free s :: post) = B.endMarker)
    (h : Threaded m B.endMarker B.xStart B.pucAlignedHeap (pre ++ .free s :: post))
    (hstart : xBlockSize m B.xStart = 0) :
    let b := B.pucAlignedHeap + extent pre
    let it := lastLink B.xStart B.pucAlignedHeap pre
    let m' := setNextFreeBlock m it (pxNextFreeBlock m b)
    pxNextFreeBlock m it = b ∧ xBlockSize m' b = s ∧ xBlockSize m' B.xStart = 0 ∧
      (∃ n, Threaded m' n B.xStart B.pucAlignedHeap pre) ∧
      Threaded m' B.endMarker it (b + s) post := by
  intro b it m'
  have hlayout := HeapBuild.layout B
  have hapart := hlayout.apart
  obtain ⟨hsized_pre, hsized'⟩ := sized_append.mp hsized
  have hs := (sized_cons.mp hsized').1
  obtain ⟨⟨n, hpre⟩, hlink, hsize, hpost⟩ := threaded_append.mp h
  have hlast := lastLink_within (p := B.xStart) (a := B.pucAlignedHeap) hsized_pre
  simp only [extent_append, extent_cons, Tile.size] at hext hs
  have hkeep : ∀ y, y < it ∨ it + 4 ≤ y → m' y = m y := fun y hy => Memory.setWord_of_outside hy
  refine ⟨hlink, ?_, ?_, ?_, ?_⟩
  · exact (Memory.word_setWord_of_outside (by omega)).trans hsize
  · exact (Memory.word_setWord_of_outside (by omega)).trans hstart
  · exact ⟨_, hpre.relink hsized_pre (by omega) (Memory.word_lt _ _)⟩
  · refine hpost.move_of_agree (sized_cons.mp hsized').2 ?_ fun y h0 _ => hkeep y (by omega)
    exact Memory.word_setWord _ _ (Memory.word_lt _ _)

theorem heapMinimumBlockSize_eq : heapMinimumBlockSize = 16 := by decide

/-- INTERNAL: a block that has been taken out of the list, cut to the wanted size.
SOURCE: FreeRTOS-KernelV10.6.2/portable/MemMang/heap_4.c:229-250 -/
theorem splitBlock_spec {m : Memory} (hsized : Sized (pre ++ .free s :: post))
    (hcoal : Coalesced (pre ++ .free s :: post))
    (hext : B.pucAlignedHeap + extent (pre ++ .free s :: post) = B.endMarker)
    (hw : 16 ≤ w ∧ w % 8 = 0) (hws : w ≤ s) (hb : b = B.pucAlignedHeap + extent pre)
    (hsize : xBlockSize m b = s) (hstart : xBlockSize m B.xStart = 0)
    (hpre : ∃ n, Threaded m n B.xStart B.pucAlignedHeap pre)
    (hpost : Threaded m B.endMarker (lastLink B.xStart B.pucAlignedHeap pre) (b + s) post) :
    ∃ m', splitBlock B B.endMarker m b w = .ok m' ∧
      Threaded m' B.endMarker B.xStart B.pucAlignedHeap (carve 16 w pre s post) ∧
      xBlockSize m' B.xStart = 0 ∧ xBlockSize m' b = taken 16 w s ∧
      ∀ y, y < lastLink B.xStart B.pucAlignedHeap pre ∨
          lastLink B.xStart B.pucAlignedHeap pre + 8 ≤ y →
        y < b ∨ b + 8 ≤ y → (16 < s - w → y < b + w ∨ b + w + 8 ≤ y) → m' y = m y := by
  have hlayout := HeapBuild.layout B
  have hfits := hlayout.address
  have hshort := hlayout.short
  have hapart := hlayout.apart
  have haligned := hlayout.base_aligned
  obtain ⟨hsized_pre, hsized'⟩ := sized_append.mp hsized
  obtain ⟨hs, hsized_post⟩ := sized_cons.mp hsized'
  have hlast := lastLink_within (p := B.xStart) (a := B.pucAlignedHeap) hsized_pre
  obtain ⟨n, hn⟩ := hpre
  simp only [extent_append, extent_cons, Tile.size] at hext hs
  have hrest : u32 (xBlockSize m b - w) = s - w := by
    rw [hsize]
    exact u32_sub hws (by omega)
  rw [splitBlock, hrest, heapMinimumBlockSize_eq, taken]
  by_cases hsplit : 16 < s - w
  · have hnew : u32 (b + w) = b + w := u32_add (by omega)
    have hblock : b % 8 = 0 := by
      have := extent_mod hsized_pre
      omega
    have hassert : configAssert B (b + w &&& portByteAlignmentMask = 0) = .ok () := by
      rw [and_alignmentMask]
      exact configAssert_of_true (decide_eq_true (by omega))
    simp only [if_pos hsplit, hnew, hassert, bind, Except.bind]
    -- the headers of the two parts
    set m3 := setBlockSize (setBlockSize m (b + w) (s - w)) b w with hm3
    have hkeep : ∀ y, y < b ∨ b + 8 ≤ y → y < b + w ∨ b + w + 8 ≤ y → m3 y = m y := by
      intro y h0 h1
      rw [hm3, setBlockSize, Memory.setWord_of_outside (by omega), setBlockSize,
        Memory.setWord_of_outside (by omega)]
    have hxend : B.pucAlignedHeap + extent (pre ++ [.used w]) = b + w := by
      simp [Tile.size, hb, Nat.add_assoc]
    have hlink : lastLink B.xStart B.pucAlignedHeap (pre ++ [.used w]) =
        lastLink B.xStart B.pucAlignedHeap pre := by simp [lastLink_append, lastLink]
    have hgap : Gap B m3 B.pucAlignedHeap B.endMarker (pre ++ [.used w]) (s - w) post := by
      refine ⟨sized_append.mpr ⟨hsized_pre, by simpa [Sized, Tile.size] using hw⟩, by omega,
        hsized_post, by omega, hfits, hshort, hapart, ?_, ⟨n, ?_⟩, ?_, ?_⟩
      · refine (Memory.word_congr fun y h0 h1 => hkeep y ?_ ?_).trans hstart <;> omega
      · refine threaded_append.mpr ⟨⟨n, ?_⟩, ?_⟩
        · refine hn.move_of_agree hsized_pre (Memory.word_congr fun y h0 h1 => hkeep y ?_ ?_)
            fun y h0 h1 => hkeep y ?_ ?_ <;> omega
        · refine Eq.trans (Memory.word_congr fun y h0 h1 => hkeep y ?_ ?_) hn.exit <;> omega
      · rw [hxend]
        exact (Memory.word_setWord_of_outside (by omega)).trans (Memory.word_setWord _ _ (by omega))
      · rw [hxend, hlink, show b + w + (s - w) = b + s by omega]
        refine hpost.move_of_agree hsized_post (Memory.word_congr fun y h0 h1 => hkeep y ?_ ?_)
            fun y h0 h1 => hkeep y ?_ ?_ <;> omega
    obtain ⟨m4, hm4, hins⟩ := insertBlock_spec hgap
    have hframe := hins.frame
    rw [hxend, hlink] at hframe
    have hthreaded := hins.threaded
    rw [release_used, absorb_of_not_free
      (coalesced_free_cons.mp (coalesced_append.mp hcoal).2.1).1] at hthreaded
    rw [hxend] at hm4
    refine ⟨m4, ?_, ?_, hins.start_size, ?_, ?_⟩
    · exact hm4
    · rw [carve, if_pos hsplit]
      simpa using hthreaded
    · refine Eq.trans (Memory.word_congr fun y h0 h1 => hframe y ?_ ?_)
        (Memory.word_setWord (setBlockSize m (b + w) (s - w)) (b + 4) (by omega)) <;> omega
    · intro y h0 h1 h2
      rw [hframe y h0 (h2 hsplit), hkeep y h1 (h2 hsplit)]
  · rw [if_neg hsplit, if_neg hsplit]
    refine ⟨m, rfl, ?_, hstart, hsize, fun y _ _ _ => rfl⟩
    rw [carve, if_neg hsplit]
    exact threaded_append.mpr ⟨⟨n, hn⟩, by rw [← hb]; exact hpost⟩

/-- INTERNAL: the list does not depend on the bytes of a block in use. -/
theorem Threaded.write_used {m m' : Memory} (hsized : Sized L)
    (hext : B.pucAlignedHeap + extent L = B.endMarker)
    (h : Threaded m B.endMarker B.xStart B.pucAlignedHeap L)
    (hb : (b, .used t) ∈ blocks B.pucAlignedHeap L)
    (hagree : ∀ y, y < b ∨ b + t ≤ y → m' y = m y) :
    Threaded m' B.endMarker B.xStart B.pucAlignedHeap L := by
  have hwithin := size_le_of_mem hext hb
  have hapart := (HeapBuild.layout B).apart
  simp only [Tile.size] at hwithin
  refine h.move (Memory.word_congr fun y h0 h1 => hagree y (by omega)) ?_
  intro c u hc y h0 h1
  have hu := header_size hsized hc
  obtain hd | hd | hd := blocks_disjoint hb hc
  · simp at hd
  · simp only [Tile.size] at hd
    exact hagree y (by omega)
  · simp only [Tile.size] at hd hu
    exact hagree y (by omega)

/-- INTERNAL: a block marked as allocated.
SOURCE: FreeRTOS-KernelV10.6.2/portable/MemMang/heap_4.c:264-267 -/
theorem heapAllocateBlock_spec {m : Memory} (ht : t < 2 ^ 31) (hsize : xBlockSize m b = t) :
    let m' := setNextFreeBlock (heapAllocateBlock m b) b 0
    xBlockSize m' b = t + 2 ^ 31 ∧ pxNextFreeBlock m' b = 0 ∧
      ∀ y, y < b ∨ b + 8 ≤ y → m' y = m y := by
  intro m'
  have hm' : m' = setNextFreeBlock (setBlockSize m b (t + 2 ^ 31)) b 0 := by
    simp only [m', heapAllocateBlock, hsize, or_allocatedBitmask ht]
  have hread := header_read m b (v := t + 2 ^ 31) (w := 0) (by omega) (by omega)
  rw [← hm'] at hread
  exact ⟨hread.2, hread.1, fun y hy => hm' ▸ header_frame hy⟩

/-- INTERNAL: the headers that an allocation writes lie in free blocks or in `xStart`. -/
theorem apart_of_not_inFree (hok : HeapOk B h (pre ++ .free s :: post)) (hws : w ≤ s) {y : ℕ}
    (hfree : ¬InFree B (pre ++ .free s :: post) y) (hstart : ¬InStart B y) :
    (y < lastLink B.xStart B.pucAlignedHeap pre ∨
      lastLink B.xStart B.pucAlignedHeap pre + 8 ≤ y) ∧
    (y < B.pucAlignedHeap + extent pre ∨ B.pucAlignedHeap + extent pre + 8 ≤ y) ∧
    (16 < s - w → y < B.pucAlignedHeap + extent pre + w ∨
      B.pucAlignedHeap + extent pre + w + 8 ≤ y) := by
  have hs := (hok.sized (.free s) (by simp)).1
  simp only [Tile.size] at hs
  have hmem : (B.pucAlignedHeap + extent pre, .free s) ∈
      blocks B.pucAlignedHeap (pre ++ .free s :: post) := by
    simp [blocks_append, blocks]
  refine ⟨lastLink_inFree hok.extent_eq (sized_append.mp hok.sized).1 hfree hstart, ?_, ?_⟩
  · by_contra hcon
    exact hfree ⟨_, s, hmem, by omega, by omega⟩
  · intro hsplit
    by_contra hcon
    exact hfree ⟨_, s, hmem, by omega, by omega⟩

/-- INTERNAL: what an allocation does to the heap and to its memory. -/
structure Taken (B : HeapBuild) (h h' : Heap) (w : ℕ) (pre : List Tile) (s : ℕ)
    (post : List Tile) : Prop where
  ok : HeapOk B h' (carve 16 w pre s post)
  minimum : h'.xMinimumEverFreeBytesRemaining =
    min h.xMinimumEverFreeBytesRemaining h'.xFreeBytesRemaining
  allocations : h'.xNumberOfSuccessfulAllocations = u32 (h.xNumberOfSuccessfulAllocations + 1)
  frees : h'.xNumberOfSuccessfulFrees = h.xNumberOfSuccessfulFrees
  frame : ∀ y, y < lastLink B.xStart B.pucAlignedHeap pre ∨
      lastLink B.xStart B.pucAlignedHeap pre + 8 ≤ y →
    y < B.pucAlignedHeap + extent pre ∨ B.pucAlignedHeap + extent pre + 8 ≤ y →
    (16 < s - w → y < B.pucAlignedHeap + extent pre + w ∨
      B.pucAlignedHeap + extent pre + w + 8 ≤ y) → h'.mem y = h.mem y

/-- INTERNAL: what a release does to the heap and to its memory. -/
structure Released (B : HeapBuild) (h h' : Heap) (pre : List Tile) (s : ℕ)
    (post : List Tile) : Prop where
  ok : HeapOk B h' (release pre s post)
  minimum : h'.xMinimumEverFreeBytesRemaining = h.xMinimumEverFreeBytesRemaining
  allocations : h'.xNumberOfSuccessfulAllocations = h.xNumberOfSuccessfulAllocations
  frees : h'.xNumberOfSuccessfulFrees = u32 (h.xNumberOfSuccessfulFrees + 1)
  unmarked : xBlockSize h'.mem (B.pucAlignedHeap + extent pre) < 2 ^ 31
  frame : ∀ y, y < lastLink B.xStart B.pucAlignedHeap pre ∨
      lastLink B.xStart B.pucAlignedHeap pre + 8 ≤ y →
    y < B.pucAlignedHeap + extent pre ∨ B.pucAlignedHeap + extent pre + 8 ≤ y →
    h'.mem y = h.mem y

/-- INTERNAL: a free block taken out of the list and handed out.
SOURCE: FreeRTOS-KernelV10.6.2/portable/MemMang/heap_4.c:221-268 -/
theorem takeBlock_spec (hok : HeapOk B h (pre ++ .free s :: post)) (hw : 16 ≤ w ∧ w % 8 = 0)
    (hws : w ≤ s) (hb : b = B.pucAlignedHeap + extent pre) :
    ∃ h', takeBlock B h (lastLink B.xStart B.pucAlignedHeap pre) b w = .ok (h', b + 8) ∧
      Taken B h h' w pre s post := by
  have hlayout := HeapBuild.layout B
  have hfits := hlayout.address
  have hshort := hlayout.short
  have hapart := hlayout.apart
  rw [configTotalHeapSize] at hshort
  have hext := hok.extent_eq
  have hlast :=
    lastLink_within (p := B.xStart) (a := B.pucAlignedHeap) (sized_append.mp hok.sized).1
  obtain ⟨hlink, hsize, hstart, hpre, hpost⟩ :=
    unlink_spec hok.sized hok.extent_eq hok.threaded hok.start_size
  rw [← hb] at hlink hsize hstart hpre hpost
  obtain ⟨m', hm', hthreaded, hstart', hsize', hframe⟩ :=
    splitBlock_spec hok.sized hok.coalesced hok.extent_eq hw hws hb hsize hstart hpre hpost
  have htaken : w ≤ taken 16 w s ∧ taken 16 w s ≤ s ∧ taken 16 w s % 8 = 0 := by
    have hs := hok.sized (.free s) (by simp)
    simp only [Tile.size] at hs
    rw [taken]
    split_ifs <;> omega
  have hfree : freeBytes (carve 16 w pre s post) + taken 16 w s = h.xFreeBytesRemaining := by
    rw [hok.free_eq, freeBytes_carve hws]
  simp only [extent_append, extent_cons, Tile.size] at hext
  have hfree' : freeBytes (carve 16 w pre s post) ≤ extent (carve 16 w pre s post) :=
    freeBytes_le_extent
  have hext' : B.pucAlignedHeap + extent (carve 16 w pre s post) = B.endMarker := by
    rw [extent_carve hws, hok.extent_eq]
  have hused : (b, .used (taken 16 w s)) ∈ blocks B.pucAlignedHeap (carve 16 w pre s post) :=
    (used_mem_blocks_carve hws).mpr (Or.inr ⟨hb, rfl⟩)
  have hsized : Sized (carve 16 w pre s post) := by
    have hold := hok.sized
    rw [carve]
    simp only [sized_append, sized_cons, Tile.size] at hold ⊢
    split_ifs
    · exact sized_append.mpr ⟨hold.1, sized_cons.mpr ⟨hw, sized_cons.mpr
        ⟨by simp only [Tile.size]; omega, hold.2.2⟩⟩⟩
    · exact sized_append.mpr ⟨hold.1, sized_cons.mpr ⟨hold.2.1, hold.2.2⟩⟩
  obtain ⟨hnewsize, hnewnext, hnewframe⟩ := heapAllocateBlock_spec (by omega) hsize'
  set m'' := setNextFreeBlock (heapAllocateBlock m' b) b 0 with hm''
  have hall : ∀ y, y < lastLink B.xStart B.pucAlignedHeap pre ∨
      lastLink B.xStart B.pucAlignedHeap pre + 8 ≤ y → y < b ∨ b + 8 ≤ y →
      (16 < s - w → y < b + w ∨ b + w + 8 ≤ y) → m'' y = h.mem y := by
    intro y h0 h1 h2
    rw [hnewframe y h1, hframe y h0 h1 h2, setNextFreeBlock, Memory.setWord_of_outside (by omega)]
  have hremaining : u32 (h.xFreeBytesRemaining - xBlockSize m' b) =
      freeBytes (carve 16 w pre s post) := by
    rw [hsize', u32_sub (by omega) (by omega)]
    omega
  have hres : takeBlock B h (lastLink B.xStart B.pucAlignedHeap pre) b w = .ok
      ({ h with
        mem := m''
        xFreeBytesRemaining := freeBytes (carve 16 w pre s post)
        xMinimumEverFreeBytesRemaining :=
          if freeBytes (carve 16 w pre s post) < h.xMinimumEverFreeBytesRemaining then
            freeBytes (carve 16 w pre s post)
          else h.xMinimumEverFreeBytesRemaining
        xNumberOfSuccessfulAllocations := u32 (h.xNumberOfSuccessfulAllocations + 1) },
      b + 8) := by
    have hreturn : u32 (b + xHeapStructSize) = b + 8 := by
      rw [xHeapStructSize_eq]
      exact u32_add (by omega)
    simp only [takeBlock, hlink, hreturn, hok.started, hm', bind, Except.bind, hremaining, hm'']
  refine ⟨_, hres, ?_, ?_, rfl, rfl, by rw [← hb]; exact hall⟩
  · refine ⟨hok.started, hsized, coalesced_carve hok.coalesced, hext', ?_, ?_, ?_, ?_, rfl⟩
    · exact Threaded.write_used hsized hext' hthreaded hused fun y hy => hnewframe y (by omega)
    · exact (Memory.word_congr fun y h0 h1 => hnewframe y (by omega)).trans hstart'
    · refine Eq.trans (Memory.word_congr fun y h0 h1 => hall y ?_ ?_ fun _ => ?_) hok.end_null <;>
        omega
    · intro c t hc
      obtain hc | ⟨rfl, rfl⟩ := (used_mem_blocks_carve hws).mp hc
      · have ht := header_size hok.sized hc
        simp only [Tile.size] at ht
        have hkeep (y : ℕ) (h0 : c ≤ y) (h1 : y < c + 8) : m'' y = h.mem y := by
          have hnot := not_inFree_of_used hok.extent_eq hc h0 (by omega)
          obtain ⟨hi, hy, hr⟩ := apart_of_not_inFree hok hws hnot.1 hnot.2
          exact hall y hi (by rw [hb]; exact hy) (by rw [hb]; exact hr)
        have hheader := hok.headers c t hc
        refine ⟨Eq.trans (Memory.word_congr fun y h0 h1 => hkeep y ?_ ?_) hheader.1,
          Eq.trans (Memory.word_congr fun y h0 h1 => hkeep y ?_ ?_) hheader.2⟩ <;> omega
      · rw [← hb]
        exact ⟨hnewsize, hnewnext⟩
  · have hmin (x y : ℕ) : (if x < y then x else y) = min y x := by split_ifs <;> omega
    exact hmin _ _

/-- INTERNAL: the search of an allocation on a tiled heap. -/
theorem HeapOk.findBlock_eq (hok : HeapOk B h L) :
    findBlock h.mem w heapTurns B.xStart (pxNextFreeBlock h.mem B.xStart) =
      .ok (match firstFit w L with
        | some (pre, _, _) =>
          (lastLink B.xStart B.pucAlignedHeap pre, B.pucAlignedHeap + extent pre)
        | none => (lastLink B.xStart B.pucAlignedHeap L, B.endMarker)) := by
  have hlayout := HeapBuild.layout B
  refine PicoDrone.Analysis.findBlock_eq hlayout.base_pos hok.sized hok.threaded hok.end_null
    hok.extent_eq.le ?_
  have hcount := sixteen_length_freeSizes_le hok.sized
  have hshort := hlayout.short
  have hext := hok.extent_eq
  rw [configTotalHeapSize] at hshort
  rw [heapTurns, configTotalHeapSize]
  omega

/-- INTERNAL: a request that no free block satisfies.
SOURCE: FreeRTOS-KernelV10.6.2/portable/MemMang/heap_4.c:198-283 -/
theorem allocate_none (hok : HeapOk B h L) (hnone : w = 0 ∨ firstFit w L = none) :
    allocate B h w = .ok (h, 0) := by
  rw [allocate]
  split_ifs with hvalid hroom
  · have hfit := hnone.resolve_left (by omega)
    simp only [hok.findBlock_eq, hfit, bind, Except.bind, hok.started, ne_eq, not_true_eq_false,
      if_false]
  · rfl
  · rfl

/-- INTERNAL: a request that the first fitting block satisfies.
SOURCE: FreeRTOS-KernelV10.6.2/portable/MemMang/heap_4.c:198-283 -/
theorem allocate_some (hok : HeapOk B h L) (hw : 0 < w)
    (hfit : firstFit w L = some (pre, s, post)) :
    allocate B h w = takeBlock B h (lastLink B.xStart B.pucAlignedHeap pre)
      (B.pucAlignedHeap + extent pre) w := by
  obtain ⟨rfl, hws, -⟩ := firstFit_eq_some hfit
  have hext := hok.extent_eq
  have hshort := (HeapBuild.layout B).short
  have hs := (hok.sized (.free s) (by simp)).1
  have hfree : w ≤ h.xFreeBytesRemaining := by
    rw [hok.free_eq]
    simp only [freeBytes_append, freeBytes_cons, Tile.freeSize]
    omega
  simp only [extent_append, extent_cons, Tile.size] at hext hs
  rw [configTotalHeapSize] at hshort
  have hvalid : heapBlockSizeIsValid w = true := by
    rw [heapBlockSizeIsValid, and_allocatedBitmask (by omega), if_pos (by omega)]
    rfl
  have hne : B.pucAlignedHeap + extent pre ≠ h.pxEnd := by
    rw [hok.started]
    omega
  simp only [allocate, hvalid, if_true, if_pos (And.intro hw hfree), hok.findBlock_eq, hfit, bind,
    Except.bind, if_pos hne]

/-- INTERNAL: a block no longer marked as allocated, between blocks whose list passes it by.
SOURCE: FreeRTOS-KernelV10.6.2/portable/MemMang/heap_4.c:325-332 -/
theorem heapFreeBlock_gap (hok : HeapOk B h (pre ++ .used s :: post))
    (hb : b = B.pucAlignedHeap + extent pre) :
    Gap B (heapFreeBlock h.mem b) B.pucAlignedHeap B.endMarker pre s post := by
  have hlayout := HeapBuild.layout B
  have hapart := hlayout.apart
  have hshort := hlayout.short
  have hext := hok.extent_eq
  obtain ⟨hsized_pre, hsized'⟩ := sized_append.mp hok.sized
  obtain ⟨hs, hsized_post⟩ := sized_cons.mp hsized'
  obtain ⟨⟨n, hpre⟩, hpost⟩ := threaded_append.mp hok.threaded
  have hlast := lastLink_within (p := B.xStart) (a := B.pucAlignedHeap) hsized_pre
  have hheader := (hok.headers b s (by simp [blocks_append, blocks, hb])).1
  simp only [extent_append, extent_cons, Tile.size] at hext hs
  rw [configTotalHeapSize] at hshort
  have hsize : xBlockSize h.mem b &&& (heapSizeMax - heapBlockAllocatedBitmask) = s := by
    rw [and_notAllocatedBitmask, hheader]
    omega
  have hkeep : ∀ y, y < b ∨ b + 8 ≤ y → heapFreeBlock h.mem b y = h.mem y := by
    intro y hy
    rw [heapFreeBlock, setBlockSize, Memory.setWord_of_outside (by omega)]
  refine ⟨hsized_pre, hs, hsized_post, by omega, hlayout.address,
    by rw [configTotalHeapSize]; omega, hapart, ?_, ⟨n, ?_⟩, ?_, ?_⟩
  · refine (Memory.word_congr fun y h0 h1 => hkeep y ?_).trans hok.start_size
    omega
  · refine hpre.move_of_agree hsized_pre (Memory.word_congr fun y h0 h1 => hkeep y ?_)
      fun y h0 h1 => hkeep y ?_ <;> omega
  · rw [← hb, heapFreeBlock, hsize]
    exact Memory.word_setWord _ _ (by omega)
  · refine Threaded.move_of_agree hsized_post hpost (Memory.word_congr fun y h0 h1 => hkeep y ?_)
      fun y h0 h1 => hkeep y ?_ <;> omega

/-- INTERNAL: a block in use put back.
SOURCE: FreeRTOS-KernelV10.6.2/portable/MemMang/heap_4.c:307-357 -/
theorem vPortFree_spec (hok : HeapOk B h (pre ++ .used s :: post))
    (hb : b = B.pucAlignedHeap + extent pre) :
    ∃ h', vPortFree B h (b + 8) = .ok h' ∧ Released B h h' pre s post := by
  have hlayout := HeapBuild.layout B
  have hfits := hlayout.address
  have hshort := hlayout.short
  have hext := hok.extent_eq
  have hgap := heapFreeBlock_gap hok hb
  have hmem : (b, .used s) ∈ blocks B.pucAlignedHeap (pre ++ .used s :: post) := by
    simp [blocks_append, blocks, hb]
  have hheader := hok.headers b s hmem
  have hfree : freeBytes (pre ++ .used s :: post) + s = freeBytes (release pre s post) := by
    simp only [freeBytes_append, freeBytes_cons, Tile.freeSize, freeBytes_release]
    omega
  have hfree_le : freeBytes (release pre s post) ≤ extent (release pre s post) :=
    freeBytes_le_extent
  have hcoal := coalesced_append.mp hok.coalesced
  obtain ⟨m', hm', hins⟩ := insertBlock_spec hgap
  have hsize := hgap.size
  have hframe := hins.frame
  have hsize_le := hins.size_le
  rw [← hb] at hm' hsize hframe hsize_le
  rw [extent_release] at hfree_le
  simp only [extent_append, extent_cons, Tile.size] at hext
  rw [configTotalHeapSize] at hshort
  have hpos := hlayout.base_pos
  have hapart := hlayout.apart
  have hs := hgap.sized.1
  have hpxLink : u32 (((b + 8 : ℕ) : ℤ) - xHeapStructSize) = b := by
    rw [xHeapStructSize_eq, u32_sub (by omega) (by omega)]
    omega
  have hbit : heapBlockIsAllocated h.mem b = true := by
    rw [heapBlockIsAllocated, hheader.1, and_allocatedBitmask (by omega), if_neg (by omega)]
    rfl
  have hall : ∀ y, y < lastLink B.xStart B.pucAlignedHeap pre ∨
      lastLink B.xStart B.pucAlignedHeap pre + 8 ≤ y → y < b ∨ b + 8 ≤ y → m' y = h.mem y := by
    intro y h0 h1
    rw [hframe y h0 h1, heapFreeBlock, setBlockSize, Memory.setWord_of_outside (by omega)]
  have hremaining : u32 (h.xFreeBytesRemaining + xBlockSize (heapFreeBlock h.mem b) b) =
      freeBytes (release pre s post) := by
    rw [hsize, hok.free_eq, u32_add (by omega), hfree]
  have hres : vPortFree B h (b + 8) = .ok
      { h with
        mem := m'
        xFreeBytesRemaining := freeBytes (release pre s post)
        xNumberOfSuccessfulFrees := u32 (h.xNumberOfSuccessfulFrees + 1) } := by
    have hassert : configAssert B true = .ok () := configAssert_of_true rfl
    rw [vPortFree, if_pos (by omega)]
    simp only [hpxLink, hassert, hbit, hheader.2, decide_true, if_true, hremaining, hok.started,
      hm', bind, Except.bind]
  refine ⟨_, hres, ?_, rfl, rfl, rfl, ?_, by rw [← hb]; exact hall⟩
  · have hlast := lastLink_within (p := B.xStart) (a := B.pucAlignedHeap) hgap.sized_pre
    refine ⟨hok.started, ?_, coalesced_release hcoal.1 (coalesced_used_cons.mp hcoal.2.1), ?_,
      hins.threaded, hins.start_size, ?_, ?_, rfl⟩
    · exact forall_release (P := fun n => 16 ≤ n ∧ n % 8 = 0) (fun x y hx hy => by omega)
        hgap.sized_pre hgap.sized hgap.sized_post
    · rw [extent_release]
      omega
    · refine Eq.trans (Memory.word_congr fun y h0 h1 => hall y ?_ ?_) hok.end_null <;> omega
    · intro c t hc
      have hc' : (c, .used t) ∈ blocks B.pucAlignedHeap (pre ++ .used s :: post) ∧
          (c + t ≤ b ∨ b + s ≤ c) := by
        obtain hc | hc := used_mem_blocks_release.mp hc
        · have := within_of_mem_blocks hc
          refine ⟨by rw [blocks_append]; exact List.mem_append_left _ hc, ?_⟩
          simp only [Tile.size] at this
          omega
        · have := within_of_mem_blocks hc
          refine ⟨?_, by omega⟩
          rw [blocks_append]
          exact List.mem_append_right _ (List.mem_cons_of_mem _ hc)
      have ht := header_size hok.sized hc'.1
      simp only [Tile.size] at ht
      have hkeep (y : ℕ) (h0 : c ≤ y) (h1 : y < c + 8) : m' y = h.mem y := by
        have hnot := not_inFree_of_used hok.extent_eq hc'.1 h0 (by omega)
        exact hall y (lastLink_inFree hok.extent_eq hgap.sized_pre hnot.1 hnot.2) (by omega)
      have hold := hok.headers c t hc'.1
      refine ⟨Eq.trans (Memory.word_congr fun y h0 h1 => hkeep y ?_ ?_) hold.1,
        Eq.trans (Memory.word_congr fun y h0 h1 => hkeep y ?_ ?_) hold.2⟩ <;> omega
  · rw [← hb]
    show xBlockSize m' b < 2 ^ 31
    omega

/-- INTERNAL: a heap that has just been set up is one free block.
SOURCE: FreeRTOS-KernelV10.6.2/portable/MemMang/heap_4.c:397-439 -/
theorem prvHeapInit_spec (B : HeapBuild) (h : Heap) :
    HeapOk B (prvHeapInit B h) [.free (B.endMarker - B.pucAlignedHeap)] ∧
      (prvHeapInit B h).xMinimumEverFreeBytesRemaining = B.endMarker - B.pucAlignedHeap := by
  have hlayout := HeapBuild.layout B
  have hspan := hlayout.span
  have haddress := hlayout.address
  have hapart := hlayout.apart
  have hbase := hlayout.base_aligned
  have hend := hlayout.end_aligned
  set a := B.pucAlignedHeap with ha
  set e := B.endMarker with he
  set m0 := setNextFreeBlock h.mem B.xStart a with hm0
  set m1 := setBlockSize m0 B.xStart 0 with hm1
  set m2 := setNextFreeBlock (setBlockSize m1 e 0) e 0 with hm2
  have hmem : (prvHeapInit B h).mem = setNextFreeBlock (setBlockSize m2 a (e - a)) a e := rfl
  have hlast := header_read m2 a (v := e - a) (w := e) (by omega) (by omega)
  have hframe : ∀ y, y < a ∨ a + 8 ≤ y → (prvHeapInit B h).mem y = m2 y := by
    intro y hy
    rw [hmem]
    exact header_frame hy
  have hframe2 : ∀ y, y < e ∨ e + 8 ≤ y → m2 y = m1 y := fun y hy => header_frame hy
  rw [← hmem] at hlast
  have hfree : (prvHeapInit B h).xFreeBytesRemaining = e - a := hlast.2
  refine ⟨⟨rfl, ?_, List.isChain_singleton _, ?_, ⟨?_, hlast.2, hlast.1⟩, ?_, ?_, ?_, ?_⟩, hlast.2⟩
  · simp only [Sized, List.mem_singleton, forall_eq, Tile.size]
    omega
  · simp only [extent_cons, extent_nil, Tile.size]
    omega
  · refine Eq.trans (Memory.word_congr fun y h0 h1 => ?_)
      (Memory.word_setWord h.mem B.xStart (show a < 2 ^ 32 by omega))
    rw [hframe y (by omega), hframe2 y (by omega), hm1, setBlockSize,
      Memory.setWord_of_outside (by omega), hm0]
    rfl
  · refine Eq.trans (Memory.word_congr fun y h0 h1 => ?_)
      (Memory.word_setWord m0 (B.xStart + 4) (show 0 < 2 ^ 32 by omega))
    rw [hframe y (by omega), hframe2 y (by omega)]
    rfl
  · refine Eq.trans (Memory.word_congr fun y h0 h1 => hframe y ?_)
      (header_read m1 e (v := 0) (w := 0) (by omega) (by omega)).1
    omega
  · simp [blocks]
  · simpa [Tile.freeSize] using hfree

/-- INTERNAL: a request on a tiled heap fails and changes nothing, or takes the first block that
fits.
SOURCE: FreeRTOS-KernelV10.6.2/portable/MemMang/heap_4.c:138-304 -/
theorem pvPortMalloc_spec {n : ℕ} (hok : HeapOk B h L) (hn : n ≤ heapSizeMax) :
    (pvPortMalloc B h n = .ok (h, 0) ∧ (n = 0 ∨ ∀ t ∈ freeSizes L, t < (n + 15) / 8 * 8)) ∨
    ∃ pre s post h', L = pre ++ .free s :: post ∧ 0 < n ∧ (n + 15) / 8 * 8 ≤ s ∧
      (∀ t ∈ freeSizes pre, t < (n + 15) / 8 * 8) ∧
      pvPortMalloc B h n = .ok (h', B.pucAlignedHeap + extent pre + 8) ∧
      Taken B h h' ((n + 15) / 8 * 8) pre s post := by
  have hlayout := HeapBuild.layout B
  have hstarted : h.pxEnd ≠ 0 := by
    have := hlayout.span
    rw [hok.started]
    omega
  have hzero : configAssert B ((0 : ℕ) &&& portByteAlignmentMask = 0) = .ok () :=
    configAssert_of_true (by rw [and_alignmentMask]; rfl)
  have hsmall : ∀ t ∈ freeSizes L, t < 2 ^ 31 := by
    intro t ht
    have hle := le_freeBytes_of_mem ht
    have hext := hok.extent_eq
    have hshort := hlayout.short
    have : freeBytes L ≤ extent L := freeBytes_le_extent
    rw [configTotalHeapSize] at hshort
    omega
  by_cases hw : 0 < n ∧ (n + 15) / 8 * 8 < 2 ^ 32
  · have hsize : blockSizeFor n = (n + 15) / 8 * 8 := by rw [blockSizeFor_eq hn, if_pos hw]
    cases hfit : firstFit ((n + 15) / 8 * 8) L with
    | none =>
      refine Or.inl ⟨?_, Or.inr (firstFit_eq_none.mp hfit)⟩
      simp only [pvPortMalloc, if_neg hstarted, hsize, allocate_none hok (Or.inr hfit), bind,
        Except.bind, hzero]
    | some found =>
      obtain ⟨pre, s, post⟩ := found
      obtain ⟨rfl, hws, hfirst⟩ := firstFit_eq_some hfit
      obtain ⟨h', hh', htaken⟩ := takeBlock_spec hok (w := (n + 15) / 8 * 8) (by omega) hws rfl
      have haligned : configAssert B
          (B.pucAlignedHeap + extent pre + 8 &&& portByteAlignmentMask = 0) = .ok () := by
        have := extent_mod (sized_append.mp hok.sized).1
        have := hlayout.base_aligned
        refine configAssert_of_true (decide_eq_true ?_)
        rw [and_alignmentMask]
        omega
      refine Or.inr ⟨pre, s, post, h', rfl, hw.1, hws, hfirst, ?_, htaken⟩
      simp only [pvPortMalloc, if_neg hstarted, hsize, allocate_some hok (by omega) hfit, hh', bind,
        Except.bind, haligned]
  · have hsize : blockSizeFor n = 0 := by rw [blockSizeFor_eq hn, if_neg hw]
    refine Or.inl ⟨?_, ?_⟩
    · simp only [pvPortMalloc, if_neg hstarted, hsize, allocate_none hok (Or.inl rfl), bind,
        Except.bind, hzero]
    · by_cases hn0 : n = 0
      · exact Or.inl hn0
      · exact Or.inr fun t ht => by have := hsmall t ht; omega

/-- INTERNAL: a store into the bytes behind the header of a block in use. -/
theorem HeapOk.write {m' : Memory} (hok : HeapOk B h L)
    (hb : (b, .used t) ∈ blocks B.pucAlignedHeap L)
    (hagree : ∀ y, y < b + 8 ∨ b + t ≤ y → m' y = h.mem y) : HeapOk B { h with mem := m' } L := by
  have hwithin := size_le_of_mem hok.extent_eq hb
  have hapart := (HeapBuild.layout B).apart
  have ht := header_size hok.sized hb
  simp only [Tile.size] at hwithin ht
  refine { hok with threaded := ?_, start_size := ?_, end_null := ?_, headers := ?_ }
  · exact Threaded.write_used hok.sized hok.extent_eq hok.threaded hb fun y hy =>
      hagree y (by omega)
  · exact (Memory.word_congr fun y h0 h1 => hagree y (by omega)).trans hok.start_size
  · exact (Memory.word_congr fun y h0 h1 => hagree y (by omega)).trans hok.end_null
  · intro c u hc
    have hu := header_size hok.sized hc
    have hkeep (y : ℕ) (h0 : c ≤ y) (h1 : y < c + 8) : m' y = h.mem y := by
      obtain heq | hd | hd := blocks_disjoint hb hc
      · simp only [Prod.mk.injEq] at heq
        exact hagree y (by omega)
      · simp only [Tile.size] at hd
        exact hagree y (by omega)
      · simp only [Tile.size] at hd hu
        exact hagree y (by omega)
    have hold := hok.headers c u hc
    refine ⟨Eq.trans (Memory.word_congr fun y h0 h1 => hkeep y ?_ ?_) hold.1,
      Eq.trans (Memory.word_congr fun y h0 h1 => hkeep y ?_ ?_) hold.2⟩ <;> omega

end Calls

end PicoDrone.Analysis
