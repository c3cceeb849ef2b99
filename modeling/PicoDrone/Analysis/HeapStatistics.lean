import PicoDrone.Analysis.HeapRuns

/-!
# What the heap reports and what it grants

`vPortGetHeapStats` walks the free list and reports what the tiling is (`stats_eq`). With it, a
request is granted exactly if it fits into the largest free block, from the lowest block that
is large enough (`first_fit`), and once everything has been released the heap is the single
block that it began with (`all_released`).
-/

set_option autoImplicit false

namespace PicoDrone.Analysis

open PicoDrone.Library PicoDrone.Library.Tiling PicoDrone.Model

section Walk

variable {m : Memory} {e p a : ℕ} {L : List Tile}

/-- INTERNAL: the loop of `vPortGetHeapStats` over the free blocks.
SOURCE: FreeRTOS-KernelV10.6.2/portable/MemMang/heap_4.c:512-538 -/
theorem countBlocks_eq {turns xBlocks xMaxSize xMinSize : ℕ} (hsized : Sized L)
    (h : Threaded m e p a L) (he : a + extent L ≤ e) (hturns : (freeSizes L).length < turns)
    (hcount : xBlocks + (freeSizes L).length < 2 ^ 32) :
    countBlocks m e turns (pxNextFreeBlock m p) (xBlocks, xMaxSize, xMinSize) =
      .ok (xBlocks + (freeSizes L).length, (freeSizes L).foldl max xMaxSize,
        (freeSizes L).foldl min xMinSize) := by
  induction L generalizing p a turns xBlocks xMaxSize xMinSize with
  | nil =>
    obtain ⟨turns, rfl⟩ := Nat.exists_eq_succ_of_ne_zero (Nat.ne_of_gt hturns)
    rw [show pxNextFreeBlock m p = e from h, countBlocks, if_neg (by simp)]
    rfl
  | cons x L ih =>
    have hx := (sized_cons.mp hsized).1
    have hL := (sized_cons.mp hsized).2
    rw [extent_cons] at he
    cases x with
    | free s =>
      simp only [freeSizes_free, List.length_cons] at hturns hcount ⊢
      obtain ⟨turns, rfl⟩ := Nat.exists_eq_succ_of_ne_zero (show turns ≠ 0 by omega)
      simp only [Tile.size] at hx he
      have hmax : (if xMaxSize < s then s else xMaxSize) = max xMaxSize s := by
        split_ifs <;> omega
      have hmin : (if s < xMinSize then s else xMinSize) = min xMinSize s := by
        split_ifs <;> omega
      have hblocks : u32 ((xBlocks : ℤ) + 1) = xBlocks + 1 := u32_add (b := 1) (by omega)
      rw [h.1, countBlocks, if_pos (by omega), h.2.1, hmax, hmin, hblocks,
        ih hL h.2.2 (by omega) (by omega) (by omega), List.foldl_cons, List.foldl_cons,
        Nat.add_right_comm, Nat.add_assoc]
    | used s =>
      simp only [Tile.size] at he
      exact ih hL h (by omega) hturns hcount

theorem foldl_max_lt {l : List ℕ} {x w : ℕ} : l.foldl max x < w ↔ x < w ∧ ∀ t ∈ l, t < w := by
  induction l generalizing x with
  | nil => simp
  | cons y l ih =>
    rw [List.foldl_cons, ih, List.forall_mem_cons, Nat.max_lt]
    tauto

end Walk

section Reports

variable {B : HeapBuild} {s₀ s : HeapSystem} {L : List Tile} {ls : List HeapCall}

/-- INTERNAL: what is reported of a tiled heap.
SOURCE: FreeRTOS-KernelV10.6.2/portable/MemMang/heap_4.c:505-554 -/
theorem stats_eq (hinv : HeapInv B s L) :
    vPortGetHeapStats B s.heap = .ok
      { xAvailableHeapSpaceInBytes := freeBytes L
        xSizeOfLargestFreeBlockInBytes := (freeSizes L).foldl max 0
        xSizeOfSmallestFreeBlockInBytes := (freeSizes L).foldl min heapSizeMax
        xNumberOfFreeBlocks := (freeSizes L).length
        xMinimumEverFreeBytesRemaining := s.heap.xMinimumEverFreeBytesRemaining
        xNumberOfSuccessfulAllocations := s.heap.xNumberOfSuccessfulAllocations
        xNumberOfSuccessfulFrees := s.heap.xNumberOfSuccessfulFrees } := by
  have hlayout := HeapBuild.layout B
  have hext := hinv.ok.extent_eq
  have hpos := hlayout.base_pos
  have hshort := hlayout.short
  have hlen := sixteen_length_freeSizes_le hinv.ok.sized
  have hnext := hinv.ok.threaded.le_next hext.le
  rw [configTotalHeapSize] at hshort
  have hwalk : countBlocks s.heap.mem B.endMarker heapTurns (pxNextFreeBlock s.heap.mem B.xStart)
      (0, 0, heapSizeMax) = .ok (0 + (freeSizes L).length, (freeSizes L).foldl max 0,
        (freeSizes L).foldl min heapSizeMax) :=
    countBlocks_eq hinv.ok.sized hinv.ok.threaded hext.le
      (by rw [heapTurns, configTotalHeapSize]; omega) (by omega)
  simp only [vPortGetHeapStats, if_pos (show pxNextFreeBlock s.heap.mem B.xStart ≠ 0 by omega),
    hinv.ok.started, hwalk, bind, Except.bind, hinv.ok.free_eq, Nat.zero_add]

/-- CONTRACT: a request is granted exactly if it and its header fit into the largest free block
that is reported; it then gets the lowest block that is large enough, and else changes nothing.
SOURCE: FreeRTOS-KernelV10.6.2/portable/MemMang/heap_4.c:138-304 505-554 -/
theorem first_fit {n : ℕ} (h₀ : s₀.AtStart B) (hrun : (heapMachine B).run s₀ ls = some s)
    (hend : s.heap.pxEnd ≠ 0) (hn : n ≤ heapSizeMax) :
    ∃ L stats h' pv, HeapInv B s L ∧ vPortGetHeapStats B s.heap = .ok stats ∧
      pvPortMalloc B s.heap n = .ok (h', pv) ∧
      (pv = 0 ↔ n = 0 ∨ stats.xSizeOfLargestFreeBlockInBytes < (n + 15) / 8 * 8) ∧
      (pv = 0 → h' = s.heap) ∧
      (pv ≠ 0 → ∃ size, (pv - 8, .free size) ∈ blocks B.pucAlignedHeap L ∧
        (n + 15) / 8 * 8 ≤ size ∧ ∀ b t, (b, .free t) ∈ blocks B.pucAlignedHeap L →
          (n + 15) / 8 * 8 ≤ t → pv - 8 ≤ b) := by
  obtain ⟨L, hinv⟩ := (reached_run (Or.inl h₀) hrun).inv hend
  obtain ⟨hres, hnone⟩ | ⟨pre, size, post, h', rfl, hpos, hfits, hfirst, hres, -⟩ :=
    pvPortMalloc_spec hinv.ok hn
  · refine ⟨L, _, _, _, hinv, stats_eq hinv, hres, iff_of_true rfl ?_, fun _ => rfl,
      fun hcon => absurd rfl hcon⟩
    obtain rfl | hnone := hnone
    · exact Or.inl rfl
    · by_cases hzero : n = 0
      · exact Or.inl hzero
      · exact Or.inr (foldl_max_lt.mpr ⟨by omega, hnone⟩)
  · refine ⟨_, _, _, _, hinv, stats_eq hinv, hres, iff_of_false (by omega) ?_, fun hcon => by omega,
      fun _ => ⟨size, ?_, hfits, fun b t hb ht => ?_⟩⟩
    · rintro (hzero | hlt)
      · omega
      · have := (foldl_max_lt.mp hlt).2 size (mem_freeSizes.mpr (by simp))
        omega
    · rw [Nat.add_sub_cancel]
      simp [blocks_append, blocks]
    · rw [blocks_append, List.mem_append] at hb
      obtain hb | hb := hb
      · obtain ⟨pre', post', rfl, -⟩ := split_of_mem_blocks hb
        have := hfirst t (mem_freeSizes.mpr (by simp))
        omega
      · have := (within_of_mem_blocks hb).1
        omega

theorem first_fit_hole : ∃ s, (heapMachine sampleBuild).run sampleStart
      [.malloc 100, .malloc 20, .free 0x20001010] = some s ∧
    ∃ L stats h' pv, HeapInv sampleBuild s L ∧ vPortGetHeapStats sampleBuild s.heap = .ok stats ∧
      pvPortMalloc sampleBuild s.heap 200 = .ok (h', pv) ∧
      (pv = 0 ↔ 200 = 0 ∨ stats.xSizeOfLargestFreeBlockInBytes < (200 + 15) / 8 * 8) ∧
      (pv = 0 → h' = s.heap) ∧
      (pv ≠ 0 → ∃ size, (pv - 8, .free size) ∈ blocks sampleBuild.pucAlignedHeap L ∧
        (200 + 15) / 8 * 8 ≤ size ∧
        ∀ b t, (b, .free t) ∈ blocks sampleBuild.pucAlignedHeap L →
          (200 + 15) / 8 * 8 ≤ t → pv - 8 ≤ b) := by
  have hrun : ((heapMachine sampleBuild).run sampleStart
      [.malloc 100, .malloc 20, .free 0x20001010]).map (fun s => s.heap.pxEnd) =
      some 0x20020ff8 := by
    decide +kernel
  obtain ⟨s, hs, hend⟩ := Option.map_eq_some_iff.mp hrun
  exact ⟨s, hs, first_fit sampleStart_atStart hs (by rw [hend]; decide) (by decide)⟩

/-- CONTRACT: once every block has been released, in whatever order, the heap is one free block
again, of the size that it began with.
SOURCE: FreeRTOS-KernelV10.6.2/portable/MemMang/heap_4.c:442-502 505-554 -/
theorem all_released (h₀ : s₀.AtStart B) (hrun : (heapMachine B).run s₀ ls = some s)
    (hend : s.heap.pxEnd ≠ 0) (hheld : s.held = []) :
    vPortGetHeapStats B s.heap = .ok
      { xAvailableHeapSpaceInBytes := B.endMarker - B.pucAlignedHeap
        xSizeOfLargestFreeBlockInBytes := B.endMarker - B.pucAlignedHeap
        xSizeOfSmallestFreeBlockInBytes := B.endMarker - B.pucAlignedHeap
        xNumberOfFreeBlocks := 1
        xMinimumEverFreeBytesRemaining := s.heap.xMinimumEverFreeBytesRemaining
        xNumberOfSuccessfulAllocations := s.heap.xNumberOfSuccessfulAllocations
        xNumberOfSuccessfulFrees := s.heap.xNumberOfSuccessfulFrees } := by
  obtain ⟨L, hinv⟩ := (reached_run (Or.inl h₀) hrun).inv hend
  have hlayout := HeapBuild.layout B
  have hspan := hlayout.span
  have haddress := hlayout.address
  have hext := hinv.ok.extent_eq
  have hfree : ∀ x ∈ L, x.IsFree := by
    intro x hx
    cases x with
    | free t => trivial
    | used t =>
      -- a block in use would be held
      obtain ⟨pre, post, rfl⟩ := List.append_of_mem hx
      obtain ⟨n, hn⟩ := hinv.block_held (B.pucAlignedHeap + extent pre) t
        (by simp [blocks_append, blocks])
      simp [hheld] at hn
  have hsingle : L = [.free (B.endMarker - B.pucAlignedHeap)] := by
    obtain rfl | hL := eq_free_of_unused hinv.ok.coalesced hfree
    · rw [extent_nil] at hext
      omega
    · rw [hL, show extent L = B.endMarker - B.pucAlignedHeap by omega]
  rw [stats_eq hinv, hsingle]
  simp only [freeBytes_cons, freeBytes_nil, Tile.freeSize, freeSizes_free, freeSizes_nil,
    List.foldl_cons, List.foldl_nil, List.length_cons, List.length_nil, heapSizeMax]
  rw [show min (2 ^ 32 - 1) (B.endMarker - B.pucAlignedHeap) = B.endMarker - B.pucAlignedHeap by
    omega]
  simp

theorem all_released_three : ∃ s, (heapMachine sampleBuild).run sampleStart
      [.malloc 100, .malloc 20, .free 0x20001010, .calloc 5 5, .free 0x20001010,
        .free 0x20001080] = some s ∧
    vPortGetHeapStats sampleBuild s.heap = .ok
      { xAvailableHeapSpaceInBytes := sampleBuild.endMarker - sampleBuild.pucAlignedHeap
        xSizeOfLargestFreeBlockInBytes := sampleBuild.endMarker - sampleBuild.pucAlignedHeap
        xSizeOfSmallestFreeBlockInBytes := sampleBuild.endMarker - sampleBuild.pucAlignedHeap
        xNumberOfFreeBlocks := 1
        xMinimumEverFreeBytesRemaining := s.heap.xMinimumEverFreeBytesRemaining
        xNumberOfSuccessfulAllocations := s.heap.xNumberOfSuccessfulAllocations
        xNumberOfSuccessfulFrees := s.heap.xNumberOfSuccessfulFrees } := by
  have hrun : ((heapMachine sampleBuild).run sampleStart
      [.malloc 100, .malloc 20, .free 0x20001010, .calloc 5 5, .free 0x20001010,
        .free 0x20001080]).map (fun s => (s.heap.pxEnd, s.held)) = some (0x20020ff8, []) := by
    decide +kernel
  obtain ⟨s, hs, hpair⟩ := Option.map_eq_some_iff.mp hrun
  obtain ⟨hend, hheld⟩ := Prod.mk.inj hpair
  exact ⟨s, hs, all_released sampleStart_atStart hs (by rw [hend]; decide) hheld⟩

end Reports

end PicoDrone.Analysis
