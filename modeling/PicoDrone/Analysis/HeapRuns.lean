import PicoDrone.Analysis.HeapCalls

/-!
# Runs of the heap

`HeapInv B s L` is what every run of allocations, releases and stores keeps after the first
allocation: a tiled heap whose blocks in use are those that the callers hold.
`heap_step_cases` says once what a call can do, and the results about runs are read off it.
-/

set_option autoImplicit false

namespace PicoDrone.Analysis

open PicoDrone.Library PicoDrone.Library.Tiling PicoDrone.Model

/-- INTERNAL: what the callers hold are the blocks in use of a tiled heap. -/
structure HeapInv (B : HeapBuild) (s : HeapSystem) (L : List Tile) : Prop where
  ok : HeapOk B s.heap L
  held_block : ∀ p n, (p, n) ∈ s.held →
    ∃ b t, p = b + 8 ∧ (b, .used t) ∈ blocks B.pucAlignedHeap L ∧ 0 < n ∧ n + 8 ≤ t
  block_held : ∀ b t, (b, .used t) ∈ blocks B.pucAlignedHeap L → ∃ n, (b + 8, n) ∈ s.held
  nodup : (s.held.map Prod.fst).Nodup
  count : s.heap.xNumberOfSuccessfulAllocations =
    u32 (s.heap.xNumberOfSuccessfulFrees + s.held.length)
  minimum : s.heap.xMinimumEverFreeBytesRemaining ≤ s.heap.xFreeBytesRemaining

/-- INTERNAL: what one call does to the heap, to what is held and to the blocks. -/
inductive HeapEffect (B : HeapBuild) (s : HeapSystem) :
    HeapCall → HeapSystem → List Tile → List Tile → Prop where
  | nothing {c : HeapCall} {L : List Tile} (hc : ∀ pv i byte, c ≠ .write pv i byte) :
    HeapEffect B s c s L L
  | take {c : HeapCall} {n size : ℕ} {pre post : List Tile} {h' : Heap} {m' : Memory}
    (hc : c = .malloc n ∨ ∃ xNum xSize, c = .calloc xNum xSize ∧ n = xNum * xSize)
    (hn : 0 < n) (hfits : (n + 15) / 8 * 8 ≤ size)
    (htaken : Taken B s.heap h' ((n + 15) / 8 * 8) pre size post)
    (hm : ∀ y, y < B.pucAlignedHeap + extent pre + 8 ∨
      B.pucAlignedHeap + extent pre + 8 + n ≤ y → m' y = h'.mem y) :
    HeapEffect B s c
      ⟨{ h' with mem := m' }, (B.pucAlignedHeap + extent pre + 8, n) :: s.held⟩
      (pre ++ .free size :: post) (carve 16 ((n + 15) / 8 * 8) pre size post)
  | give {pv size : ℕ} {pre post : List Tile} {h' : Heap}
    (hpv : pv = B.pucAlignedHeap + extent pre + 8)
    (hreleased : Released B s.heap h' pre size post) :
    HeapEffect B s (.free pv) ⟨h', s.held.filter fun x => x.1 ≠ pv⟩
      (pre ++ .used size :: post) (release pre size post)
  | store {pv i n : ℕ} {byte : Byte} {L : List Tile} (hheld : (pv, n) ∈ s.held) (hi : i < n) :
    HeapEffect B s (.write pv i byte)
      ⟨{ s.heap with mem := s.heap.mem.setByte (pv + i) byte }, s.held⟩ L L

section Step

variable {B : HeapBuild} {s s' : HeapSystem} {L L' : List Tile} {c : HeapCall}

/-- INTERNAL: an allocation on a heap that has been set up. -/
theorem handOut_cases {n : ℕ} (hinv : HeapInv B s L) (hn : n ≤ heapSizeMax)
    (hc : c = .malloc n ∨ ∃ xNum xSize, c = .calloc xNum xSize ∧ n = xNum * xSize)
    (f : Heap × ℕ → Heap × ℕ) (hnull : ∀ h, f (h, 0) = (h, 0))
    (hf : ∀ h p, p ≠ 0 → ∃ m', f (h, p) = ({ h with mem := m' }, p) ∧
      ∀ y, y < p ∨ p + n ≤ y → m' y = h.mem y)
    (hstep : s.handOut n ((pvPortMalloc B s.heap n).map f) = some s') :
    ∃ L', HeapEffect B s c s' L L' := by
  obtain ⟨hres, -⟩ | ⟨pre, size, post, h', rfl, hpos, hfits, -, hres, htaken⟩ :=
    pvPortMalloc_spec hinv.ok hn
  · rw [hres, Except.map, hnull] at hstep
    obtain rfl := Option.some.inj hstep
    refine ⟨L, HeapEffect.nothing fun pv i byte => ?_⟩
    obtain rfl | ⟨_, _, rfl, -⟩ := hc <;> simp
  · obtain ⟨m', hm', hkeep⟩ := hf h' (B.pucAlignedHeap + extent pre + 8) (by omega)
    rw [hres, Except.map, hm'] at hstep
    simp only [HeapSystem.handOut, Nat.add_eq_zero_iff, OfNat.ofNat_ne_zero, and_false, if_false,
      Option.some.injEq] at hstep
    subst hstep
    exact ⟨_, HeapEffect.take hc hpos hfits htaken hkeep⟩

/-- INTERNAL: the block of a call of `pvPortCalloc`, cleared. -/
def clearBlock (n : ℕ) (result : Heap × ℕ) : Heap × ℕ :=
  if result.2 ≠ 0 then ({ result.1 with mem := result.1.mem.fill result.2 0 n }, result.2)
  else result

theorem pvPortCalloc_eq {h : Heap} {xNum xSize : ℕ}
    (hover : heapMultiplyWillOverflow xNum xSize = false) :
    pvPortCalloc B h xNum xSize =
      (pvPortMalloc B h (xNum * xSize)).map (clearBlock (xNum * xSize)) := by
  rw [pvPortCalloc, if_pos hover]
  cases pvPortMalloc B h (xNum * xSize) with
  | ok r => rfl
  | error e => rfl

theorem le_of_not_overflow {a b : ℕ} (hover : heapMultiplyWillOverflow a b = false) :
    a * b ≤ heapSizeMax := by
  simp only [heapMultiplyWillOverflow, Bool.and_eq_false_iff, decide_eq_false_iff_not,
    Nat.not_lt] at hover
  obtain hzero | hle := hover
  · simp [Nat.le_zero.mp hzero]
  · rw [Nat.mul_comm]
    exact Nat.mul_le_of_le_div a b heapSizeMax hle

/-- INTERNAL: the release of a block that is held. -/
theorem free_held {pv : ℕ} (hinv : HeapInv B s L) (hpv : pv ∈ s.held.map Prod.fst) :
    ∃ pre size post h', L = pre ++ .used size :: post ∧ pv = B.pucAlignedHeap + extent pre + 8 ∧
      vPortFree B s.heap pv = .ok h' ∧ Released B s.heap h' pre size post := by
  obtain ⟨⟨_, n⟩, hheld, rfl⟩ := List.mem_map.mp hpv
  obtain ⟨b, t, rfl, hb, -⟩ := hinv.held_block _ _ hheld
  obtain ⟨pre, post, rfl, rfl⟩ := split_of_mem_blocks hb
  obtain ⟨h', hh', hreleased⟩ := vPortFree_spec hinv.ok rfl
  exact ⟨pre, t, post, h', rfl, rfl, hh', hreleased⟩

/-- INTERNAL: what a call does. -/
theorem heap_step_cases (hinv : HeapInv B s L) (hstep : (heapMachine B).step s c = some s') :
    ∃ L', HeapEffect B s c s' L L' := by
  cases c with
  | malloc n =>
    simp only [heapMachine] at hstep
    obtain ⟨hn, hstep⟩ := Option.ite_none_right_eq_some.mp hstep
    refine handOut_cases hinv hn (Or.inl rfl) id (fun _ => rfl) (fun h p _ => ⟨h.mem, rfl, ?_⟩) ?_
    · exact fun y _ => rfl
    · cases hres : pvPortMalloc B s.heap n with
      | ok r => rwa [hres] at hstep
      | error e => rwa [hres] at hstep
  | calloc xNum xSize =>
    simp only [heapMachine] at hstep
    obtain ⟨hn, hstep⟩ := Option.ite_none_right_eq_some.mp hstep
    cases hover : heapMultiplyWillOverflow xNum xSize with
    | true =>
      rw [pvPortCalloc, if_neg (by simp [hover])] at hstep
      obtain rfl := Option.some.inj hstep
      exact ⟨L, HeapEffect.nothing fun pv i byte => by simp⟩
    | false =>
      rw [pvPortCalloc_eq hover] at hstep
      refine handOut_cases hinv (le_of_not_overflow hover) (Or.inr ⟨xNum, xSize, rfl, rfl⟩)
        (clearBlock (xNum * xSize)) (fun h => if_neg (by simp)) (fun h p hp => ?_) hstep
      exact ⟨_, if_pos hp, fun y hy => Memory.fill_of_outside hy⟩
  | free pv =>
    simp only [heapMachine] at hstep
    obtain ⟨hpv, hstep⟩ := Option.ite_none_right_eq_some.mp hstep
    by_cases hzero : pv = 0
    · subst hzero
      have hkeep : s.held.filter (fun x => x.1 ≠ 0) = s.held := by
        refine List.filter_eq_self.mpr fun x hx => decide_eq_true ?_
        obtain ⟨b, t, hb, -⟩ := hinv.held_block x.1 x.2 hx
        omega
      rw [vPortFree, if_neg (by simp)] at hstep
      obtain rfl := Option.some.inj hstep
      refine ⟨L, ?_⟩
      rw [hkeep]
      exact HeapEffect.nothing fun pv i byte => by simp
    · obtain ⟨pre, size, post, h', rfl, hb, hres, hreleased⟩ :=
        free_held hinv (hpv.resolve_left hzero)
      rw [hres] at hstep
      obtain rfl := Option.some.inj hstep
      exact ⟨_, HeapEffect.give hb hreleased⟩
  | write pv i byte =>
    simp only [heapMachine] at hstep
    obtain ⟨hany, hstep⟩ := Option.ite_none_right_eq_some.mp hstep
    obtain rfl := Option.some.inj hstep
    simp only [List.any_eq_true, Bool.and_eq_true, decide_eq_true_eq, Prod.exists] at hany
    obtain ⟨_, n, hheld, rfl, hi⟩ := hany
    exact ⟨L, HeapEffect.store hheld hi⟩

theorem length_filter_held {l : List (ℕ × ℕ)} {p : ℕ} (hnodup : (l.map Prod.fst).Nodup)
    (hp : p ∈ l.map Prod.fst) : (l.filter fun x => x.1 ≠ p).length + 1 = l.length := by
  induction l with
  | nil => simp at hp
  | cons x l ih =>
    rw [List.map_cons, List.nodup_cons] at hnodup
    by_cases hx : x.1 = p
    · have hrest : l.filter (fun y => y.1 ≠ p) = l := by
        refine List.filter_eq_self.mpr fun y hy => decide_eq_true ?_
        rintro rfl
        exact hnodup.1 (hx ▸ List.mem_map_of_mem hy)
      rw [List.filter_cons_of_neg (by simp [hx]), hrest, List.length_cons]
    · rw [List.map_cons, List.mem_cons] at hp
      rw [List.filter_cons_of_pos (by simp [hx]), List.length_cons, List.length_cons,
        ih hnodup.2 (hp.resolve_left fun h => hx h.symm)]

theorem u32_succ (a b : ℕ) : u32 (u32 ((a : ℤ) + b) + 1) = u32 (a + (b + 1 : ℕ)) := by
  simp only [u32]
  omega

theorem u32_move (a b : ℕ) : u32 (u32 ((a : ℤ) + 1) + b) = u32 (a + (b + 1 : ℕ)) := by
  simp only [u32]
  omega

/-- INTERNAL: a call keeps the invariant, and the low-water mark goes down to what is then free. -/
theorem HeapEffect.inv (hinv : HeapInv B s L) (h : HeapEffect B s c s' L L') :
    HeapInv B s' L' ∧ s'.heap.xMinimumEverFreeBytesRemaining =
      min s.heap.xMinimumEverFreeBytesRemaining s'.heap.xFreeBytesRemaining := by
  have hminimum := hinv.minimum
  cases h with
  | nothing hc => exact ⟨hinv, by omega⟩
  | @take _ n size pre post h' m' hc hn hfits htaken hm =>
    have hok := hinv.ok
    have hfree : (B.pucAlignedHeap + extent pre, .free size) ∈
        blocks B.pucAlignedHeap (pre ++ .free size :: post) := by simp [blocks_append, blocks]
    have hsize := header_size hok.sized hfree
    have hmem : (B.pucAlignedHeap + extent pre, .used (taken 16 ((n + 15) / 8 * 8) size)) ∈
        blocks B.pucAlignedHeap (carve 16 ((n + 15) / 8 * 8) pre size post) :=
      (used_mem_blocks_carve hfits).mpr (Or.inr ⟨rfl, rfl⟩)
    have htakes : n + 8 ≤ taken 16 ((n + 15) / 8 * 8) size := by
      rw [taken]
      split_ifs <;> omega
    refine ⟨⟨htaken.ok.write hmem fun y hy => hm y (by omega), ?_, ?_, ?_, ?_, ?_⟩,
      htaken.minimum⟩
    · intro p k hk
      simp only [List.mem_cons, Prod.mk.injEq] at hk
      obtain ⟨rfl, rfl⟩ | hk := hk
      · exact ⟨_, _, rfl, hmem, hn, htakes⟩
      · obtain ⟨b, t, hb, hblock, hrest⟩ := hinv.held_block p k hk
        exact ⟨b, t, hb, (used_mem_blocks_carve hfits).mpr (Or.inl hblock), hrest⟩
    · intro b t hb
      obtain hb | ⟨rfl, -⟩ := (used_mem_blocks_carve hfits).mp hb
      · obtain ⟨k, hk⟩ := hinv.block_held b t hb
        exact ⟨k, List.mem_cons_of_mem _ hk⟩
      · exact ⟨n, List.mem_cons_self⟩
    · rw [List.map_cons, List.nodup_cons]
      refine ⟨fun hcon => ?_, hinv.nodup⟩
      -- a block that is free is not held
      obtain ⟨⟨p, k⟩, hk, hp⟩ := List.mem_map.mp hcon
      obtain ⟨b, t, hb, hblock, hrest⟩ := hinv.held_block p k hk
      simp only at hp
      obtain heq | hd | hd := blocks_disjoint hfree hblock
      · simp at heq
      · simp only [Tile.size] at hd hsize
        omega
      · simp only [Tile.size] at hd
        omega
    · rw [htaken.allocations, hinv.count, htaken.frees, u32_succ, List.length_cons]
    · show h'.xMinimumEverFreeBytesRemaining ≤ h'.xFreeBytesRemaining
      rw [htaken.minimum]
      exact Nat.min_le_right _ _
  | @give pv size pre post h' hpv hreleased =>
    have hmem : (B.pucAlignedHeap + extent pre, .used size) ∈
        blocks B.pucAlignedHeap (pre ++ .used size :: post) := by simp [blocks_append, blocks]
    obtain ⟨k, hk⟩ := hinv.block_held _ _ hmem
    have hgrow : s.heap.xFreeBytesRemaining ≤ h'.xFreeBytesRemaining := by
      rw [hinv.ok.free_eq, hreleased.ok.free_eq, freeBytes_release]
      simp only [freeBytes_append, freeBytes_cons, Tile.freeSize]
      omega
    have hmin := hreleased.minimum
    refine ⟨⟨hreleased.ok, ?_, ?_, ?_, ?_, ?_⟩, ?_⟩
    · intro p n hp
      obtain ⟨hheld, hne⟩ := List.mem_filter.mp hp
      obtain ⟨b, t, rfl, hblock, hrest⟩ := hinv.held_block p n hheld
      refine ⟨b, t, rfl, used_mem_blocks_release.mpr ?_, hrest⟩
      rw [blocks_append, List.mem_append] at hblock
      obtain hblock | hblock := hblock
      · exact Or.inl hblock
      · simp only [blocks, List.mem_cons, Prod.mk.injEq, Tile.size] at hblock
        obtain ⟨rfl, -⟩ | hblock := hblock
        · exact absurd hpv.symm (of_decide_eq_true hne)
        · exact Or.inr hblock
    · intro b t hb
      have hlocated : (b, .used t) ∈ blocks B.pucAlignedHeap (pre ++ .used size :: post) ∧
          b ≠ B.pucAlignedHeap + extent pre := by
        have hsize := header_size hinv.ok.sized hmem
        simp only [Tile.size] at hsize
        obtain hb | hb := used_mem_blocks_release.mp hb
        · have hwithin := within_of_mem_blocks hb
          have hin : (b, .used t) ∈ blocks B.pucAlignedHeap (pre ++ .used size :: post) := by
            rw [blocks_append]
            exact List.mem_append_left _ hb
          have ht := header_size hinv.ok.sized hin
          simp only [Tile.size] at hwithin ht
          exact ⟨hin, by omega⟩
        · have hwithin := within_of_mem_blocks hb
          refine ⟨?_, by omega⟩
          rw [blocks_append]
          exact List.mem_append_right _ (List.mem_cons_of_mem _ hb)
      obtain ⟨n, hn⟩ := hinv.block_held b t hlocated.1
      exact ⟨n, List.mem_filter.mpr ⟨hn, decide_eq_true (by omega)⟩⟩
    · exact hinv.nodup.sublist (List.filter_sublist.map _)
    · have hlen := length_filter_held hinv.nodup
        (List.mem_map.mpr ⟨(pv, k), by rw [hpv]; exact hk, rfl⟩)
      rw [hreleased.allocations, hreleased.frees, hinv.count, u32_move, hlen]
    · show h'.xMinimumEverFreeBytesRemaining ≤ h'.xFreeBytesRemaining
      omega
    · show h'.xMinimumEverFreeBytesRemaining = min _ h'.xFreeBytesRemaining
      omega
  | @store pv i n byte L hheld hi =>
    obtain ⟨b, t, rfl, hblock, hpos, hfits⟩ := hinv.held_block pv n hheld
    refine ⟨⟨hinv.ok.write hblock fun y hy => ?_, hinv.held_block, hinv.block_held, hinv.nodup,
      hinv.count, hinv.minimum⟩, ?_⟩
    · exact Memory.setByte_of_ne (by omega)
    · show s.heap.xMinimumEverFreeBytesRemaining = min _ s.heap.xFreeBytesRemaining
      omega

/-- INTERNAL: the system with the heap set up. -/
def setUp (B : HeapBuild) (s : HeapSystem) : HeapSystem := ⟨prvHeapInit B s.heap, s.held⟩

theorem setUp_inv (hs : s.AtStart B) :
    HeapInv B (setUp B s) [.free (B.endMarker - B.pucAlignedHeap)] := by
  obtain ⟨hok, hmin⟩ := prvHeapInit_spec B s.heap
  refine ⟨hok, ?_, ?_, ?_, ?_, ?_⟩
  · simp [setUp, hs.2]
  · simp [blocks]
  · simp [setUp, hs.2]
  · obtain ⟨-, -, -, -, ha, hf⟩ := hs.1
    show s.heap.xNumberOfSuccessfulAllocations =
      u32 (s.heap.xNumberOfSuccessfulFrees + s.held.length)
    rw [ha, hf, hs.2]
    rfl
  · show (prvHeapInit B s.heap).xMinimumEverFreeBytesRemaining ≤ _
    rw [hmin, show (setUp B s).heap.xFreeBytesRemaining = _ from hok.free_eq]
    simp [Tile.freeSize]

theorem pvPortMalloc_setUp {h : Heap} (hend : h.pxEnd = 0) (n : ℕ) :
    pvPortMalloc B h n = pvPortMalloc B (prvHeapInit B h) n := by
  have hspan := (HeapBuild.layout B).span
  have hne : (prvHeapInit B h).pxEnd ≠ 0 := by
    show B.endMarker ≠ 0
    omega
  rw [pvPortMalloc, pvPortMalloc, if_pos hend, if_neg hne]

/-- INTERNAL: the first call changes nothing, or does what it does on the heap set up. -/
theorem start_step (hs : s.AtStart B) (c : HeapCall) :
    (heapMachine B).step s c = some s ∨
      (heapMachine B).step s c = (heapMachine B).step (setUp B s) c := by
  obtain ⟨heap, held⟩ := s
  obtain ⟨hunused, rfl⟩ := hs
  have hend : heap.pxEnd = 0 := hunused.2.1
  cases c with
  | malloc n =>
    refine Or.inr ?_
    simp only [heapMachine, pvPortMalloc_setUp hend]
    rfl
  | calloc xNum xSize =>
    cases hover : heapMultiplyWillOverflow xNum xSize with
    | true =>
      have hres (h : Heap) : pvPortCalloc B h xNum xSize = .ok (h, 0) := by
        rw [pvPortCalloc, if_neg (by simp [hover])]
      by_cases hn : xNum ≤ heapSizeMax ∧ xSize ≤ heapSizeMax
      · refine Or.inl ?_
        simp only [heapMachine, if_pos hn, hres]
        rfl
      · refine Or.inr ?_
        simp only [heapMachine, if_neg hn]
    | false =>
      refine Or.inr ?_
      simp only [heapMachine, pvPortCalloc_eq hover, pvPortMalloc_setUp hend]
      rfl
  | free pv =>
    by_cases hzero : pv = 0
    · refine Or.inl ?_
      simp only [heapMachine, if_pos (Or.inl hzero), vPortFree, if_neg (not_not_intro hzero)]
      rfl
    · have hnot : ¬(pv = 0 ∨ pv ∈ ([] : List (ℕ × ℕ)).map Prod.fst) := by simp [hzero]
      refine Or.inr ?_
      simp only [heapMachine, setUp, if_neg hnot]
  | write pv i byte => exact Or.inr rfl

/-- INTERNAL: a state that a run from the start can be in. -/
def Reached (B : HeapBuild) (s : HeapSystem) : Prop := s.AtStart B ∨ ∃ L, HeapInv B s L

theorem reached_step (hs : Reached B s) (hstep : (heapMachine B).step s c = some s') :
    Reached B s' := by
  obtain hs | ⟨L, hinv⟩ := hs
  · obtain hsame | hset := start_step hs c
    · rw [hsame] at hstep
      obtain rfl := Option.some.inj hstep
      exact Or.inl hs
    · rw [hset] at hstep
      obtain ⟨L', heffect⟩ := heap_step_cases (setUp_inv hs) hstep
      exact Or.inr ⟨L', (heffect.inv (setUp_inv hs)).1⟩
  · obtain ⟨L', heffect⟩ := heap_step_cases hinv hstep
    exact Or.inr ⟨L', (heffect.inv hinv).1⟩

theorem reached_run {ls : List HeapCall} (hs : Reached B s)
    (hrun : (heapMachine B).run s ls = some s') : Reached B s' :=
  (heapMachine B).run_invariant (Reached B) (fun _ _ _ hs hstep => reached_step hs hstep) hs hrun

theorem Reached.inv (hs : Reached B s) (hend : s.heap.pxEnd ≠ 0) : ∃ L, HeapInv B s L :=
  hs.resolve_left fun h => hend h.1.2.1

/-- INTERNAL: what a caller may do. -/
def HeapCall.Legal (s : HeapSystem) : HeapCall → Prop
  | .malloc n => n ≤ heapSizeMax
  | .calloc xNum xSize => xNum ≤ heapSizeMax ∧ xSize ≤ heapSizeMax
  | .free pv => pv = 0 ∨ pv ∈ s.held.map Prod.fst
  | .write pv i _ => ∃ n, (pv, n) ∈ s.held ∧ i < n

/-- INTERNAL: a call on a tiled heap has a result. -/
theorem legal_step (hinv : HeapInv B s L) (hc : HeapCall.Legal s c) :
    ((heapMachine B).step s c).isSome := by
  have hmalloc {n : ℕ} (hn : n ≤ heapSizeMax) : ∃ r, pvPortMalloc B s.heap n = .ok r := by
    obtain ⟨hres, -⟩ | ⟨pre, size, post, h', -, -, -, -, hres, -⟩ := pvPortMalloc_spec hinv.ok hn
    · exact ⟨_, hres⟩
    · exact ⟨_, hres⟩
  cases c with
  | malloc n =>
    have hc : n ≤ heapSizeMax := hc
    obtain ⟨r, hr⟩ := hmalloc hc
    simp only [heapMachine, if_pos hc, hr]
    rfl
  | calloc xNum xSize =>
    have hc : xNum ≤ heapSizeMax ∧ xSize ≤ heapSizeMax := hc
    simp only [heapMachine, if_pos hc]
    cases hover : heapMultiplyWillOverflow xNum xSize with
    | true =>
      rw [pvPortCalloc, if_neg (by simp [hover])]
      rfl
    | false =>
      obtain ⟨r, hr⟩ := hmalloc (le_of_not_overflow hover)
      rw [pvPortCalloc_eq hover, hr]
      rfl
  | free pv =>
    have hc : pv = 0 ∨ pv ∈ s.held.map Prod.fst := hc
    simp only [heapMachine, if_pos hc]
    by_cases hzero : pv = 0
    · rw [vPortFree, if_neg (by simp [hzero])]
      rfl
    · obtain ⟨_, _, _, h', -, -, hres, -⟩ := free_held hinv (hc.resolve_left hzero)
      rw [hres]
      rfl
  | write pv i byte =>
    obtain ⟨n, hheld, hi⟩ := hc
    have hany : (s.held.any fun x => x.1 = pv && i < x.2) = true :=
      List.any_eq_true.mpr ⟨(pv, n), hheld, by simp [hi]⟩
    simp only [heapMachine, if_pos hany]
    rfl

end Step

/-- CONTRACT: after every run of allocations, releases and stores into held blocks, the heap is
as before the first call or tiled by blocks of which the callers hold those in use, and every
call that a caller may make has a result: no assertion fails and no loop runs on.
SOURCE: FreeRTOS-KernelV10.6.2/portable/MemMang/heap_4.c:138-502 -/
theorem heap_tiled {B : HeapBuild} {s₀ s : HeapSystem} {ls : List HeapCall} (h₀ : s₀.AtStart B)
    (hrun : (heapMachine B).run s₀ ls = some s) :
    (s.AtStart B ∨ ∃ L, HeapInv B s L) ∧
      ∀ c, HeapCall.Legal s c → ((heapMachine B).step s c).isSome := by
  have hs := reached_run (Or.inl h₀) hrun
  refine ⟨hs, fun c hc => ?_⟩
  obtain hs | ⟨L, hinv⟩ := hs
  · obtain hsame | hset := start_step hs c
    · simp [hsame]
    · rw [hset]
      exact legal_step (setUp_inv hs) (by cases c <;> exact hc)
  · exact legal_step hinv hc

/-- INTERNAL: a build whose `ucHeap` is not aligned. -/
def sampleBuild : HeapBuild :=
  ⟨0x20001004, 0x20000ff8, false, by decide, by decide, by decide, by decide⟩

/-- INTERNAL: memory before the first call. -/
def sampleStart : HeapSystem := ⟨⟨fun _ => 0, 0, 0, 0, 0, 0⟩, []⟩

theorem sampleStart_atStart : sampleStart.AtStart sampleBuild := by
  refine ⟨⟨?_, rfl, rfl, rfl, rfl, rfl⟩, rfl⟩
  decide

/-- INTERNAL: two allocations, of which the first is released. -/
theorem heap_tiled_two : ∃ s, (heapMachine sampleBuild).run sampleStart
      [.malloc 100, .malloc 20, .free 0x20001010] = some s ∧
    (s.AtStart sampleBuild ∨ ∃ L, HeapInv sampleBuild s L) ∧
      ∀ c, HeapCall.Legal s c → ((heapMachine sampleBuild).step s c).isSome := by
  have hrun : ((heapMachine sampleBuild).run sampleStart
      [.malloc 100, .malloc 20, .free 0x20001010]).isSome := by
    decide +kernel
  obtain ⟨s, hs⟩ := Option.isSome_iff_exists.mp hrun
  exact ⟨s, hs, heap_tiled sampleStart_atStart hs⟩

/-- CONTRACT: the blocks that callers hold are aligned, lie in `ucHeap`, and lie apart, with a
header between them.
SOURCE: FreeRTOS-KernelV10.6.2/portable/MemMang/heap_4.c:138-502 -/
theorem held_apart {B : HeapBuild} {s₀ s : HeapSystem} {ls : List HeapCall} (h₀ : s₀.AtStart B)
    (hrun : (heapMachine B).run s₀ ls = some s) :
    (∀ p n, (p, n) ∈ s.held →
      p % portByteAlignment = 0 ∧ B.ucHeap + 8 ≤ p ∧ p + n ≤ B.ucHeap + configTotalHeapSize) ∧
    s.held.Pairwise fun x y => x.1 + x.2 + 8 ≤ y.1 ∨ y.1 + y.2 + 8 ≤ x.1 := by
  obtain hs | ⟨L, hinv⟩ := reached_run (Or.inl h₀) hrun
  · simp [hs.2]
  have hlayout := HeapBuild.layout B
  refine ⟨fun p n hp => ?_, ?_⟩
  · obtain ⟨b, t, rfl, hb, -, hn⟩ := hinv.held_block p n hp
    have hwithin := size_le_of_mem hinv.ok.extent_eq hb
    obtain ⟨pre, post, hL, rfl⟩ := split_of_mem_blocks hb
    have hmod := extent_mod (sized_append.mp (hL ▸ hinv.ok.sized)).1
    have hbase := hlayout.base_aligned
    have hge := hlayout.base_ge
    have hend := hlayout.end_fits
    simp only [Tile.size] at hwithin
    rw [portByteAlignment]
    omega
  · have hne : s.held.Pairwise fun x y => x.1 ≠ y.1 := List.pairwise_map.mp hinv.nodup
    refine hne.imp_of_mem fun {x y} hx hy hxy => ?_
    obtain ⟨b, t, hxb, hb, -, hn⟩ := hinv.held_block x.1 x.2 hx
    obtain ⟨c, u, hyc, hc, -, hm⟩ := hinv.held_block y.1 y.2 hy
    obtain heq | hd | hd := blocks_disjoint hb hc
    · simp only [Prod.mk.injEq] at heq
      omega
    · simp only [Tile.size] at hd
      omega
    · simp only [Tile.size] at hd
      omega

theorem held_apart_three : ∃ s, (heapMachine sampleBuild).run sampleStart
      [.malloc 100, .malloc 1, .calloc 3 5] = some s ∧
    ((∀ p n, (p, n) ∈ s.held → p % portByteAlignment = 0 ∧ sampleBuild.ucHeap + 8 ≤ p ∧
      p + n ≤ sampleBuild.ucHeap + configTotalHeapSize) ∧
    s.held.Pairwise fun x y => x.1 + x.2 + 8 ≤ y.1 ∨ y.1 + y.2 + 8 ≤ x.1) := by
  have hrun : ((heapMachine sampleBuild).run sampleStart
      [.malloc 100, .malloc 1, .calloc 3 5]).isSome := by
    decide +kernel
  obtain ⟨s, hs⟩ := Option.isSome_iff_exists.mp hrun
  exact ⟨s, hs, held_apart sampleStart_atStart hs⟩

/-- INTERNAL: the byte of a held block after calls: the last one stored there, if any. -/
def written (pv i : ℕ) : List HeapCall → Byte → Byte
  | [], v => v
  | .write p j byte :: ls, v => written pv i ls (if p = pv ∧ j = i then byte else v)
  | .malloc _ :: ls, v => written pv i ls v
  | .calloc _ _ :: ls, v => written pv i ls v
  | .free _ :: ls, v => written pv i ls v

/-- INTERNAL: one call on the bytes of a block that is held on. -/
theorem HeapEffect.contents {B : HeapBuild} {s s' : HeapSystem} {L L' : List Tile} {c : HeapCall}
    {pv n : ℕ} (hinv : HeapInv B s L) (h : HeapEffect B s c s' L L') (hheld : (pv, n) ∈ s.held)
    (hfree : c ≠ .free pv) :
    (pv, n) ∈ s'.held ∧ ∀ i < n, s'.heap.mem (pv + i) = written pv i [c] (s.heap.mem (pv + i)) := by
  obtain ⟨b, t, hpv, hb, -, hn⟩ := hinv.held_block pv n hheld
  have hnot (i : ℕ) (hi : i < n) := not_inFree_of_used hinv.ok.extent_eq hb
    (show b ≤ pv + i by omega) (by omega)
  cases h with
  | nothing hc =>
    refine ⟨hheld, fun i _ => ?_⟩
    cases c with
    | write p j byte => exact absurd rfl (hc p j byte)
    | malloc _ => rfl
    | calloc _ _ => rfl
    | free _ => rfl
  | @take _ k size pre post h' m' hc hk hfits htaken hm =>
    refine ⟨List.mem_cons_of_mem _ hheld, fun i hi => ?_⟩
    have hwritten : written pv i [c] (s.heap.mem (pv + i)) = s.heap.mem (pv + i) := by
      obtain rfl | ⟨_, _, rfl, -⟩ := hc <;> rfl
    obtain ⟨hi₁, hi₂, hi₃⟩ := apart_of_not_inFree hinv.ok hfits (hnot i hi).1 (hnot i hi).2
    have hout : pv + i < B.pucAlignedHeap + extent pre + 8 ∨
        B.pucAlignedHeap + extent pre + 8 + k ≤ pv + i := by
      by_contra hcon
      refine (hnot i hi).1 ⟨B.pucAlignedHeap + extent pre, size, ?_, by omega, by omega⟩
      simp [blocks_append, blocks]
    rw [hwritten]
    exact (hm _ hout).trans (htaken.frame _ hi₁ hi₂ hi₃)
  | @give q size pre post h' hq hreleased =>
    have hne : pv ≠ q := fun h => hfree (by rw [h])
    have hmem : (B.pucAlignedHeap + extent pre, .used size) ∈
        blocks B.pucAlignedHeap (pre ++ .used size :: post) := by simp [blocks_append, blocks]
    refine ⟨List.mem_filter.mpr ⟨hheld, decide_eq_true hne⟩, fun i hi => ?_⟩
    have hlast := lastLink_inFree hinv.ok.extent_eq (sized_append.mp hinv.ok.sized).1
      (hnot i hi).1 (hnot i hi).2
    have hsize := header_size hinv.ok.sized hmem
    refine hreleased.frame _ hlast ?_
    simp only [Tile.size] at hsize
    obtain heq | hd | hd := blocks_disjoint hb hmem
    · simp only [Prod.mk.injEq] at heq
      omega
    · simp only [Tile.size] at hd
      omega
    · simp only [Tile.size] at hd
      omega
  | @store q j k byte L hq hj =>
    refine ⟨hheld, fun i hi => ?_⟩
    simp only [written, Memory.setByte]
    obtain ⟨c, u, hqc, hc, -, hk⟩ := hinv.held_block q k hq
    by_cases hsame : q = pv ∧ j = i
    · rw [if_pos (by omega), if_pos hsame]
    · rw [if_neg hsame, if_neg ?_]
      obtain heq | hd | hd := blocks_disjoint hb hc
      · simp only [Prod.mk.injEq] at heq
        omega
      · simp only [Tile.size] at hd
        omega
      · simp only [Tile.size] at hd
        omega

theorem written_cons (pv i : ℕ) (c : HeapCall) (ls : List HeapCall) (v : Byte) :
    written pv i (c :: ls) v = written pv i ls (written pv i [c] v) := by
  cases c <;> rfl

/-- CONTRACT: the bytes of a block stay what its holder stored there, whatever others allocate,
release and store, until it is released.
SOURCE: FreeRTOS-KernelV10.6.2/portable/MemMang/heap_4.c:138-502 -/
theorem contents_kept {B : HeapBuild} {s₀ s t : HeapSystem} {ls₀ ls : List HeapCall} {pv n : ℕ}
    (h₀ : s₀.AtStart B) (hrun₀ : (heapMachine B).run s₀ ls₀ = some s) (hheld : (pv, n) ∈ s.held)
    (hrun : (heapMachine B).run s ls = some t) (hfree : .free pv ∉ ls) :
    (pv, n) ∈ t.held ∧
      ∀ i < n, t.heap.mem (pv + i) = written pv i ls (s.heap.mem (pv + i)) := by
  obtain hs | ⟨L, hinv⟩ := reached_run (Or.inl h₀) hrun₀
  · simp [hs.2] at hheld
  clear h₀ hrun₀
  induction ls generalizing s L with
  | nil =>
    obtain rfl := Option.some.inj hrun
    exact ⟨hheld, fun i _ => rfl⟩
  | cons c ls ih =>
    obtain ⟨u, hu, hrest⟩ := (heapMachine B).run_cons_eq_some.mp hrun
    rw [List.mem_cons, not_or] at hfree
    obtain ⟨L', heffect⟩ := heap_step_cases hinv hu
    obtain ⟨hheld', hbytes⟩ := heffect.contents hinv hheld (Ne.symm hfree.1)
    obtain ⟨hlast, hrestBytes⟩ := ih hheld' hrest hfree.2 L' (heffect.inv hinv).1
    refine ⟨hlast, fun i hi => ?_⟩
    rw [hrestBytes i hi, hbytes i hi, ← written_cons]

theorem contents_kept_one : ∃ s t, (heapMachine sampleBuild).run sampleStart
      [.malloc 100, .malloc 20] = some s ∧
    (heapMachine sampleBuild).run s
      [.write 0x20001010 3 0x55, .free 0x20001080, .calloc 2 2] = some t ∧
    ((0x20001010, 100) ∈ t.held ∧ ∀ i < 100, t.heap.mem (0x20001010 + i) =
      written 0x20001010 i [.write 0x20001010 3 0x55, .free 0x20001080, .calloc 2 2]
        (s.heap.mem (0x20001010 + i))) := by
  have hrun₀ : ((heapMachine sampleBuild).run sampleStart [.malloc 100, .malloc 20]).map
      (fun s => (s.held, ((heapMachine sampleBuild).run s
        [.write 0x20001010 3 0x55, .free 0x20001080, .calloc 2 2]).isSome)) =
      some ([(0x20001080, 20), (0x20001010, 100)], true) := by
    decide +kernel
  obtain ⟨s, hs, hpair⟩ := Option.map_eq_some_iff.mp hrun₀
  obtain ⟨hheld, hsome⟩ := Prod.mk.inj hpair
  obtain ⟨t, ht⟩ := Option.isSome_iff_exists.mp hsome
  exact ⟨s, t, hs, ht, contents_kept sampleStart_atStart hs (by rw [hheld]; decide) ht (by decide)⟩

/-- CONTRACT: a block from `pvPortCalloc` has the size of the product, which does not overflow,
and each of its bytes is what its holder stored there last, or zero.
SOURCE: FreeRTOS-KernelV10.6.2/portable/MemMang/heap_4.c:378-394 -/
theorem calloc_cleared {B : HeapBuild} {s₀ s s₁ t : HeapSystem} {ls₀ ls : List HeapCall}
    {xNum xSize pv n : ℕ} (h₀ : s₀.AtStart B) (hrun₀ : (heapMachine B).run s₀ ls₀ = some s)
    (hcall : (heapMachine B).step s (.calloc xNum xSize) = some s₁) (hheld : (pv, n) ∈ s₁.held)
    (hnew : (pv, n) ∉ s.held) (hrun : (heapMachine B).run s₁ ls = some t)
    (hfree : .free pv ∉ ls) :
    n = xNum * xSize ∧ n ≤ heapSizeMax ∧ ∀ i < n, t.heap.mem (pv + i) = written pv i ls 0 := by
  have hrun₁ : (heapMachine B).run s₀ (ls₀ ++ [.calloc xNum xSize]) = some s₁ :=
    (heapMachine B).run_append hrun₀ ((heapMachine B).run_cons_eq_some.mpr ⟨s₁, hcall, rfl⟩)
  have hkept := (contents_kept h₀ hrun₁ hheld hrun hfree).2
  have hcleared : n = xNum * xSize ∧ n ≤ heapSizeMax ∧ ∀ i < n, s₁.heap.mem (pv + i) = 0 := by
    simp only [heapMachine] at hcall
    obtain ⟨-, hcall⟩ := Option.ite_none_right_eq_some.mp hcall
    cases hover : heapMultiplyWillOverflow xNum xSize with
    | true =>
      rw [pvPortCalloc, if_neg (by simp [hover])] at hcall
      obtain rfl := Option.some.inj hcall
      exact absurd hheld hnew
    | false =>
      rw [pvPortCalloc_eq hover] at hcall
      cases hres : pvPortMalloc B s.heap (xNum * xSize) with
      | error e =>
        rw [hres] at hcall
        cases hcall
      | ok r =>
        obtain ⟨h, p⟩ := r
        by_cases hp : p = 0
        · subst hp
          rw [hres] at hcall
          obtain rfl := Option.some.inj hcall
          exact absurd hheld hnew
        · rw [hres, Except.map, clearBlock, if_pos hp] at hcall
          simp only [HeapSystem.handOut, if_neg hp, Option.some.injEq] at hcall
          subst hcall
          simp only [List.mem_cons, Prod.mk.injEq] at hheld
          obtain ⟨rfl, rfl⟩ := hheld.resolve_right hnew
          refine ⟨rfl, le_of_not_overflow hover, fun i hi => ?_⟩
          exact Memory.fill_inside (by omega) (by omega)
  refine ⟨hcleared.1, hcleared.2.1, fun i hi => ?_⟩
  rw [hkept i hi, hcleared.2.2 i hi]

theorem calloc_cleared_reused : ∃ s s₁ t, (heapMachine sampleBuild).run sampleStart
      [.malloc 100, .write 0x20001010 3 0x55, .free 0x20001010] = some s ∧
    (heapMachine sampleBuild).step s (.calloc 5 20) = some s₁ ∧
    (heapMachine sampleBuild).run s₁ [.write 0x20001010 7 0x66] = some t ∧
    (100 = 5 * 20 ∧ 100 ≤ heapSizeMax ∧ ∀ i < 100,
      t.heap.mem (0x20001010 + i) = written 0x20001010 i [.write 0x20001010 7 0x66] 0) := by
  have hrun : ((heapMachine sampleBuild).run sampleStart
        [.malloc 100, .write 0x20001010 3 0x55, .free 0x20001010]).bind (fun s =>
      ((heapMachine sampleBuild).step s (.calloc 5 20)).bind fun s₁ =>
        ((heapMachine sampleBuild).run s₁ [.write 0x20001010 7 0x66]).map fun t =>
          (s.held, s₁.held)) = some ([], [(0x20001010, 100)]) := by
    decide +kernel
  obtain ⟨s, hs, hrest⟩ := Option.bind_eq_some_iff.mp hrun
  obtain ⟨s₁, hs₁, hrest⟩ := Option.bind_eq_some_iff.mp hrest
  obtain ⟨t, ht, hpair⟩ := Option.map_eq_some_iff.mp hrest
  obtain ⟨hheld, hheld₁⟩ := Prod.mk.inj hpair
  exact ⟨s, s₁, t, hs, hs₁, ht, calloc_cleared sampleStart_atStart hs hs₁ (by rw [hheld₁]; decide)
    (by rw [hheld]; decide) ht (by decide)⟩

/-- INTERNAL: the free bytes of a heap, before the first call those that it will have. -/
def freeLevel (B : HeapBuild) (s : HeapSystem) : ℕ :=
  if s.heap.pxEnd = 0 then B.endMarker - B.pucAlignedHeap else s.heap.xFreeBytesRemaining

/-- INTERNAL: the mark that `xPortGetMinimumEverFreeHeapSize` reads, in the same way. -/
def lowMark (B : HeapBuild) (s : HeapSystem) : ℕ :=
  if s.heap.pxEnd = 0 then B.endMarker - B.pucAlignedHeap
  else s.heap.xMinimumEverFreeBytesRemaining

theorem HeapInv.started {B : HeapBuild} {s : HeapSystem} {L : List Tile} (h : HeapInv B s L) :
    s.heap.pxEnd ≠ 0 := by
  have hspan := (HeapBuild.layout B).span
  rw [h.ok.started]
  omega

theorem lowMark_step {B : HeapBuild} {s s' : HeapSystem} {c : HeapCall} (hs : Reached B s)
    (hstep : (heapMachine B).step s c = some s') :
    lowMark B s' = min (lowMark B s) (freeLevel B s') := by
  obtain hs | ⟨L, hinv⟩ := hs
  · have hend : s.heap.pxEnd = 0 := hs.1.2.1
    obtain hsame | hset := start_step hs c
    · rw [hsame] at hstep
      obtain rfl := Option.some.inj hstep
      simp [lowMark, freeLevel, hend]
    · rw [hset] at hstep
      obtain ⟨L', heffect⟩ := heap_step_cases (setUp_inv hs) hstep
      obtain ⟨hinv', hmin⟩ := heffect.inv (setUp_inv hs)
      rw [lowMark, if_neg hinv'.started, lowMark, if_pos hend, freeLevel,
        if_neg hinv'.started, hmin]
      congr 1
      exact (prvHeapInit_spec B s.heap).2
  · obtain ⟨L', heffect⟩ := heap_step_cases hinv hstep
    obtain ⟨hinv', hmin⟩ := heffect.inv hinv
    rw [lowMark, if_neg hinv'.started, lowMark, if_neg hinv.started, freeLevel,
      if_neg hinv'.started, hmin]

/-- CONTRACT: `xPortGetMinimumEverFreeHeapSize` is exactly the least number of free bytes that
the heap has had since it was set up.
SOURCE: FreeRTOS-KernelV10.6.2/portable/MemMang/heap_4.c:253-262 366-369 -/
theorem low_water {B : HeapBuild} {s₀ s : HeapSystem} {ls : List HeapCall} (h₀ : s₀.AtStart B)
    (hrun : (heapMachine B).run s₀ ls = some s) (hend : s.heap.pxEnd ≠ 0) :
    (∀ ls₁ ls₂ u, ls = ls₁ ++ ls₂ → (heapMachine B).run s₀ ls₁ = some u → u.heap.pxEnd ≠ 0 →
      s.heap.xMinimumEverFreeBytesRemaining ≤ u.heap.xFreeBytesRemaining) ∧
    ∃ ls₁ ls₂ u, ls = ls₁ ++ ls₂ ∧ (heapMachine B).run s₀ ls₁ = some u ∧ u.heap.pxEnd ≠ 0 ∧
      s.heap.xMinimumEverFreeBytesRemaining = u.heap.xFreeBytesRemaining := by
  have hstart : s₀.heap.pxEnd = 0 := h₀.1.2.1
  have hzero : lowMark B s₀ = B.endMarker - B.pucAlignedHeap := if_pos hstart
  have hmark : lowMark B s = s.heap.xMinimumEverFreeBytesRemaining := if_neg hend
  obtain ⟨-, hall, hsome⟩ := (heapMachine B).run_lowest (lowMark B) (freeLevel B)
    (Reached B) (fun _ _ _ hs hstep => reached_step hs hstep)
    (fun _ _ _ hs hstep => lowMark_step hs hstep) (Or.inl h₀)
    (by rw [hzero, freeLevel, if_pos hstart]) hrun
  rw [hmark] at hall hsome
  refine ⟨fun ls₁ ls₂ u hsplit hu hstarted => ?_, ?_⟩
  · have := hall ls₁ ls₂ u hsplit hu
    rwa [freeLevel, if_neg hstarted] at this
  · -- where nothing was ever in use, the end of the run has the least
    have hlast (hfull : s.heap.xMinimumEverFreeBytesRemaining = B.endMarker - B.pucAlignedHeap) :
        s.heap.xMinimumEverFreeBytesRemaining = s.heap.xFreeBytesRemaining := by
      obtain ⟨L, hinv⟩ := (reached_run (Or.inl h₀) hrun).inv hend
      have hle := hinv.minimum
      have hext := hinv.ok.extent_eq
      have hfree := hinv.ok.free_eq
      have := freeBytes_le_extent (L := L)
      omega
    obtain heq | ⟨ls₁, ls₂, u, hsplit, hu, heq⟩ := hsome
    · exact ⟨ls, [], s, by simp, hrun, hend, hlast (heq.trans hzero)⟩
    · by_cases hu0 : u.heap.pxEnd = 0
      · rw [freeLevel, if_pos hu0] at heq
        exact ⟨ls, [], s, by simp, hrun, hend, hlast heq⟩
      · rw [freeLevel, if_neg hu0] at heq
        exact ⟨ls₁, ls₂, u, hsplit, hu, hu0, heq⟩

theorem low_water_released : ∃ s, (heapMachine sampleBuild).run sampleStart
      [.malloc 100, .malloc 20, .free 0x20001010] = some s ∧
    ((∀ ls₁ ls₂ u, [.malloc 100, .malloc 20, .free 0x20001010] = ls₁ ++ ls₂ →
      (heapMachine sampleBuild).run sampleStart ls₁ = some u → u.heap.pxEnd ≠ 0 →
      s.heap.xMinimumEverFreeBytesRemaining ≤ u.heap.xFreeBytesRemaining) ∧
    ∃ ls₁ ls₂ u, [.malloc 100, .malloc 20, .free 0x20001010] = ls₁ ++ ls₂ ∧
      (heapMachine sampleBuild).run sampleStart ls₁ = some u ∧ u.heap.pxEnd ≠ 0 ∧
      s.heap.xMinimumEverFreeBytesRemaining = u.heap.xFreeBytesRemaining) := by
  have hrun : ((heapMachine sampleBuild).run sampleStart
      [.malloc 100, .malloc 20, .free 0x20001010]).map (fun s => s.heap.pxEnd) =
      some 0x20020ff8 := by
    decide +kernel
  obtain ⟨s, hs, hend⟩ := Option.map_eq_some_iff.mp hrun
  exact ⟨s, hs, low_water sampleStart_atStart hs (by rw [hend]; decide)⟩

/-- INTERNAL: an address lies in a block that a caller holds, header included. -/
def Covered (s : HeapSystem) (a : ℕ) : Prop :=
  ∃ pv n, (pv, n) ∈ s.held ∧ pv ≤ a + 8 ∧ a + 8 < pv + xBlockSize s.heap.mem (pv - 8) % 2 ^ 31

/-- INTERNAL: the header at an address in free memory is not marked as allocated. -/
structure Stale (B : HeapBuild) (s : HeapSystem) (L : List Tile) (a : ℕ) : Prop where
  inv : HeapInv B s L
  aligned : a % 8 = 0
  unmarked : xBlockSize s.heap.mem a < 2 ^ 31
  low : B.pucAlignedHeap ≤ a
  high : a < B.endMarker

theorem covered_iff {B : HeapBuild} {s : HeapSystem} {L : List Tile} {a : ℕ}
    (hinv : HeapInv B s L) :
    Covered s a ↔ ∃ b t, (b, .used t) ∈ blocks B.pucAlignedHeap L ∧ b ≤ a ∧ a < b + t := by
  have hsize {b t : ℕ} (hb : (b, .used t) ∈ blocks B.pucAlignedHeap L) :
      xBlockSize s.heap.mem b % 2 ^ 31 = t := by
    have hwithin := size_le_of_mem hinv.ok.extent_eq hb
    simp only [Tile.size, configTotalHeapSize] at hwithin
    rw [(hinv.ok.headers b t hb).1]
    omega
  constructor
  · rintro ⟨pv, n, hheld, hlow, hhigh⟩
    obtain ⟨b, t, rfl, hb, -⟩ := hinv.held_block pv n hheld
    rw [Nat.add_sub_cancel, hsize hb] at hhigh
    exact ⟨b, t, hb, by omega, by omega⟩
  · rintro ⟨b, t, hb, hlow, hhigh⟩
    obtain ⟨n, hn⟩ := hinv.block_held b t hb
    refine ⟨b + 8, n, hn, by omega, ?_⟩
    rw [Nat.add_sub_cancel, hsize hb]
    omega

theorem block_aligned {B : HeapBuild} {L : List Tile} {b : ℕ} {x : Tile} (hsized : Sized L)
    (hb : (b, x) ∈ blocks B.pucAlignedHeap L) : b % 8 = 0 := by
  obtain ⟨pre, post, rfl, rfl⟩ := split_of_mem_blocks hb
  have hmod := extent_mod (sized_append.mp hsized).1
  have hbase := (HeapBuild.layout B).base_aligned
  omega

section Stale

variable {B : HeapBuild} {s s' : HeapSystem} {L L' pre post : List Tile} {c : HeapCall} {a : ℕ}

/-- INTERNAL: a header that a call does not write, or writes for a free block, stays unmarked. -/
theorem Stale.of_frame (h : Stale B s L a) (hinv' : HeapInv B s' L')
    (hkeep : (¬∃ u, (a, .free u) ∈ blocks B.pucAlignedHeap L') →
      xBlockSize s'.heap.mem a < 2 ^ 31) : Stale B s' L' a := by
  refine ⟨hinv', h.aligned, ?_, h.low, h.high⟩
  by_cases hfree : ∃ u, (a, .free u) ∈ blocks B.pucAlignedHeap L'
  · obtain ⟨u, hu⟩ := hfree
    have hwithin := size_le_of_mem hinv'.ok.extent_eq hu
    simp only [Tile.size, configTotalHeapSize] at hwithin
    rw [hinv'.ok.threaded.size_of_mem hu]
    omega
  · exact hkeep hfree

/-- INTERNAL: the last free block before a place does not hold a header that is not its own. -/
theorem Stale.apart_lastLink (h : Stale B s L a) (hsized : Sized pre)
    (hblocks : ∀ b u, (b, .free u) ∈ blocks B.pucAlignedHeap pre →
      ∃ u', (b, .free u') ∈ blocks B.pucAlignedHeap L')
    (hfree : ¬∃ u, (a, .free u) ∈ blocks B.pucAlignedHeap L') {y : ℕ} (h0 : a + 4 ≤ y)
    (h1 : y < a + 4 + 4) : y < lastLink B.xStart B.pucAlignedHeap pre ∨
      lastLink B.xStart B.pucAlignedHeap pre + 8 ≤ y := by
  have haligned := h.aligned
  have hend := (HeapBuild.layout B).end_aligned
  have hapart := (HeapBuild.layout B).apart
  have hlow := h.low
  have hhigh := h.high
  obtain hlast | ⟨u, hu⟩ := lastLink_mem B.xStart B.pucAlignedHeap pre
  · omega
  · have hmod := block_aligned hsized hu
    have hne : a ≠ lastLink B.xStart B.pucAlignedHeap pre := fun heq => hfree (heq ▸ hblocks _ u hu)
    omega

/-- INTERNAL: the header stays unmarked while its memory is not handed out. -/
theorem Stale.step (h : Stale B s L a) (heffect : HeapEffect B s c s' L L')
    (hcovered : ¬Covered s' a) : Stale B s' L' a := by
  have hinv' := (heffect.inv h.inv).1
  have hnot := fun b t hb => not_and.mp (not_exists.mp (not_exists.mp
    ((covered_iff hinv').not.mp hcovered) b) t) hb
  have haligned := h.aligned
  refine h.of_frame hinv' fun hfree => ?_
  cases heffect with
  | nothing hc => exact h.unmarked
  | @take _ n size pre post h' m' hc hn hfits htaken hm =>
    have hsized := sized_append.mp h.inv.ok.sized
    have hmem : (B.pucAlignedHeap + extent pre, .used (taken 16 ((n + 15) / 8 * 8) size)) ∈
        blocks B.pucAlignedHeap (carve 16 ((n + 15) / 8 * 8) pre size post) :=
      (used_mem_blocks_carve hfits).mpr (Or.inr ⟨rfl, rfl⟩)
    have hb := hnot _ _ hmem
    have hmod := block_aligned hinv'.ok.sized hmem
    have htakes : n + 8 ≤ taken 16 ((n + 15) / 8 * 8) size := by
      rw [taken]
      split_ifs <;> omega
    have hkeep (y : ℕ) (h0 : a + 4 ≤ y) (h1 : y < a + 4 + 4) : m' y = s.heap.mem y := by
      rw [hm y (by omega)]
      refine htaken.frame y (h.apart_lastLink hsized.1 (fun b u hb => ⟨u, ?_⟩) hfree h0 h1)
        (by omega) fun hsplit => ?_
      · rw [carve]
        split_ifs <;> exact blocks_append ▸ List.mem_append_left _ hb
      · -- the rest of a block that was split is a free block
        have hne : a ≠ B.pucAlignedHeap + extent pre + (n + 15) / 8 * 8 := by
          intro heq
          refine hfree ⟨size - (n + 15) / 8 * 8, ?_⟩
          rw [carve, if_pos hsplit, heq]
          simp [blocks_append, blocks, Tile.size]
        omega
    exact (Memory.word_congr hkeep).trans_lt h.unmarked
  | @give pv size pre post h' hpv hreleased =>
    by_cases heq : a = B.pucAlignedHeap + extent pre
    · rw [heq]
      exact hreleased.unmarked
    · have hsized := sized_append.mp h.inv.ok.sized
      have hmod := extent_mod hsized.1
      have hbase := (HeapBuild.layout B).base_aligned
      have hkeep (y : ℕ) (h0 : a + 4 ≤ y) (h1 : y < a + 4 + 4) : h'.mem y = s.heap.mem y :=
        hreleased.frame y (h.apart_lastLink hsized.1 (fun b u hb => free_mem_blocks_release hb)
          hfree h0 h1) (by omega)
      exact (Memory.word_congr hkeep).trans_lt h.unmarked
  | @store pv i n byte L hheld hi =>
    obtain ⟨b, t, rfl, hb, -, hn⟩ := h.inv.held_block pv n hheld
    have hapart := hnot b t hb
    have hmod := block_aligned h.inv.ok.sized hb
    have hkeep (y : ℕ) (h0 : a + 4 ≤ y) (h1 : y < a + 4 + 4) :
        s.heap.mem.setByte (b + 8 + i) byte y = s.heap.mem y := Memory.setByte_of_ne (by omega)
    exact (Memory.word_congr hkeep).trans_lt h.unmarked

/-- INTERNAL: a released block leaves such a header. -/
theorem Stale.of_free {pv : ℕ} (hinv : HeapInv B s L) (hpv : pv ∈ s.held.map Prod.fst)
    (hstep : (heapMachine B).step s (.free pv) = some s') :
    ∃ L' a, pv = a + 8 ∧ Stale B s' L' a := by
  obtain ⟨pre, size, post, h', rfl, hb, hres, hreleased⟩ := free_held hinv hpv
  simp only [heapMachine, if_pos (Or.inr hpv : pv = 0 ∨ pv ∈ s.held.map Prod.fst), hres] at hstep
  obtain rfl := Option.some.inj hstep
  have hmem : (B.pucAlignedHeap + extent pre, .used size) ∈
      blocks B.pucAlignedHeap (pre ++ .used size :: post) := by simp [blocks_append, blocks]
  have hsize := header_size hinv.ok.sized hmem
  have hwithin := size_le_of_mem hinv.ok.extent_eq hmem
  simp only [Tile.size] at hsize hwithin
  have hinv' := ((HeapEffect.give (B := B) hb hreleased).inv hinv).1
  exact ⟨_, _, hb, hinv', block_aligned hinv.ok.sized hmem, hreleased.unmarked, by omega, by omega⟩

theorem Stale.run {ls : List HeapCall} (h : Stale B s L a)
    (hrun : (heapMachine B).run s ls = some s')
    (hcovered : (heapMachine B).Always (fun u => ¬Covered u a) s ls) : ∃ L', Stale B s' L' a := by
  induction ls generalizing s L with
  | nil =>
    obtain rfl := Option.some.inj hrun
    exact ⟨L, h⟩
  | cons c ls ih =>
    obtain ⟨u, hu, hrest⟩ := (heapMachine B).run_cons_eq_some.mp hrun
    have hnext := hcovered.2 u hu
    obtain ⟨L', heffect⟩ := heap_step_cases h.inv hu
    have hnow : ¬Covered u a := by
      cases ls with
      | nil => exact hnext
      | cons _ _ => exact hnext.1
    exact ih (h.step heffect hnow) hrest hnext

end Stale

/-- CONTRACT: a block released once more is caught, whatever is called in between, as long as
the memory of its header has not been handed out again: the assertion fails, and without
assertions the call changes nothing.
SOURCE: FreeRTOS-KernelV10.6.2/portable/MemMang/heap_4.c:307-357 -/
theorem double_free {B : HeapBuild} {s₀ s s₁ t : HeapSystem} {ls₀ ls : List HeapCall} {pv : ℕ}
    (h₀ : s₀.AtStart B) (hrun₀ : (heapMachine B).run s₀ ls₀ = some s)
    (hpv : pv ∈ s.held.map Prod.fst) (hfree : (heapMachine B).step s (.free pv) = some s₁)
    (hrun : (heapMachine B).run s₁ ls = some t)
    (hcovered : (heapMachine B).Always (fun u => ¬Covered u (pv - 8)) s₁ ls) :
    vPortFree B t.heap pv = if B.ndebug then .ok t.heap else .error .assertFailed := by
  obtain hs | ⟨L, hinv⟩ := reached_run (Or.inl h₀) hrun₀
  · simp [hs.2] at hpv
  obtain ⟨L₁, a, rfl, hstale₁⟩ := Stale.of_free hinv hpv hfree
  rw [Nat.add_sub_cancel] at hcovered
  obtain ⟨L', hstale⟩ := hstale₁.run hrun hcovered
  have haddress := (HeapBuild.layout B).address
  have hhigh := hstale.high
  have hpxLink : u32 (((a + 8 : ℕ) : ℤ) - xHeapStructSize) = a := by
    rw [xHeapStructSize_eq, u32_sub (by omega) (by omega)]
    omega
  have hbit : heapBlockIsAllocated t.heap.mem a = false := by
    have hsize := hstale.unmarked
    rw [heapBlockIsAllocated, and_allocatedBitmask (by omega), if_pos hsize]
    rfl
  rw [vPortFree, if_pos (by omega)]
  simp only [hpxLink, hbit, configAssert, Bool.or_false]
  cases B.ndebug <;> rfl

theorem double_free_again : ∃ s s₁ t, (heapMachine sampleBuild).run sampleStart
      [.malloc 100, .malloc 20] = some s ∧
    (heapMachine sampleBuild).step s (.free 0x20001010) = some s₁ ∧
    (heapMachine sampleBuild).run s₁ [.free 0x20001080] = some t ∧
    vPortFree sampleBuild t.heap 0x20001010 =
      if sampleBuild.ndebug then .ok t.heap else .error .assertFailed := by
  have hrun : ((heapMachine sampleBuild).run sampleStart [.malloc 100, .malloc 20]).bind (fun s =>
      ((heapMachine sampleBuild).step s (.free 0x20001010)).bind fun s₁ =>
        ((heapMachine sampleBuild).run s₁ [.free 0x20001080]).map fun t =>
          (s.held, s₁.held, t.held)) =
      some ([(0x20001080, 20), (0x20001010, 100)], [(0x20001080, 20)], []) := by
    decide +kernel
  obtain ⟨s, hs, hrest⟩ := Option.bind_eq_some_iff.mp hrun
  obtain ⟨s₁, hs₁, hrest⟩ := Option.bind_eq_some_iff.mp hrest
  obtain ⟨t, ht, htriple⟩ := Option.map_eq_some_iff.mp hrest
  simp only [Prod.mk.injEq] at htriple
  obtain ⟨hheld, hheld₁, hheld₂⟩ := htriple
  refine ⟨s, s₁, t, hs, hs₁, ht, double_free sampleStart_atStart hs (by rw [hheld]; decide) hs₁ ht
    ⟨?_, fun u hu => ?_⟩⟩
  · rintro ⟨pv, n, hmem, hlow, -⟩
    rw [hheld₁, List.mem_singleton, Prod.mk.injEq] at hmem
    omega
  · obtain ⟨u', hu', hrest⟩ := (heapMachine sampleBuild).run_cons_eq_some.mp ht
    obtain rfl := Option.some.inj (hu.symm.trans hu')
    obtain rfl := Option.some.inj hrest
    rintro ⟨pv, n, hmem, -⟩
    rw [hheld₂] at hmem
    simp at hmem

end PicoDrone.Analysis
