import MyOS.Verification.Memory.Heap
import MyOS.Verification.Process.Views

/-! How far the expansion loop of `malloc` goes: inside the low 4 MiB it takes a frame for each
page up to the end of the new block, or all there are. -/

namespace MyOS

open Effect X86Paging ByteMemory PageTables Ownership BlockHeap

/-! ## Free frames -/

theorem pmmGetFreeFrameCount_card (p : Pmm) :
    pmmGetFreeFrameCount p =
      ((Finset.range p.capacity).filter fun f => p.frameUsed f = false).card := by
  rw [pmmGetFreeFrameCount_eq, List.countP_eq_length_filter]
  simp [Finset.card, Finset.filter_val, Multiset.range]

/-- An allocation takes one of the free frames, if there is one. -/
theorem pmmGetFreeFrameCount_cases (p : Pmm) :
    pmmGetFreeFrameCount (pmmAllocFrame p).2 + 1 = pmmGetFreeFrameCount p ∨
      pmmAllocFrame p = (0, p) := by
  obtain ⟨f, hlt, hfree, -, hs⟩ | ⟨-, hs⟩ := pmmAllocFrame_cases p
  · left
    have hmem : f ∈ (Finset.range p.capacity).filter fun f => p.frameUsed f = false := by
      rw [Finset.mem_filter, Finset.mem_range]
      exact ⟨hlt, hfree⟩
    have hset : ((Finset.range p.capacity).filter fun g => (pmmAllocFrame p).2.frameUsed g = false) =
        ((Finset.range p.capacity).filter fun g => p.frameUsed g = false).erase f := by
      ext g
      rw [Finset.mem_erase, Finset.mem_filter, Finset.mem_filter, hs]
      simp only [Pmm.frameUsed, bit_pmmSetBit, Bool.or_eq_false_iff, decide_eq_false_iff_not]
      exact and_left_comm
    rw [pmmGetFreeFrameCount_card, pmmGetFreeFrameCount_card, pmmAllocFrame_capacity, hset,
      Finset.card_erase_add_one hmem]
  · exact .inr hs

theorem pmmGetFreeFrameCount_alloc {p : Pmm} (hne : (pmmAllocFrame p).1 ≠ 0) :
    pmmGetFreeFrameCount (pmmAllocFrame p).2 + 1 = pmmGetFreeFrameCount p := by
  rcases pmmGetFreeFrameCount_cases p with h | h
  · exact h
  · rw [h] at hne
    exact absurd rfl hne

theorem pmmGetFreeFrameCount_alloc_le (p : Pmm) :
    pmmGetFreeFrameCount (pmmAllocFrame p).2 ≤ pmmGetFreeFrameCount p := by
  rcases pmmGetFreeFrameCount_cases p with h | h
  · omega
  · rw [h]

variable {s s' : Machine} {g : Layout} {size : ℕ}

/-- Frame 0 is in use, so an allocation fails exactly when no frame is free. -/
theorem KernelSpace.alloc_null_iff (h : KernelSpace s g) :
    (pmmAllocFrame s.pmm).1 = 0 ↔ pmmGetFreeFrameCount s.pmm = 0 := by
  constructor
  · intro hnull
    rw [pmmGetFreeFrameCount_card, Finset.card_eq_zero, Finset.filter_eq_empty_iff]
    intro f hf
    rw [Finset.mem_range, h.capacity] at hf
    obtain ⟨-, -, hused⟩ := (h.alloc_null hnull).2 (4096 * f) (by omega) (by omega)
    rw [Nat.mul_div_cancel_left _ (by omega)] at hused
    rw [hused]
    decide
  · intro hzero
    by_contra hne
    have := pmmGetFreeFrameCount_alloc hne
    omega

/-! ## Any run of the loop -/

/-- Mapping a page changes none of the heap's variables and frees no frame. -/
structure MappingKept (s t : Machine) : Prop where
  heapTop : t.heapTop = s.heapTop
  heapEnd : t.heapEnd = s.heapEnd
  freeListHead : t.freeListHead = s.freeListHead
  free_le : pmmGetFreeFrameCount t.pmm ≤ pmmGetFreeFrameCount s.pmm

theorem mappingKept_chain : Chain MappingKept :=
  ⟨fun _ => ⟨rfl, rfl, rfl, Nat.le_refl _⟩, fun h h' => ⟨h'.heapTop.trans h.heapTop,
    h'.heapEnd.trans h.heapEnd, h'.freeListHead.trans h.freeListHead, h'.free_le.trans h.free_le⟩⟩

theorem mappingKept_allocFrame : Leads MappingKept allocFrame := by
  intro s
  have hle := pmmGetFreeFrameCount_alloc_le s.pmm
  unfold final allocFrame
  dsimp only
  by_cases hnull : (pmmAllocFrame s.pmm).1 = 0
  · rw [if_pos hnull]
    exact ⟨rfl, rfl, rfl, hle⟩
  · rw [if_neg hnull]
    exact ⟨rfl, rfl, rfl, hle⟩

theorem mappingKept_pagingMapPage (dir va phys flags : ℕ) :
    Leads MappingKept (pagingMapPage dir va phys flags) := by
  have hblind : StoreBlind MappingKept :=
    ⟨⟨mappingKept_chain⟩, fun _ _ => ⟨rfl, rfl, rfl, Nat.le_refl _⟩⟩
  exact hblind.pagingMapPage mappingKept_allocFrame (fun _ _ => ⟨rfl, rfl, rfl, Nat.le_refl _⟩) _ _ _ _

/-- What holds of every run of the loop, wherever the heap grows to. -/
structure GrowthKept (s : Machine) (need : ℕ) (grown : Bool) (s' : Machine) : Prop where
  heapTop : s'.heapTop = s.heapTop
  freeListHead : s'.freeListHead = s.freeListHead
  end_lt : s.heapEnd < 2 ^ 32 → s'.heapEnd < 2 ^ 32
  enough : grown = true → need ≤ s'.heapEnd
  free_le : pmmGetFreeFrameCount s'.pmm ≤ pmmGetFreeFrameCount s.pmm

theorem mallocGrow_kept {need fuel : ℕ} {grown : Bool}
    (hneed : (s.heapTop + sizeofBlockHeader + size) % 2 ^ 32 = need)
    (hrun : mallocGrow size fuel s = .ok grown s') : GrowthKept s need grown s' := by
  induction fuel generalizing s with
  | zero => cases hrun
  | succ fuel ih =>
      rw [mallocGrow, bind_of_ok (get_apply s), hneed] at hrun
      by_cases hmore : need > s.heapEnd
      · rw [if_pos hmore] at hrun
        obtain ⟨frame, t, halloc, hrun⟩ := bind_eq_ok.mp hrun
        have htaken := mappingKept_allocFrame.ok halloc
        by_cases hnull : frame = 0
        · rw [if_pos hnull] at hrun
          cases hrun
          exact ⟨htaken.heapTop, htaken.freeListHead, fun h => by rwa [htaken.heapEnd],
            fun h => (Bool.noConfusion h), htaken.free_le⟩
        · rw [if_neg hnull] at hrun
          obtain ⟨_, u, hmap, hrun⟩ := bind_eq_ok.mp hrun
          have hkept := mappingKept_chain.trans htaken ((mappingKept_pagingMapPage _ _ _ _).ok hmap)
          rw [bind_of_ok (modify_apply _ u)] at hrun
          have hrest := ih (by rw [← hneed, ← hkept.heapTop]) hrun
          exact ⟨hrest.heapTop.trans hkept.heapTop, hrest.freeListHead.trans hkept.freeListHead,
            fun _ => hrest.end_lt (Nat.mod_lt _ (by omega)), hrest.enough,
            hrest.free_le.trans hkept.free_le⟩
      · rw [if_neg hmore] at hrun
        cases hrun
        exact ⟨rfl, rfl, id, fun _ => by omega, Nat.le_refl _⟩

/-- A run that gives up has used up its frames: it had none, or it has fewer than before. -/
theorem mallocGrow_false {need fuel : ℕ}
    (hneed : (s.heapTop + sizeofBlockHeader + size) % 2 ^ 32 = need)
    (hend : s.heapEnd + 4096 < 2 ^ 32) (hrun : mallocGrow size fuel s = .ok false s') :
    s.heapEnd < need ∧ ((pmmAllocFrame s.pmm).1 = 0 ∨
      s.heapEnd + 4096 < need ∧
        pmmGetFreeFrameCount s'.pmm < pmmGetFreeFrameCount s.pmm) := by
  cases fuel with
  | zero => cases hrun
  | succ fuel =>
      rw [mallocGrow, bind_of_ok (get_apply s), hneed] at hrun
      by_cases hmore : need > s.heapEnd
      · refine ⟨hmore, ?_⟩
        rw [if_pos hmore] at hrun
        by_cases hnull : (pmmAllocFrame s.pmm).1 = 0
        · exact .inl hnull
        · right
          rw [bind_of_ok (allocFrame_eq hnull), if_neg hnull] at hrun
          obtain ⟨_, u, hmap, hrun⟩ := bind_eq_ok.mp hrun
          have hkept := (mappingKept_pagingMapPage _ _ _ _).ok hmap
          rw [bind_of_ok (modify_apply _ u)] at hrun
          have hcount := pmmGetFreeFrameCount_alloc hnull
          have hle := hkept.free_le
          have hpage : (u.heapEnd + pmmFrameSize) % 2 ^ 32 = s.heapEnd + 4096 := by
            rw [hkept.heapEnd]
            exact Nat.mod_eq_of_lt hend
          have hneed' : (u.heapTop + sizeofBlockHeader + size) % 2 ^ 32 = need := by
            rw [← hneed, hkept.heapTop]
          have hrest := (mallocGrow_kept (by exact hneed') hrun).free_le
          simp only at hle hrest
          refine ⟨?_, by omega⟩
          -- the next round found the room too small again
          cases fuel with
          | zero => cases hrun
          | succ fuel =>
              by_contra hroom
              rw [mallocGrow, bind_of_ok (get_apply _)] at hrun
              simp only at hrun
              rw [hneed', hpage, if_neg (by omega)] at hrun
              cases hrun
      · rw [if_neg hmore] at hrun
        cases hrun

/-! ## Growth inside the low 4 MiB -/

/-- The heap grew by these frames, until there was room up to `need` or no frame was left. -/
structure Grown (s : Machine) (g : Layout) (need : ℕ) (frames : List ℕ) (s' : Machine) :
    Prop where
  space : KernelSpace s' (g.extend frames)
  heapTop : s'.heapTop = s.heapTop
  freeListHead : s'.freeListHead = s.freeListHead
  cr3 : s'.cr3 = s.cr3
  heapEnd : s'.heapEnd = s.heapEnd + 4096 * frames.length
  bytes : ∀ va, g.InHeap va → s'.mem (g.phys va) = s.mem (g.phys va)
  outside : ∀ x, x < g.table0 ∨ g.table0 + 4096 ≤ x → s'.mem x = s.mem x
  taken : pmmGetFreeFrameCount s'.pmm + frames.length = pmmGetFreeFrameCount s.pmm
  needed : ∀ k < frames.length, s.heapEnd + 4096 * k < need
  enough : need ≤ s'.heapEnd ∨ pmmGetFreeFrameCount s'.pmm = 0
  trace : need ≤ s'.heapEnd → s'.trace = s.trace

theorem grown_none (h : KernelSpace s g) {need : ℕ}
    (henough : need ≤ s.heapEnd ∨ pmmGetFreeFrameCount s.pmm = 0) {trace : List Event}
    (htrace : need ≤ s.heapEnd → trace = s.trace) : Grown s g need [] { s with trace } := by
  refine ⟨?_, rfl, rfl, rfl, rfl, fun _ _ => rfl, fun _ _ => rfl, rfl, by simp, henough, htrace⟩
  rw [g.extend_nil]
  exact h.same rfl rfl rfl rfl

/-- The first page, and the growth behind it. -/
theorem Grown.cons {t : Machine} {a need : ℕ} {frames : List ℕ}
    (h : Grown t (g.extend [a]) need frames s') (htop : t.heapTop = s.heapTop)
    (hhead : t.freeListHead = s.freeListHead) (hcr3 : t.cr3 = s.cr3)
    (hend : t.heapEnd = s.heapEnd + 4096)
    (hbytes : ∀ va, g.InHeap va → t.mem (g.phys va) = s.mem (g.phys va))
    (houtside : ∀ x, x < g.table0 ∨ g.table0 + 4096 ≤ x → t.mem x = s.mem x)
    (htaken : pmmGetFreeFrameCount t.pmm + 1 = pmmGetFreeFrameCount s.pmm)
    (htrace : t.trace = s.trace) (hneed : s.heapEnd < need) :
    Grown s g need (a :: frames) s' := by
  have hspace := h.space
  rw [g.extend_extend] at hspace
  have htaken' := h.taken
  have hend' := h.heapEnd
  refine ⟨hspace, h.heapTop.trans htop, h.freeListHead.trans hhead, h.cr3.trans hcr3, ?_, ?_,
    fun x hx => (h.outside x hx).trans (houtside x hx), ?_, ?_, h.enough,
    fun hroom => (h.trace hroom).trans htrace⟩
  · rw [List.length_cons]
    omega
  · intro va hva
    have hva' : (g.extend [a]).InHeap va := by
      refine ⟨hva.1, ?_⟩
      have hlt := hva.2
      change va < 4096 * (g.heapPage + (g.heap ++ [a]).length)
      rw [List.length_append]
      omega
    have hnew := h.bytes va hva'
    rw [phys_extend hva] at hnew
    exact hnew.trans (hbytes va hva)
  · rw [List.length_cons]
    omega
  · intro k hk
    cases k with
    | zero => simpa using hneed
    | succ k =>
        have hnext := h.needed k (by simpa using hk)
        omega

/-- Growth that stays inside the low 4 MiB, because the block ends there or because the frames
run out before. -/
theorem KernelSpace.mallocGrow_low (h : KernelSpace s g) (hdir : g.IsDir s.cr3)
    (hend : s.heapEnd = 4096 * (g.heapPage + g.heap.length)) {need : ℕ}
    (hneed : (s.heapTop + sizeofBlockHeader + size) % 2 ^ 32 = need)
    (hlow : need ≤ 2 ^ 22 ∨ pmmGetFreeFrameCount s.pmm ≤ 1024 - (g.heapPage + g.heap.length))
    {fuel : ℕ} (hfuel : pmmGetFreeFrameCount s.pmm < fuel) :
    ∃ frames s', mallocGrow size fuel s = .ok (decide (need ≤ s'.heapEnd)) s' ∧
      Grown s g need frames s' := by
  induction fuel generalizing s g with
  | zero => omega
  | succ fuel ih =>
      rw [mallocGrow, bind_of_ok (get_apply s), hneed]
      by_cases hmore : need > s.heapEnd
      · rw [if_pos hmore]
        by_cases hnull : (pmmAllocFrame s.pmm).1 = 0
        · rw [bind_of_ok (allocFrame_null hnull), if_pos rfl]
          have hsame : (pmmAllocFrame s.pmm).2 = s.pmm := (h.alloc_null hnull).1
          rw [hsame]
          refine ⟨[], { s with trace := .allocFailed :: s.trace }, ?_,
            grown_none h (.inr (h.alloc_null_iff.mp hnull)) fun hroom => by omega⟩
          rw [decide_eq_false (by simpa using hmore)]
          rfl
        · have hcount := pmmGetFreeFrameCount_alloc hnull
          have hpos : pmmGetFreeFrameCount s.pmm ≠ 0 := fun hzero => hnull (h.alloc_null_iff.mpr hzero)
          obtain ⟨m, hmap, hspace, hbytes, houtside⟩ :=
            h.growPage hdir (by omega) hnull s.kernelDirectory
          rw [← hend] at hmap
          rw [bind_of_ok (allocFrame_eq hnull), if_neg hnull, bind_of_ok hmap,
            bind_of_ok (modify_apply _ _)]
          have hpage : (s.heapEnd + pmmFrameSize) % 2 ^ 32 = s.heapEnd + 4096 :=
            Nat.mod_eq_of_lt (by unfold pmmFrameSize; omega)
          have hlength : (g.extend [(pmmAllocFrame s.pmm).1]).heapPage +
              (g.extend [(pmmAllocFrame s.pmm).1]).heap.length = g.heapPage + g.heap.length + 1 := by
            simp only [Layout.extend, List.length_append, List.length_singleton]
            omega
          obtain ⟨frames, t, hrun, hgrown⟩ := ih
            (s := { s with
              pmm := (pmmAllocFrame s.pmm).2, mem := m
              heapEnd := (s.heapEnd + pmmFrameSize) % 2 ^ 32 })
            (g := g.extend [(pmmAllocFrame s.pmm).1]) (hspace.same rfl rfl rfl rfl) hdir
            (by simp only; rw [hpage, hlength]; omega) hneed
            (by simp only; rw [hlength]; omega) (by simp only; omega)
          exact ⟨_, t, hrun, hgrown.cons rfl rfl rfl hpage hbytes houtside hcount rfl hmore⟩
      · rw [if_neg hmore]
        refine ⟨[], s, ?_, grown_none h (.inl (by omega)) fun _ => rfl⟩
        rw [decide_eq_true (by omega)]
        rfl

end MyOS
