import MyOS.Verification.Memory.FreeList

/-! The heap's invariant: the blocks cut off so far lie below `heap_top`, each is live or on
the free list, and the list is threaded through the headers. What `malloc` and `free` do to it. -/

namespace MyOS

open Effect X86Paging ByteMemory PageTables Ownership BlockHeap

/-- The blocks of the heap by address, the newest first: all with their size, those on the
free list in its order, and those handed out with the size asked for. -/
structure HeapView where
  blocks : List (ℕ × ℕ)
  free : List ℕ
  live : List (ℕ × ℕ)

structure HeapInvariant (s : Machine) (g : Layout) (v : HeapView) : Prop where
  end_eq : s.heapEnd = 4096 * (g.heapPage + g.heap.length)
  top_le : s.heapTop ≤ s.heapEnd
  heap : Heap (s.word g) (4096 * g.heapPage) s.heapTop s.freeListHead v.blocks v.free v.live

variable {s s' : Machine} {g : Layout} {v : HeapView}

/-! ## Blocks -/

theorem HeapInvariant.block_bounds (hh : HeapInvariant s g v) {a n : ℕ} (ha : (a, n) ∈ v.blocks) :
    g.InHeap a ∧ g.InHeap (a + 4) ∧ a % 4 = 0 ∧ 0 < a ∧ a + 8 + n ≤ s.heapTop := by
  obtain ⟨h1, h2, h3⟩ := hh.heap.bounds (a, n) ha
  have hpos := hh.heap.start_pos
  have htop := hh.top_le
  have hend := hh.end_eq
  refine ⟨⟨h1, ?_⟩, ⟨?_, ?_⟩, h3, ?_, h2⟩ <;> simp only at h1 h2 <;> omega

theorem HeapInvariant.top_le_max (hh : HeapInvariant s g v) (h : KernelSpace s g) :
    s.heapTop ≤ 2 ^ 22 ∧ s.heapEnd ≤ 2 ^ 22 := by
  have := h.valid.heap_fits
  have := hh.end_eq
  have := hh.top_le
  exact ⟨by omega, by omega⟩

/-- A live area lies in the heap and apart from every header. -/
theorem HeapInvariant.live_bounds (hh : HeapInvariant s g v) {a n i : ℕ} (ha : (a, n) ∈ v.live)
    (hi : i < n) :
    g.InHeap (a + 8 + i) ∧ ∀ b ∈ v.blocks, a + 8 + i < b.1 ∨ b.1 + 8 ≤ a + 8 + i := by
  obtain ⟨m, hm, hnm⟩ := hh.heap.live_block ha
  obtain ⟨h1, -, -, -, h2⟩ := hh.block_bounds hm
  have htop := hh.top_le
  have hend := hh.end_eq
  have hlow := h1.1
  refine ⟨⟨by omega, by omega⟩, ?_⟩
  intro b hb
  rcases hh.heap.separate hb hm with rfl | hsep | hsep
  · exact .inr (by omega)
  · exact .inr (by omega)
  · exact .inl (by omega)

theorem HeapInvariant.freeList (hh : HeapInvariant s g v) : FreeList s g v.free := by
  refine ⟨?_, ?_, hh.heap.linked⟩
  · intro a ha
    obtain ⟨n, hn⟩ := hh.heap.free_block ha
    obtain ⟨h1, h2, h3, -, -⟩ := hh.block_bounds hn
    exact ⟨h1, h2, h3⟩
  · have hnodup := (List.nodup_append.mp hh.heap.nodup).2.1
    refine List.Pairwise.imp_of_mem ?_ hnodup
    intro a b ha hb hne
    obtain ⟨n, hn⟩ := hh.heap.free_block ha
    obtain ⟨m, hm⟩ := hh.heap.free_block hb
    rcases hh.heap.separate hn hm with heq | hsep | hsep
    · exact absurd (congrArg Prod.fst heq) hne
    · simp only at hsep
      omega
    · simp only at hsep
      omega

/-- The invariant looks at three variables and the header words only. -/
theorem HeapInvariant.of_words (hh : HeapInvariant s g v) (htop : s'.heapTop = s.heapTop)
    (hend : s'.heapEnd = s.heapEnd) (hhead : s'.freeListHead = s.freeListHead)
    (hword : ∀ b ∈ v.blocks, s'.word g b.1 = s.word g b.1 ∧
      s'.word g (b.1 + 4) = s.word g (b.1 + 4)) : HeapInvariant s' g v := by
  refine ⟨hend.trans hh.end_eq, ?_, ?_⟩
  · rw [htop, hend]
    exact hh.top_le
  · rw [htop, hhead]
    exact hh.heap.congr hword

/-- Writing into a live area. -/
theorem HeapInvariant.write (hh : HeapInvariant s g v) (h : KernelSpace s g)
    (hdir : g.IsDir s.cr3) {a n i : ℕ} (ha : (a, n) ∈ v.live) (hi : i < n) (b : UInt8) :
    store8 (a + 8 + i) b s =
        .ok () { s with mem := s.mem.set8 (g.phys (a + 8 + i)) b } ∧
      KernelSpace { s with mem := s.mem.set8 (g.phys (a + 8 + i)) b } g ∧
      HeapInvariant { s with mem := s.mem.set8 (g.phys (a + 8 + i)) b } g v := by
  obtain ⟨hin, hout⟩ := hh.live_bounds ha hi
  obtain ⟨hstore, hspace, hwords⟩ := h.store8_heap hdir hin b
  refine ⟨hstore, hspace, hh.of_words rfl rfl rfl ?_⟩
  intro x hx
  obtain ⟨h1, h2, h3, -, -⟩ := hh.block_bounds hx
  have := hout x hx
  exact ⟨hwords _ h1 h3 (by omega), hwords _ h2 (by omega) (by omega)⟩

/-! ## `free` -/

/-- The view after block `a` is freed. -/
def HeapView.release (v : HeapView) (a n : ℕ) : HeapView :=
  { v with free := a :: v.free, live := v.live.erase (a, n) }

theorem HeapInvariant.free_spec (hh : HeapInvariant s g v) (h : KernelSpace s g)
    (hdir : g.IsDir s.cr3) {a n : ℕ} (ha : (a, n) ∈ v.live) :
    ∃ m, free (a + 8) s = .ok () { s with mem := m, freeListHead := a } ∧
      m = s.mem.set32 (g.phys (a + 4)) s.freeListHead ∧
      KernelSpace { s with mem := m, freeListHead := a } g ∧
      HeapInvariant { s with mem := m, freeListHead := a } g (v.release a n) := by
  obtain ⟨k, hk, -⟩ := hh.heap.live_block ha
  obtain ⟨h1, h2, h3, hpos, h4⟩ := hh.block_bounds hk
  obtain ⟨hstore, hspace, hsame, hrest⟩ := h.store32_heap hdir h2 (by omega) s.freeListHead
  have hhead := hh.freeList.head_lt h
  refine ⟨_, ?_, rfl, ?_, hh.end_eq, hh.top_le, ?_⟩
  · have hsub : a + 8 - sizeofBlockHeader = a := by
      unfold sizeofBlockHeader
      omega
    unfold free
    rw [if_neg (by omega), bind_of_ok (get_apply s)]
    simp only [hsub]
    rw [bind_of_ok hstore]
    rfl
  · exact hspace.same rfl rfl rfl rfl
  · refine hh.heap.release (a := a) ha ?_ ?_
    · change (s.mem.set32 (g.phys (a + 4)) s.freeListHead).get32 (g.phys (a + 4)) = _
      rw [hsame, Nat.mod_eq_of_lt hhead]
    · intro x hx
      obtain ⟨hx1, hx2, hx3, -, -⟩ := hh.block_bounds hx
      refine ⟨hrest _ hx1 hx3 ?_, fun hne => hrest _ hx2 (by omega) (by omega)⟩
      rcases hh.heap.separate hx hk with rfl | hsep | hsep
      · exact by simp
      · simp only at hsep
        omega
      · simp only at hsep
        omega

/-! ## The free-list walk of `malloc` -/

/-- The view after free block `a` was handed out for a request of `n` bytes. -/
def HeapView.reuse (v : HeapView) (free : List ℕ) (a n : ℕ) : HeapView :=
  { v with free := free, live := (a, n) :: v.live }

/-- Bytes that lie neither in the low table nor in a header of the heap are as before. -/
def HeadersOnly (g : Layout) (v : HeapView) (m m' : ByteMemory) : Prop :=
  ∀ x, x < g.table0 ∨ g.table0 + 4096 ≤ x → (∀ b ∈ v.blocks, ∀ i < 8, x ≠ g.phys (b.1 + i)) →
    m' x = m x

/-- A word of a header. -/
theorem set32_of_header {b : ℕ × ℕ} {m : ByteMemory} {o x : ℕ} (hb : b ∈ v.blocks)
    (haligned : (b.1 + o) % 4 = 0) (ho : o + 4 ≤ 8)
    (hx : ∀ b ∈ v.blocks, ∀ i < 8, x ≠ g.phys (b.1 + i)) (n : ℕ) :
    m.set32 (g.phys (b.1 + o)) n x = m x := by
  refine set32_of_outside m n ?_
  by_contra hin
  refine hx b hb (o + (x - g.phys (b.1 + o))) (by omega) ?_
  rw [← Nat.add_assoc, phys_add g (by omega)]
  omega

/-- Taking a block out of the list where the walk stands. -/
theorem HeapInvariant.link_write (hh : HeapInvariant s g v) (h : KernelSpace s g)
    (hdir : g.IsDir s.cr3) {link : Link} {pre post : List ℕ} {a size : ℕ} (hlink : link.After pre)
    (hfree : v.free = pre ++ a :: post) (hsize : size ≤ s.word g a) :
    ∃ m head, link.write (s.word g (a + 4)) s =
        .ok () { s with mem := m, freeListHead := head } ∧
      KernelSpace { s with mem := m, freeListHead := head } g ∧
      HeapInvariant { s with mem := m, freeListHead := head } g (v.reuse (pre ++ post) a size) ∧
      HeadersOnly g v s.mem m := by
  have hheap := hh.heap
  rw [hfree] at hheap
  cases hlink with
  | head =>
      refine ⟨s.mem, s.word g (a + 4), rfl, ?_, ⟨hh.end_eq, hh.top_le, hheap.take_head hsize⟩,
        fun _ _ _ => rfl⟩
      exact h.same rfl rfl rfl rfl
  | next pre b =>
      rw [List.append_assoc, List.singleton_append] at hheap
      obtain ⟨n, hn⟩ := hheap.free_block (a := b) (by simp)
      obtain ⟨-, h2, h3, -, -⟩ := hh.block_bounds hn
      obtain ⟨hstore, hspace, hsame, hrest⟩ :=
        h.store32_heap hdir h2 (by omega) (s.word g (a + 4))
      refine ⟨_, s.freeListHead, hstore, hspace, ⟨hh.end_eq, hh.top_le, ?_⟩,
        fun x _ hx => set32_of_header hn (by omega) (by omega) hx _⟩
      change Heap _ _ _ _ v.blocks ((pre ++ [b]) ++ post) _
      rw [List.append_assoc, List.singleton_append]
      refine hheap.take_next hsize ?_ ?_
      · change (s.mem.set32 (g.phys (b + 4)) _).get32 (g.phys (b + 4)) = _
        rw [hsame]
        exact Nat.mod_eq_of_lt (get32_lt _ _)
      · intro x hx
        obtain ⟨hx1, hx2, hx3, -, -⟩ := hh.block_bounds hx
        refine ⟨hrest _ hx1 hx3 ?_, fun hne => hrest _ hx2 (by omega) (by omega)⟩
        rcases hh.heap.separate hx hn with rfl | hsep | hsep
        · exact by simp
        · simp only at hsep
          omega
        · simp only at hsep
          omega

/-- The walk ends: it finds no block that is large enough and changes nothing, or it takes one
out of the list. -/
theorem HeapInvariant.mallocWalk_spec (hh : HeapInvariant s g v) (h : KernelSpace s g)
    (hdir : g.IsDir s.cr3) (size : ℕ) :
    mallocWalk size (2 ^ 32) .head s = .ok none s ∧ (∀ b ∈ v.free, s.word g b < size) ∨
      ∃ a m head free, (a ∈ v.free ∧ size ≤ s.word g a) ∧ mallocWalk size (2 ^ 32) .head s =
          .ok (some (a + 8)) { s with mem := m, freeListHead := head } ∧
        KernelSpace { s with mem := m, freeListHead := head } g ∧
        HeapInvariant { s with mem := m, freeListHead := head } g (v.reuse free a size) ∧
        HeadersOnly g v s.mem m := by
  by_cases hfits : ∃ a ∈ v.free, size ≤ s.word g a
  · right
    obtain ⟨pre, a, post, hfree, hsmall, hsize⟩ := exists_first_fit hfits
    obtain ⟨link, hlink, hwalk⟩ := hh.freeList.walk_some h hdir hfree hsmall hsize
    obtain ⟨m, head, hwrite, hspace, hinv, hmem⟩ := hh.link_write h hdir hlink hfree hsize
    exact ⟨a, m, head, pre ++ post, ⟨by rw [hfree]; simp, hsize⟩, hwalk _ hwrite, hspace, hinv,
      hmem⟩
  · left
    have hsmall : ∀ b ∈ v.free, s.word g b < size := by
      intro b hb
      by_contra hsize
      exact hfits ⟨b, hb, by omega⟩
    exact ⟨hh.freeList.walk_none h hdir hsmall, hsmall⟩

/-- The view after a new block was cut off the top. -/
def HeapView.carve (v : HeapView) (a n : ℕ) : HeapView :=
  { v with blocks := (a, n) :: v.blocks, live := (a, n) :: v.live }

/-! ## Growth -/

/-- The layout with more frames behind the heap's pages. -/
def Layout.extend (g : Layout) (frames : List ℕ) : Layout := { g with heap := g.heap ++ frames }

theorem Layout.extend_nil (g : Layout) : g.extend [] = g := by
  unfold Layout.extend
  rw [List.append_nil]

theorem Layout.extend_extend (g : Layout) (xs ys : List ℕ) :
    (g.extend xs).extend ys = g.extend (xs ++ ys) := by
  unfold Layout.extend
  rw [List.append_assoc]

/-- The heap's bytes stay where they are. -/
theorem phys_extend {frames : List ℕ} {va : ℕ} (hva : g.InHeap va) :
    (g.extend frames).phys va = g.phys va := by
  have hlow := hva.1
  have hhigh := hva.2
  have hsame : (g.extend frames).lowFrame (va / 4096) = g.lowFrame (va / 4096) := by
    change (if g.heapPage ≤ va / 4096 then
      ((g.heap ++ frames)[va / 4096 - g.heapPage]?).getD (g.fixedFrame (va / 4096)) else _) =
        if g.heapPage ≤ va / 4096 then _ else _
    rw [if_pos (by omega), if_pos (by omega), List.getElem?_append_left (by omega)]
  unfold Layout.phys
  rw [hsame]

/-- An entry of the low table is written through any of the kernel's directories. -/
theorem KernelSpace.map_low (h : KernelSpace s g) (hdir : g.IsDir s.cr3) {j a : ℕ} (hj : j < 1024)
    (ha : a % 4096 = 0) (dir : ℕ) :
    pagingMapPage dir (4096 * j) a (pagingFlagPresent ||| pagingFlagRw) s =
      .ok () { s with mem := s.mem.set32 (g.table0 + 4 * j) (a + 3) } := by
  have hactive := h.active hdir
  have hd : 4096 * j / 2 ^ 22 = 0 := by omega
  have ht : 4096 * j / 4096 % 1024 = j := by omega
  have hor : a ||| (pagingFlagPresent ||| pagingFlagRw) = a + 3 := or_eq_add ha (by decide)
  have htable : frameOf (g.table0 + 3) = g.table0 := frameOf_add h.valid.table0_aligned (by omega)
  have hpresent : present (g.table0 + 3) := by
    have := h.valid.table0_aligned
    unfold present
    omega
  have hmap := pagingMapPage_present h.paging hactive.selfMapped (show 4096 * j < 2 ^ 32 by omega)
    dir a (pagingFlagPresent ||| pagingFlagRw)
  simp only [hd, ht, hor, hactive.low, htable] at hmap
  exact hmap hpresent

/-- The low table holds no byte of the heap. -/
theorem KernelSpace.heap_set_low (h : KernelSpace s g) {j : ℕ} (hj : j < 1024) (v : ℕ) {va : ℕ}
    (hva : g.InHeap va) : s.mem.set32 (g.table0 + 4 * j) v (g.phys va) = s.mem (g.phys va) := by
  obtain ⟨f, hf, hfa, hpf⟩ := h.phys_heap hva
  have hout := h.outside hf (fun r => by cases r <;> simp [Layout.roleOwner])
    (show g.plan.frame .low = some g.table0 from rfl)
  refine set32_of_outside s.mem _ ?_
  rw [hpf]
  omega

/-- A page is put behind the heap. -/
theorem KernelSpace.growPage (h : KernelSpace s g) (hdir : g.IsDir s.cr3)
    (hfits : g.heapPage + g.heap.length < 1024) (hne : (pmmAllocFrame s.pmm).1 ≠ 0) (dir : ℕ) :
    ∃ m, pagingMapPage dir (4096 * (g.heapPage + g.heap.length)) (pmmAllocFrame s.pmm).1
          (pagingFlagPresent ||| pagingFlagRw) { s with pmm := (pmmAllocFrame s.pmm).2 } =
        .ok () { s with pmm := (pmmAllocFrame s.pmm).2, mem := m } ∧
      KernelSpace { s with pmm := (pmmAllocFrame s.pmm).2, mem := m }
        (g.extend [(pmmAllocFrame s.pmm).1]) ∧
      (∀ va, g.InHeap va → m (g.phys va) = s.mem (g.phys va)) ∧
      ∀ x, x < g.table0 ∨ g.table0 + 4096 ≤ x → m x = s.mem x := by
  obtain ⟨haligned, -, -, -⟩ := usedFrame_pmmAllocFrame hne
  have htaken := h.alloc hne s.trace
  have hgrown := htaken.growHeap (a := (pmmAllocFrame s.pmm).1) (.inl rfl) hfits
  have hout : ∀ x, x < g.table0 ∨ g.table0 + 4096 ≤ x →
      s.mem.set32 (g.table0 + 4 * (g.heapPage + g.heap.length)) ((pmmAllocFrame s.pmm).1 + 3) x =
        s.mem x := fun x hx => set32_of_outside s.mem _ (by omega)
  refine ⟨_, htaken.map_low hdir hfits haligned dir, ?_, fun va hva => h.heap_set_low hfits _ hva,
    hout⟩
  have hlayout : (g.take (pmmAllocFrame s.pmm).1).growHeap (pmmAllocFrame s.pmm).1 =
      g.extend [(pmmAllocFrame s.pmm).1] := by
    change { (g.take (pmmAllocFrame s.pmm).1).drop (pmmAllocFrame s.pmm).1 with
      heap := g.heap ++ [(pmmAllocFrame s.pmm).1] } = _
    rw [drop_take (h.not_loose hne)]
    rfl
  rw [← hlayout]
  exact hgrown

/-- A page is put behind the windows of the file system. -/
theorem KernelSpace.growWindowPage (h : KernelSpace s g) (hdir : g.IsDir s.cr3)
    (hheap : g.heapPage + g.heap.length ≤ windowPage)
    (hfits : windowPage + g.windows.length < 1024) (hne : (pmmAllocFrame s.pmm).1 ≠ 0) (dir : ℕ) :
    ∃ m, pagingMapPage dir (4096 * (windowPage + g.windows.length)) (pmmAllocFrame s.pmm).1
          (pagingFlagPresent ||| pagingFlagRw) { s with pmm := (pmmAllocFrame s.pmm).2 } =
        .ok () { s with pmm := (pmmAllocFrame s.pmm).2, mem := m } ∧
      KernelSpace { s with pmm := (pmmAllocFrame s.pmm).2, mem := m }
        { g with windows := g.windows ++ [(pmmAllocFrame s.pmm).1] } ∧
      (∀ va, g.InHeap va → m (g.phys va) = s.mem (g.phys va)) ∧
      ∀ x, x < g.table0 ∨ g.table0 + 4096 ≤ x → m x = s.mem x := by
  obtain ⟨haligned, -, -, -⟩ := usedFrame_pmmAllocFrame hne
  have htaken := h.alloc hne s.trace
  have hgrown := htaken.growWindow (a := (pmmAllocFrame s.pmm).1) (.inl rfl) hheap hfits
  have hout : ∀ x, x < g.table0 ∨ g.table0 + 4096 ≤ x →
      s.mem.set32 (g.table0 + 4 * (windowPage + g.windows.length)) ((pmmAllocFrame s.pmm).1 + 3) x =
        s.mem x := fun x hx => set32_of_outside s.mem _ (by omega)
  refine ⟨_, htaken.map_low hdir hfits haligned dir, ?_, fun va hva => h.heap_set_low hfits _ hva,
    hout⟩
  have hlayout : (g.take (pmmAllocFrame s.pmm).1).growWindow (pmmAllocFrame s.pmm).1 =
      { g with windows := g.windows ++ [(pmmAllocFrame s.pmm).1] } := by
    change { (g.take (pmmAllocFrame s.pmm).1).drop (pmmAllocFrame s.pmm).1 with
      windows := g.windows ++ [(pmmAllocFrame s.pmm).1] } = _
    rw [drop_take (h.not_loose hne)]
  rw [← hlayout]
  exact hgrown

/-- The heap's invariant after pages were added. -/
theorem HeapInvariant.extend (hh : HeapInvariant s g v) {frames : List ℕ}
    (htop : s'.heapTop = s.heapTop) (hhead : s'.freeListHead = s.freeListHead)
    (hend : s'.heapEnd = s.heapEnd + 4096 * frames.length)
    (hmem : ∀ va, g.InHeap va → s'.mem (g.phys va) = s.mem (g.phys va)) :
    HeapInvariant s' (g.extend frames) v := by
  have hwords : ∀ x, g.InHeap x → x % 4 = 0 → s'.word (g.extend frames) x = s.word g x := by
    intro x hx hxa
    unfold Machine.word
    rw [phys_extend hx]
    refine get32_congr ?_
    intro i hi
    rw [← phys_add g (by omega)]
    have := hx.1
    have := hx.2
    exact hmem _ ⟨by omega, by omega⟩
  have hend' := hh.end_eq
  have hle := hh.top_le
  refine ⟨?_, by omega, ?_⟩
  · change s'.heapEnd = 4096 * (g.heapPage + (g.heap ++ frames).length)
    rw [List.length_append]
    omega
  · rw [htop, hhead]
    refine hh.heap.congr ?_
    intro b hb
    obtain ⟨h1, h2, h3, -, -⟩ := hh.block_bounds hb
    exact ⟨hwords _ h1 h3, hwords _ h2 (by omega)⟩

section Malloc

/-! `J` is a further property of the frames in use that growth keeps, and `Q` what is known of
the trace and the end of the heap when a call has returned. That the heap does not grow past
the low 4 MiB follows from them. -/

variable {J : Pmm → Layout → Prop} {Q : List Event → ℕ → Prop} {size : ℕ}

/-- No call that went on past the low 4 MiB returns. -/
def StaysLow (J : Pmm → Layout → Prop) (Q : List Event → ℕ → Prop) (size : ℕ) : Prop :=
  ∀ t g u fuel grown s', KernelSpace t g → J t.pmm g → t.cr3 = g.root →
    g.heapPage + g.heap.length = 1024 → (pmmAllocFrame t.pmm).1 ≠ 0 → t.heapEnd = 2 ^ 22 →
    pagingMapPage t.kernelDirectory t.heapEnd (pmmAllocFrame t.pmm).1
      (pagingFlagPresent ||| pagingFlagRw) { t with pmm := (pmmAllocFrame t.pmm).2 } = .ok () u →
    mallocGrow size fuel { u with heapEnd := (u.heapEnd + pmmFrameSize) % 2 ^ 32 } =
      .ok grown s' → ¬Q s'.trace s'.heapEnd

variable (hlow : StaysLow J Q size)
  (hJ : ∀ p g, J p g → (pmmAllocFrame p).1 ≠ 0 →
    J (pmmAllocFrame p).2 (g.extend [(pmmAllocFrame p).1]))

include hlow hJ

theorem HeapInvariant.mallocGrow_spec (hh : HeapInvariant s g v) (h : KernelSpace s g)
    (hroot : s.cr3 = g.root) (hj : J s.pmm g) (hsize : size ≤ 2 ^ 24) {fuel : ℕ} {grown : Bool}
    (hQ : Q s'.trace s'.heapEnd) (hrun : mallocGrow size fuel s = .ok grown s') :
    ∃ frames, KernelSpace s' (g.extend frames) ∧ HeapInvariant s' (g.extend frames) v ∧
      J s'.pmm (g.extend frames) ∧ s'.heapTop = s.heapTop ∧ s'.cr3 = s.cr3 ∧
      (if grown then s.heapTop + 8 + size ≤ s'.heapEnd else (pmmAllocFrame s'.pmm).1 = 0) ∧
      ∀ k < frames.length, 4096 * (g.heapPage + g.heap.length + k) < s.heapTop + 8 + size := by
  induction fuel generalizing s g with
  | zero => cases hrun
  | succ fuel ih =>
      obtain ⟨htop, hend⟩ := hh.top_le_max h
      have hmod : (s.heapTop + sizeofBlockHeader + size) % 2 ^ 32 = s.heapTop + 8 + size :=
        Nat.mod_eq_of_lt (by unfold sizeofBlockHeader; omega)
      rw [mallocGrow, bind_of_ok (get_apply s), hmod] at hrun
      by_cases hmore : s.heapTop + 8 + size > s.heapEnd
      · rw [if_pos hmore] at hrun
        by_cases hnull : (pmmAllocFrame s.pmm).1 = 0
        · rw [bind_of_ok (allocFrame_null hnull), if_pos rfl] at hrun
          cases hrun
          have hsame : (pmmAllocFrame s.pmm).2 = s.pmm := (h.alloc_null hnull).1
          refine ⟨[], ?_⟩
          rw [g.extend_nil, hsame]
          exact ⟨h.same rfl rfl rfl rfl, ⟨hh.end_eq, hh.top_le, hh.heap⟩, hj, rfl, rfl, hnull,
            by simp⟩
        · rw [bind_of_ok (allocFrame_eq hnull), if_neg hnull] at hrun
          have hfits := h.valid.heap_fits
          have hendEq := hh.end_eq
          by_cases hfull : g.heapPage + g.heap.length = 1024
          · obtain ⟨_, u, hmap, hrun⟩ := bind_eq_ok.mp hrun
            rw [bind_of_ok (modify_apply _ u)] at hrun
            exact absurd hQ (hlow s g u fuel _ _ h hj hroot hfull hnull (by omega) hmap hrun)
          · obtain ⟨m, hmap, hspace, hbytes, -⟩ :=
              h.growPage (.inl hroot) (by omega) hnull s.kernelDirectory
            rw [← hendEq] at hmap
            rw [bind_of_ok hmap, bind_of_ok (modify_apply _ _)] at hrun
            have hgrow : HeapInvariant
                { s with
                  pmm := (pmmAllocFrame s.pmm).2, mem := m
                  heapEnd := (s.heapEnd + pmmFrameSize) % 2 ^ 32 }
                (g.extend [(pmmAllocFrame s.pmm).1]) v :=
              hh.extend rfl rfl (Nat.mod_eq_of_lt (by unfold pmmFrameSize; omega)) hbytes
            obtain ⟨frames, h1, h2, h3, h4, h5, h6, h7⟩ :=
              ih hgrow (hspace.same rfl rfl rfl rfl) hroot (hJ _ _ hj hnull) hrun
            rw [g.extend_extend] at h1 h2 h3
            refine ⟨_, h1, h2, h3, h4, h5, h6, ?_⟩
            intro k hk
            -- the first page is the one added here
            cases k with
            | zero => omega
            | succ k =>
                have hnext := h7 k (by simpa using hk)
                have hlen : (g.extend [(pmmAllocFrame s.pmm).1]).heap.length = g.heap.length + 1 := by
                  simp [Layout.extend]
                have hpage : (g.extend [(pmmAllocFrame s.pmm).1]).heapPage = g.heapPage := rfl
                rw [hlen, hpage] at hnext
                simp only at hnext
                omega
      · rw [if_neg hmore] at hrun
        cases hrun
        refine ⟨[], ?_⟩
        rw [g.extend_nil]
        refine ⟨h, hh, hj, rfl, rfl, ?_, by simp⟩
        rw [if_pos rfl]
        omega

omit hlow hJ in
/-- A block is cut off the top. -/
theorem HeapInvariant.mallocCarve_spec (hh : HeapInvariant s g v) (h : KernelSpace s g)
    (hdir : g.IsDir s.cr3) (haligned : s.heapTop % 4 = 0)
    (hroom : s.heapTop + 8 + size ≤ s.heapEnd) :
    ∃ m, mallocCarve size s =
        .ok (s.heapTop + 8) { s with mem := m, heapTop := s.heapTop + 8 + size } ∧
      KernelSpace { s with mem := m, heapTop := s.heapTop + 8 + size } g ∧
      HeapInvariant { s with mem := m, heapTop := s.heapTop + 8 + size } g
        (v.carve s.heapTop size) ∧ HeapOnly g s.mem m ∧
      m = (s.mem.set32 (g.phys s.heapTop) size).set32 (g.phys (s.heapTop + 4)) 0 := by
  obtain ⟨-, hmax⟩ := hh.top_le_max h
  have hstart := hh.heap.start_le
  have hend := hh.end_eq
  have hin : g.InHeap s.heapTop := ⟨by omega, by omega⟩
  have hin' : g.InHeap (s.heapTop + 4) := ⟨by omega, by omega⟩
  obtain ⟨hstore, hspace, hsame, hrest⟩ := KernelSpace.store32_heap
    (s := { s with heapTop := s.heapTop + 8 + size }) (h.same rfl rfl rfl rfl) hdir hin haligned size
  obtain ⟨hstore', hspace', -, hrest'⟩ := hspace.store32_heap hdir hin' (by omega) 0
  refine ⟨_, ?_, hspace', ⟨hend, hroom, ?_⟩,
    (heapOnly_set32 hin haligned _ _).trans (heapOnly_set32 hin' (by omega) _ _), rfl⟩
  · have hmod : (s.heapTop + sizeofBlockHeader + size) % 2 ^ 32 = s.heapTop + 8 + size :=
      Nat.mod_eq_of_lt (by unfold sizeofBlockHeader; omega)
    have hmod' : (s.heapTop + sizeofBlockHeader) % 2 ^ 32 = s.heapTop + 8 :=
      Nat.mod_eq_of_lt (by unfold sizeofBlockHeader; omega)
    unfold mallocCarve
    rw [bind_of_ok (get_apply s)]
    simp only [hmod, hmod']
    rw [bind_of_ok (modify_apply _ s), bind_of_ok hstore, bind_of_ok hstore']
    rfl
  · refine hh.heap.carve (Nat.le_refl _) haligned ?_ ?_
    · exact (hrest' _ hin haligned (by omega)).trans (hsame.trans (Nat.mod_eq_of_lt (by omega)))
    · intro x hx
      obtain ⟨hx1, hx2, hx3, -, hx4⟩ := hh.block_bounds hx
      refine ⟨(hrest' _ hx1 hx3 ?_).trans (hrest _ hx1 hx3 ?_),
        (hrest' _ hx2 ?_ ?_).trans (hrest _ hx2 ?_ ?_)⟩ <;> omega

omit hlow hJ in
theorem heapEnd_mallocCarve {p : ℕ} (hrun : mallocCarve size s = .ok p s') :
    s'.trace = s.trace ∧ s'.heapEnd = s.heapEnd ∧ s'.cr3 = s.cr3 := by
  unfold mallocCarve at hrun
  rw [bind_of_ok (get_apply s), bind_of_ok (modify_apply _ s)] at hrun
  obtain ⟨_, t, hstore, hrun⟩ := bind_eq_ok.mp hrun
  obtain ⟨_, u, hstore', hrun⟩ := bind_eq_ok.mp hrun
  cases hrun
  obtain ⟨_, -, rfl⟩ := store32_ok hstore
  obtain ⟨_, -, rfl⟩ := store32_ok hstore'
  exact ⟨rfl, rfl, rfl⟩

omit hlow hJ in
theorem alignTop_eq (hh : HeapInvariant s g v) (h : KernelSpace s g) :
    (if s.heapTop % 4 ≠ 0 then { s with heapTop := (s.heapTop + 3) % 2 ^ 32 / 4 * 4 } else s) =
      { s with heapTop := (s.heapTop + 3) / 4 * 4 } := by
  obtain ⟨hmax, -⟩ := hh.top_le_max h
  by_cases ha : s.heapTop % 4 ≠ 0
  · rw [if_pos ha, Nat.mod_eq_of_lt (by omega)]
  · have heq : (s.heapTop + 3) / 4 * 4 = s.heapTop := by omega
    rw [if_neg ha, heq]

omit hlow hJ in
theorem HeapInvariant.alignTop (hh : HeapInvariant s g v) :
    HeapInvariant { s with heapTop := (s.heapTop + 3) / 4 * 4 } g v := by
  have hend := hh.end_eq
  have htop := hh.top_le
  refine ⟨hend, ?_, hh.heap.raise (by simp only; omega)⟩
  simp only
  omega

/-- What one call does to the blocks. -/
inductive HeapView.Mallocs (v : HeapView) (size top : ℕ) : ℕ → HeapView → Prop where
  | null : v.Mallocs size top 0 v
  | reused {a : ℕ} {free : List ℕ} : a + 8 ≤ top → v.Mallocs size top (a + 8) (v.reuse free a size)
  | carved {a : ℕ} : top ≤ a → v.Mallocs size top (a + 8) (v.carve a size)

/-- How far one call makes the heap grow: not at all when a free block is large enough, and no
further than the block it cuts off. -/
structure Growth (s : Machine) (g : Layout) (v : HeapView) (size : ℕ) (frames : List ℕ)
    (s' : Machine) : Prop where
  needed : ∀ k < frames.length,
    4096 * (g.heapPage + g.heap.length + k) < (s.heapTop + 3) / 4 * 4 + 8 + size
  searched : frames ≠ [] → size ≠ 0 ∧ ∀ b ∈ v.free, s.word g b < size
  enough : size ≠ 0 → (∀ b ∈ v.free, s.word g b < size) →
    (s.heapTop + 3) / 4 * 4 + 8 + size ≤ s'.heapEnd ∨ (pmmAllocFrame s'.pmm).1 = 0

theorem HeapInvariant.malloc_spec (hh : HeapInvariant s g v) (h : KernelSpace s g)
    (hroot : s.cr3 = g.root) (hj : J s.pmm g) (hsize : size ≤ 2 ^ 24) {p : ℕ}
    (hQ : Q s'.trace s'.heapEnd) (hrun : malloc size s = .ok p s') :
    ∃ frames v', KernelSpace s' (g.extend frames) ∧ HeapInvariant s' (g.extend frames) v' ∧
      J s'.pmm (g.extend frames) ∧ s'.cr3 = s.cr3 ∧ v.Mallocs size s.heapTop p v' ∧
      Growth s g v size frames s' := by
  unfold malloc at hrun
  by_cases hzero : size = 0
  · rw [if_pos hzero] at hrun
    cases hrun
    refine ⟨[], v, ?_⟩
    rw [g.extend_nil]
    exact ⟨h, hh, hj, rfl, .null, by simp, by simp, fun hne => absurd hzero hne⟩
  · rw [if_neg hzero] at hrun
    rcases hh.mallocWalk_spec h (.inl hroot) size with
      ⟨hnone, hsmall⟩ | ⟨a, m, head, free, hfits, hsome, hspace, hinv, -⟩
    · rw [bind_of_ok hnone] at hrun
      simp only at hrun
      rw [bind_of_ok (modify_apply _ s), alignTop_eq hh h, bind_of_ok (get_apply _)] at hrun
      obtain ⟨grown, t, hgrow, hrun⟩ := bind_eq_ok.mp hrun
      have hkept : Q t.trace t.heapEnd ∧ s'.cr3 = t.cr3 := by
        cases grown with
        | false => cases hrun; exact ⟨hQ, rfl⟩
        | true =>
            have hfields := heapEnd_mallocCarve hrun
            rw [hfields.1, hfields.2.1] at hQ
            exact ⟨hQ, hfields.2.2⟩
      obtain ⟨frames, h1, h2, h3, h4, h5, h6, h7⟩ := hh.alignTop.mallocGrow_spec hlow hJ
        (h.same rfl rfl rfl rfl) hroot hj hsize hkept.1 hgrow
      have htop : s.heapTop ≤ (s.heapTop + 3) / 4 * 4 := by omega
      cases grown with
      | false =>
          cases hrun
          exact ⟨frames, v, h1, h2, h3, h5, .null, h7, fun _ => ⟨hzero, hsmall⟩,
            fun _ _ => .inr h6⟩
      | true =>
          have h4' : t.heapTop = (s.heapTop + 3) / 4 * 4 := h4
          have hroom : t.heapTop + 8 + size ≤ t.heapEnd := by
            rw [h4]
            exact h6
          obtain ⟨m, hcarve, hspace, hinv, -⟩ := h2.mallocCarve_spec h1
            (.inl (h5.trans hroot)) (by rw [h4']; omega) hroom
          rw [if_pos rfl, hcarve] at hrun
          cases hrun
          exact ⟨frames, _, hspace, hinv, h3, h5, .carved (by rw [h4']; omega), h7,
            fun _ => ⟨hzero, hsmall⟩, fun _ _ => .inl h6⟩
    · rw [bind_of_ok hsome] at hrun
      cases hrun
      refine ⟨[], v.reuse free a size, ?_⟩
      rw [g.extend_nil]
      obtain ⟨n, hn, -⟩ := hinv.heap.live_block (a := a) (n := size) List.mem_cons_self
      have hbound := (hinv.block_bounds hn).2.2.2.2
      have htop : a + 8 + n ≤ s.heapTop := hbound
      refine ⟨hspace, hinv, hj, rfl, .reused (by omega), by simp, by simp, ?_⟩
      intro _ hsmall
      have := hsmall a hfits.1
      omega

omit hlow hJ in
/-- A request that fits into the last page, with no block on the free list. -/
theorem HeapInvariant.malloc_fresh (hh : HeapInvariant s g v) (h : KernelSpace s g)
    (hdir : g.IsDir s.cr3) (hfree : v.free = []) (hpos : size ≠ 0) (haligned : s.heapTop % 4 = 0)
    (hroom : s.heapTop + 8 + size ≤ s.heapEnd) :
    ∃ m, malloc size s =
        .ok (s.heapTop + 8) { s with mem := m, heapTop := s.heapTop + 8 + size } ∧
      KernelSpace { s with mem := m, heapTop := s.heapTop + 8 + size } g ∧
      HeapInvariant { s with mem := m, heapTop := s.heapTop + 8 + size } g
        (v.carve s.heapTop size) ∧ HeapOnly g s.mem m ∧
      m = (s.mem.set32 (g.phys s.heapTop) size).set32 (g.phys (s.heapTop + 4)) 0 := by
  obtain ⟨m, hcarve, hspace, hinv, honly, hmem⟩ := hh.mallocCarve_spec h hdir haligned hroom
  have hmax := (hh.top_le_max h).2
  have hmod : (s.heapTop + sizeofBlockHeader + size) % 2 ^ 32 = s.heapTop + 8 + size :=
    Nat.mod_eq_of_lt (by unfold sizeofBlockHeader; omega)
  have htop : (s.heapTop + 3) / 4 * 4 = s.heapTop := by omega
  have hwalk : mallocWalk size (2 ^ 32) .head s = .ok none s := by
    rcases hh.mallocWalk_spec h hdir size with
      ⟨hnone, -⟩ | ⟨a, m, head, free, ⟨ha, -⟩, -⟩
    · exact hnone
    · have hin : a ∈ v.free := ha
      rw [hfree] at hin
      cases hin
  have hgrow : mallocGrow size (s.pmm.pmmBitmapSize * 8 + 1) s = .ok true s := by
    rw [mallocGrow, bind_of_ok (get_apply s), hmod, if_neg (by omega)]
    rfl
  refine ⟨m, ?_, hspace, hinv, honly, hmem⟩
  unfold malloc
  rw [if_neg hpos, bind_of_ok hwalk]
  simp only
  rw [bind_of_ok (modify_apply _ s), alignTop_eq hh h, htop, bind_of_ok (get_apply _),
    bind_of_ok hgrow, if_pos rfl, hcarve]

omit hlow hJ in
/-- Growth inside the low 4 MiB comes to an end. -/
theorem HeapInvariant.mallocGrow_returns (hh : HeapInvariant s g v) (h : KernelSpace s g)
    (hdir : g.IsDir s.cr3) (hroom : s.heapTop + 8 + size ≤ 2 ^ 22) {fuel : ℕ}
    (hfuel : 1024 < fuel + (g.heapPage + g.heap.length)) :
    ∃ grown s', mallocGrow size fuel s = .ok grown s' := by
  induction fuel generalizing s g with
  | zero =>
      have := h.valid.heap_fits
      omega
  | succ fuel ih =>
      have hend := hh.end_eq
      have hmod : (s.heapTop + sizeofBlockHeader + size) % 2 ^ 32 = s.heapTop + 8 + size :=
        Nat.mod_eq_of_lt (by unfold sizeofBlockHeader; omega)
      rw [mallocGrow, bind_of_ok (get_apply s), hmod]
      by_cases hmore : s.heapTop + 8 + size > s.heapEnd
      · rw [if_pos hmore]
        by_cases hnull : (pmmAllocFrame s.pmm).1 = 0
        · rw [bind_of_ok (allocFrame_null hnull), if_pos rfl]
          exact ⟨_, _, rfl⟩
        · obtain ⟨m, hmap, hspace, hbytes, -⟩ :=
            h.growPage hdir (by omega) hnull s.kernelDirectory
          rw [← hend] at hmap
          rw [bind_of_ok (allocFrame_eq hnull), if_neg hnull, bind_of_ok hmap,
            bind_of_ok (modify_apply _ _)]
          have hgrow : HeapInvariant
              { s with
                pmm := (pmmAllocFrame s.pmm).2, mem := m
                heapEnd := (s.heapEnd + pmmFrameSize) % 2 ^ 32 }
              (g.extend [(pmmAllocFrame s.pmm).1]) v :=
            hh.extend rfl rfl (Nat.mod_eq_of_lt (by unfold pmmFrameSize; omega)) hbytes
          refine ih hgrow (hspace.same rfl rfl rfl rfl) hdir hroom ?_
          change 1024 < fuel + (g.heapPage + (g.heap ++ [_]).length)
          rw [List.length_append, List.length_singleton]
          omega
      · rw [if_neg hmore]
        exact ⟨_, _, rfl⟩

/-- A request that fits below 4 MiB is answered. -/
theorem HeapInvariant.malloc_returns (hh : HeapInvariant s g v) (h : KernelSpace s g)
    (hroot : s.cr3 = g.root) (hj : J s.pmm g) (hQ : ∀ trace heapEnd, Q trace heapEnd)
    (hroom : (s.heapTop + 3) / 4 * 4 + 8 + size ≤ 2 ^ 22) :
    ∃ p s', malloc size s = .ok p s' := by
  unfold malloc
  by_cases hzero : size = 0
  · rw [if_pos hzero]
    exact ⟨_, _, rfl⟩
  · rw [if_neg hzero]
    rcases hh.mallocWalk_spec h (.inl hroot) size with
      ⟨hnone, -⟩ | ⟨a, m, head, free, -, hsome, -⟩
    · rw [bind_of_ok hnone]
      simp only
      rw [bind_of_ok (modify_apply _ s), alignTop_eq hh h, bind_of_ok (get_apply _)]
      have hfuel : 1024 < s.pmm.pmmBitmapSize * 8 + 1 + (g.heapPage + g.heap.length) := by
        have hcap := h.capacity
        unfold Pmm.capacity at hcap
        omega
      obtain ⟨grown, t, hgrow⟩ :=
        hh.alignTop.mallocGrow_returns (h.same rfl rfl rfl rfl) (.inl hroot) hroom hfuel
      rw [bind_of_ok hgrow]
      obtain ⟨frames, h1, h2, -, h4, h5, h6, -⟩ := hh.alignTop.mallocGrow_spec hlow hJ
        (h.same rfl rfl rfl rfl) hroot hj (by omega) (hQ _ _) hgrow
      cases grown with
      | false => exact ⟨_, _, rfl⟩
      | true =>
          have h4' : t.heapTop = (s.heapTop + 3) / 4 * 4 := h4
          have hfits : t.heapTop + 8 + size ≤ t.heapEnd := by
            rw [h4]
            exact h6
          obtain ⟨m, hcarve, -⟩ := h2.mallocCarve_spec h1 (.inl (h5.trans hroot))
            (by rw [h4']; omega) hfits
          exact ⟨_, _, hcarve⟩
    · rw [bind_of_ok hsome]
      exact ⟨_, _, rfl⟩

end Malloc

end MyOS
