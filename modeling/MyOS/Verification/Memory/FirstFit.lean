import MyOS.Verification.Memory.Growth
import MyOS.Verification.Memory.HeapRun

/-! The free list at the level of pointers against first fit on lists: what `malloc` and `free` do
to the list of blocks that following `next` spells. -/

namespace MyOS

open Effect X86Paging ByteMemory PageTables Ownership BlockHeap

variable {s s' : Machine} {g : Layout} {free : List ℕ} {size : ℕ}

/-- Following `next` from the list head spells `free`: headers below `heap_top`, of which no two
overlap. Nothing is said of the blocks' areas. -/
structure SpelledHeap (s : Machine) (g : Layout) (free : List ℕ) : Prop where
  space : KernelSpace s g
  dir : g.IsDir s.cr3
  start_pos : 0 < g.heapPage
  start_le : 4096 * g.heapPage ≤ s.heapTop
  end_eq : s.heapEnd = 4096 * (g.heapPage + g.heap.length)
  top_le : s.heapTop ≤ s.heapEnd
  header : ∀ a ∈ free, 4096 * g.heapPage ≤ a ∧ a + sizeofBlockHeader ≤ s.heapTop ∧ a % 4 = 0
  apart : free.Pairwise fun a b => a + sizeofBlockHeader ≤ b ∨ b + sizeofBlockHeader ≤ a
  spells : FreeListFrom s s.freeListHead free

/-- The size recorded in a header. -/
def RecordedSize (s : Machine) (a n : ℕ) : Prop := load32 a s = .ok n s

/-- All words of the heap but the `next` fields of the list are the same. -/
def SizesKept (s s' : Machine) (g : Layout) (free : List ℕ) : Prop :=
  ∀ x, g.InHeap x → x % 4 = 0 → (∀ b ∈ free, x ≠ b + 4) → ∀ n, RecordedSize s x n →
    RecordedSize s' x n

/-! ## The list in memory -/

theorem KernelSpace.freeListFrom_iff (h : KernelSpace s g) (hdir : g.IsDir s.cr3)
    (hfree : ∀ a ∈ free, a + 4 < 2 ^ 22 ∧ a % 4 = 0) {p : ℕ} :
    FreeListFrom s p free ↔ Linked (s.word g) p free := by
  induction free generalizing p with
  | nil => exact Iff.rfl
  | cons a rest ih =>
      obtain ⟨hlt, haligned⟩ := hfree a List.mem_cons_self
      have hnext := h.load32_word hdir hlt (by omega)
      have hrest := fun p => ih (p := p) fun b hb => hfree b (List.mem_cons_of_mem a hb)
      constructor
      · rintro ⟨hp, hne, next, hload, htail⟩
        rw [hnext] at hload
        cases hload
        exact ⟨hp, hne, (hrest _).mp htail⟩
      · rintro ⟨hp, hne, htail⟩
        exact ⟨hp, hne, _, hnext, (hrest _).mpr htail⟩

theorem SpelledHeap.bounds (h : SpelledHeap s g free) {a : ℕ} (ha : a ∈ free) :
    g.InHeap a ∧ g.InHeap (a + 4) ∧ a % 4 = 0 ∧ a + 4 < 2 ^ 22 ∧ a + 8 ≤ s.heapTop := by
  obtain ⟨hlow, hhigh, haligned⟩ := h.header a ha
  have hend := h.end_eq
  have htop := h.top_le
  unfold sizeofBlockHeader at hhigh
  have hin : g.InHeap (a + 4) := ⟨by omega, by omega⟩
  exact ⟨⟨by omega, by omega⟩, hin, haligned, h.space.inHeap_lt hin, hhigh⟩

theorem SpelledHeap.linked (h : SpelledHeap s g free) :
    Linked (s.word g) s.freeListHead free :=
  (h.space.freeListFrom_iff h.dir fun _ ha =>
    ⟨(h.bounds ha).2.2.2.1, (h.bounds ha).2.2.1⟩).mp h.spells

theorem SpelledHeap.freeList (h : SpelledHeap s g free) : FreeList s g free := by
  refine ⟨?_, h.apart, h.linked⟩
  intro a ha
  obtain ⟨h1, h2, h3, -, -⟩ := h.bounds ha
  exact ⟨h1, h2, h3⟩

theorem SpelledHeap.recordedSize_iff (h : SpelledHeap s g free) {a n : ℕ} (ha : a ∈ free) :
    RecordedSize s a n ↔ s.word g a = n := by
  obtain ⟨-, -, haligned, hlt, -⟩ := h.bounds ha
  unfold RecordedSize
  rw [h.space.load32_word h.dir (by omega) haligned]
  constructor
  · intro heq
    cases heq
    rfl
  · rintro rfl
    rfl

theorem SpelledHeap.sizesKept {free' : List ℕ} (h : SpelledHeap s g free)
    (h' : SpelledHeap s' g free')
    (hwords : ∀ x, g.InHeap x → x % 4 = 0 → (∀ b ∈ free, x ≠ b + 4) → s'.word g x = s.word g x) :
    SizesKept s s' g free := by
  intro x hx haligned hne n hn
  have hlt := h.space.inHeap_lt hx
  unfold RecordedSize at hn ⊢
  rw [h.space.load32_word h.dir hlt haligned] at hn
  cases hn
  rw [h'.space.load32_word h'.dir hlt haligned, hwords x hx haligned hne]

theorem SpelledHeap.top_le_max (h : SpelledHeap s g free) :
    s.heapTop ≤ 2 ^ 22 ∧ s.heapEnd ≤ 2 ^ 22 := by
  have hfits := h.space.valid.heap_fits
  have hend := h.end_eq
  have htop := h.top_le
  omega

/-- The list is spelled in another state that has the same list head and `next` fields. -/
theorem SpelledHeap.of_freeList {g' : Layout} {free' : List ℕ} (h : SpelledHeap s g free)
    (hspace : KernelSpace s' g') (hdir : g'.IsDir s'.cr3)
    (hend : s'.heapEnd = 4096 * (g'.heapPage + g'.heap.length)) (htop : s.heapTop ≤ s'.heapTop)
    (hle : s'.heapTop ≤ s'.heapEnd) (hpage : g'.heapPage = g.heapPage)
    (hsub : free'.Sublist free) (hf : FreeList s' g' free') : SpelledHeap s' g' free' := by
  have hheader : ∀ a ∈ free', 4096 * g'.heapPage ≤ a ∧ a + sizeofBlockHeader ≤ s'.heapTop ∧
      a % 4 = 0 := by
    intro a ha
    obtain ⟨h1, h2, h3⟩ := h.header a (hsub.subset ha)
    exact ⟨by rwa [hpage], h2.trans htop, h3⟩
  have hstart := h.start_le
  refine ⟨hspace, hdir, by rw [hpage]; exact h.start_pos, by rw [hpage]; omega, hend, hle, hheader,
    h.apart.sublist hsub, ?_⟩
  refine (hspace.freeListFrom_iff hdir ?_).mpr hf.linked
  intro a ha
  obtain ⟨-, h2, h3⟩ := hf.inHeap a ha
  exact ⟨hspace.inHeap_lt h2, h3⟩

/-! ## A block that fits -/

/-- Taking a block out of the list where the walk stands. -/
theorem SpelledHeap.link_write (h : SpelledHeap s g free) {link : Link} {pre post : List ℕ} {a : ℕ}
    (hlink : link.After pre) (hfree : free = pre ++ a :: post) :
    ∃ m head, link.write (s.word g (a + 4)) s =
        .ok () { s with mem := m, freeListHead := head } ∧
      SpelledHeap { s with mem := m, freeListHead := head } g (pre ++ post) ∧
      ∀ x, g.InHeap x → x % 4 = 0 → (∀ b ∈ free, x ≠ b + 4) →
        m.get32 (g.phys x) = s.word g x := by
  have hf := h.freeList
  have hlinked := h.linked
  have hsub : (pre ++ post).Sublist free := by
    rw [hfree]
    exact (List.Sublist.refl pre).append (List.sublist_cons_self a post)
  cases hlink with
  | head =>
      rw [List.nil_append] at hfree hsub
      rw [hfree] at hlinked
      refine ⟨s.mem, s.word g (a + 4), rfl, ?_, fun _ _ _ _ => rfl⟩
      refine h.of_freeList (h.space.same rfl rfl rfl rfl) h.dir h.end_eq (Nat.le_refl _) h.top_le rfl
        hsub ⟨fun b hb => hf.inHeap b (hsub.subset hb), hf.apart.sublist hsub, hlinked.2.2⟩
  | next pre b =>
      have hb : b ∈ free := by
        rw [hfree]
        simp
      obtain ⟨-, h2, h3⟩ := hf.inHeap b hb
      obtain ⟨hstore, hspace, hsame, hrest⟩ :=
        h.space.store32_heap h.dir h2 (by omega) (s.word g (a + 4))
      have hword : ∀ x ∈ free, x ≠ b →
          (s.mem.set32 (g.phys (b + 4)) (s.word g (a + 4))).get32 (g.phys (x + 4)) =
            s.word g (x + 4) := by
        intro x hx hne
        obtain ⟨-, hx2, hx3⟩ := hf.inHeap x hx
        exact hrest _ hx2 (by omega) (by omega)
      refine ⟨_, s.freeListHead, hstore, ?_, ?_⟩
      · refine h.of_freeList (hspace.same rfl rfl rfl rfl) h.dir h.end_eq (Nat.le_refl _) h.top_le
          rfl hsub ⟨fun x hx => hf.inHeap x (hsub.subset hx), hf.apart.sublist hsub, ?_⟩
        have hnodup := hf.nodup
        rw [hfree] at hlinked hnodup hword
        simp only [List.append_assoc, List.singleton_append] at hlinked hnodup hword ⊢
        have hout : ∀ x, x ∈ pre ∨ x ∈ post → x ≠ b := by
          rintro x hx rfl
          rw [List.nodup_append] at hnodup
          obtain ⟨-, hcons, hdisjoint⟩ := hnodup
          rcases hx with hx | hx
          · exact hdisjoint x hx x List.mem_cons_self rfl
          · exact (List.nodup_cons.mp hcons).1 (List.mem_cons_of_mem a hx)
        refine hlinked.unlink ?_ (fun x hx => hword x (by simp [hx]) (hout x (.inl hx)))
          fun x hx => hword x (by simp [hx]) (hout x (.inr hx))
        exact hsame.trans (Nat.mod_eq_of_lt (get32_lt _ _))
      · intro x hx haligned hne
        exact hrest x hx haligned (hne b hb)

/-- The first block that is large enough is handed out and leaves the list. -/
theorem SpelledHeap.malloc_found (h : SpelledHeap s g free) (hpos : size ≠ 0)
    {pre post : List ℕ} {a : ℕ} (hfree : free = pre ++ a :: post)
    (hsmall : ∀ b ∈ pre, s.word g b < size) (hsize : size ≤ s.word g a) :
    ∃ m head, malloc size s = .ok (a + 8) { s with mem := m, freeListHead := head } ∧
      SpelledHeap { s with mem := m, freeListHead := head } g (pre ++ post) ∧
      SizesKept s { s with mem := m, freeListHead := head } g free := by
  obtain ⟨link, hlink, hwalk⟩ := h.freeList.walk_some h.space h.dir hfree hsmall hsize
  obtain ⟨m, head, hwrite, hspelled, hsizes⟩ := h.link_write hlink hfree
  refine ⟨m, head, ?_, hspelled, h.sizesKept hspelled hsizes⟩
  unfold malloc
  rw [if_neg hpos, bind_of_ok (hwalk _ hwrite)]
  rfl

/-! ## `free` -/

/-- The block goes to the front of the list. -/
theorem SpelledHeap.free_spec (h : SpelledHeap s g free) {a : ℕ} (hlow : 4096 * g.heapPage ≤ a)
    (hhigh : a + sizeofBlockHeader ≤ s.heapTop) (haligned : a % 4 = 0)
    (hapart : ∀ b ∈ free, a + sizeofBlockHeader ≤ b ∨ b + sizeofBlockHeader ≤ a) :
    ∃ m, MyOS.free (a + sizeofBlockHeader) s = .ok () { s with mem := m, freeListHead := a } ∧
      SpelledHeap { s with mem := m, freeListHead := a } g (a :: free) ∧
      ∀ x, g.InHeap x → x % 4 = 0 → x ≠ a + 4 → m.get32 (g.phys x) = s.word g x := by
  have hf := h.freeList
  have hend := h.end_eq
  have htop := h.top_le
  have hstart := h.start_pos
  unfold sizeofBlockHeader at hhigh hapart
  have hin : g.InHeap a := ⟨by omega, by omega⟩
  have hin' : g.InHeap (a + 4) := ⟨by omega, by omega⟩
  obtain ⟨hstore, hspace, hsame, hrest⟩ :=
    h.space.store32_heap h.dir hin' (by omega) s.freeListHead
  have hspace' : KernelSpace { s with
      mem := s.mem.set32 (g.phys (a + 4)) s.freeListHead, freeListHead := a } g :=
    hspace.same rfl rfl rfl rfl
  have hlinked : Linked (Machine.word
      { s with mem := s.mem.set32 (g.phys (a + 4)) s.freeListHead, freeListHead := a } g) a
      (a :: free) := by
    refine ⟨rfl, by omega, ?_⟩
    have hnext : Machine.word { s with
        mem := s.mem.set32 (g.phys (a + 4)) s.freeListHead, freeListHead := a } g (a + 4) =
        s.freeListHead := hsame.trans (Nat.mod_eq_of_lt (hf.head_lt h.space))
    rw [hnext]
    refine hf.linked.congr ?_
    intro b hb
    obtain ⟨-, hb2, hb3⟩ := hf.inHeap b hb
    have := hapart b hb
    exact hrest _ hb2 (by omega) (by omega)
  have hheader : ∀ b ∈ a :: free, 4096 * g.heapPage ≤ b ∧ b + 8 ≤ s.heapTop ∧ b % 4 = 0 :=
    List.forall_mem_cons.mpr ⟨⟨hlow, hhigh, haligned⟩, h.header⟩
  refine ⟨_, ?_, ⟨hspace', h.dir, h.start_pos, h.start_le, hend, htop, hheader,
    List.pairwise_cons.mpr ⟨hapart, h.apart⟩, ?_⟩, ?_⟩
  · unfold MyOS.free
    rw [if_neg (by unfold sizeofBlockHeader; omega), bind_of_ok (get_apply s)]
    simp only [Nat.add_sub_cancel]
    rw [bind_of_ok hstore]
    rfl
  · refine (hspace'.freeListFrom_iff h.dir ?_).mpr hlinked
    intro b hb
    obtain ⟨h1, h2, h3⟩ := hheader b hb
    have := h.top_le_max
    omega
  · exact hrest

/-! ## No block that fits -/

/-- `heap_top` rounded up to a dword. -/
def Machine.alignedTop (s : Machine) : ℕ := (s.heapTop + 3) / 4 * 4

/-- Where a new block would end, in 32-bit arithmetic. -/
def Machine.heapNeed (s : Machine) (size : ℕ) : ℕ :=
  (s.alignedTop + sizeofBlockHeader + size) % 2 ^ 32

/-- The heap need not grow past the low 4 MiB: the block ends there, or the frames run out. -/
def GrowsLow (s : Machine) (size : ℕ) : Prop :=
  s.heapNeed size ≤ 2 ^ 22 ∨ pmmGetFreeFrameCount s.pmm ≤ (2 ^ 22 - s.heapEnd) / 4096

/-- Without a block that fits, `malloc` aligns the top, makes the heap grow and cuts a block off. -/
theorem malloc_walked (hpos : size ≠ 0) (hwalk : mallocWalk size (2 ^ 32) .head s = .ok none s)
    (htop : s.heapTop ≤ 2 ^ 22) :
    malloc size s = (do
      if ← mallocGrow size (s.pmm.pmmBitmapSize * 8 + 1) then mallocCarve size else return 0 :
        Kernel ℕ) { s with heapTop := s.alignedTop } := by
  have halign : (if s.heapTop % 4 ≠ 0 then { s with heapTop := (s.heapTop + 3) % 2 ^ 32 / 4 * 4 }
      else s) = { s with heapTop := s.alignedTop } := by
    unfold Machine.alignedTop
    by_cases ha : s.heapTop % 4 ≠ 0
    · rw [if_pos ha, Nat.mod_eq_of_lt (by omega)]
    · have heq : (s.heapTop + 3) / 4 * 4 = s.heapTop := by omega
      rw [if_neg ha, heq]
  unfold malloc
  rw [if_neg hpos, bind_of_ok hwalk]
  simp only
  rw [bind_of_ok (modify_apply _ s), halign, bind_of_ok (get_apply _)]

theorem SpelledHeap.alignedTop_le (h : SpelledHeap s g free) :
    s.heapTop ≤ s.alignedTop ∧ s.alignedTop ≤ s.heapEnd ∧ s.alignedTop % 4 = 0 := by
  have hend := h.end_eq
  have htop := h.top_le
  unfold Machine.alignedTop
  omega

/-- Only bytes of the heap above the old top differ. -/
theorem SpelledHeap.alignTop (h : SpelledHeap s g free) :
    SpelledHeap { s with heapTop := s.alignedTop } g free := by
  obtain ⟨hle, htop, -⟩ := h.alignedTop_le
  refine h.of_freeList (h.space.same rfl rfl rfl rfl) h.dir h.end_eq hle htop rfl
    (List.Sublist.refl free) ?_
  exact h.freeList.of_words rfl (fun a ha => ⟨(h.bounds ha).1, (h.bounds ha).2.1⟩) fun _ _ => rfl

theorem Grown.inHeap {need : ℕ} {frames : List ℕ} (_ : Grown s g need frames s') {va : ℕ}
    (hva : g.InHeap va) : (g.extend frames).InHeap va := by
  have hhigh := hva.2
  refine ⟨hva.1, ?_⟩
  simp only [Layout.extend, List.length_append]
  omega

theorem Grown.word {need : ℕ} {frames : List ℕ} (hgrown : Grown s g need frames s') {x : ℕ}
    (hx : g.InHeap x) (haligned : x % 4 = 0) : s'.word (g.extend frames) x = s.word g x := by
  unfold Machine.word
  rw [phys_extend hx]
  refine get32_congr ?_
  intro i hi
  rw [← phys_add g (by omega)]
  have hlow := hx.1
  have hhigh := hx.2
  exact hgrown.bytes _ ⟨by omega, by omega⟩

/-- Growth keeps the list and every byte of the heap. -/
theorem SpelledHeap.grown (h : SpelledHeap s g free) {need : ℕ} {frames : List ℕ}
    (hgrown : Grown s g need frames s') : SpelledHeap s' (g.extend frames) free := by
  have hlength : (g.extend frames).heapPage + (g.extend frames).heap.length =
      g.heapPage + g.heap.length + frames.length := by
    simp only [Layout.extend, List.length_append]
    omega
  have hend := h.end_eq
  have hend' := hgrown.heapEnd
  have htop := h.top_le
  refine h.of_freeList hgrown.space ?_ ?_ (Nat.le_of_eq hgrown.heapTop.symm) ?_ rfl
    (List.Sublist.refl free) ?_
  · rw [hgrown.cr3]
    exact h.dir
  · rw [hlength]
    omega
  · rw [hgrown.heapTop]
    omega
  · refine h.freeList.of_words hgrown.freeListHead ?_ ?_
    · intro a ha
      obtain ⟨h1, h2, -⟩ := h.bounds ha
      exact ⟨hgrown.inHeap h1, hgrown.inHeap h2⟩
    · intro a ha
      obtain ⟨-, h2, h3, -⟩ := h.bounds ha
      exact hgrown.word h2 (by omega)

/-- What `malloc` does then, while the heap stays inside the low 4 MiB: it grows, and a block is
cut off if there is room. -/
theorem SpelledHeap.malloc_low (h : SpelledHeap s g free) (hpos : size ≠ 0)
    (hsmall : ∀ b ∈ free, s.word g b < size) (hlow : GrowsLow s size) :
    ∃ frames t, Grown { s with heapTop := s.alignedTop } g (s.heapNeed size) frames t ∧
      SpelledHeap t (g.extend frames) free ∧
      malloc size s = if s.heapNeed size ≤ t.heapEnd then mallocCarve size t else .ok 0 t := by
  have hcapacity := h.space.capacity
  have hcount : pmmGetFreeFrameCount s.pmm < s.pmm.pmmBitmapSize * 8 + 1 := by
    have hle := List.countP_le_length (p := fun f => !s.pmm.frameUsed f)
      (l := List.range s.pmm.capacity)
    rw [← pmmGetFreeFrameCount_eq, List.length_range] at hle
    unfold Pmm.capacity at hle
    omega
  have hlow' : s.heapNeed size ≤ 2 ^ 22 ∨
      pmmGetFreeFrameCount s.pmm ≤ 1024 - (g.heapPage + g.heap.length) := by
    have hend := h.end_eq
    refine hlow.imp id ?_
    intro hle
    omega
  have haligned := h.alignTop
  obtain ⟨frames, t, hgrow, hgrown⟩ := haligned.space.mallocGrow_low haligned.dir haligned.end_eq
    rfl hlow' hcount
  refine ⟨frames, t, hgrown, haligned.grown hgrown, ?_⟩
  rw [malloc_walked hpos (h.freeList.walk_none h.space h.dir hsmall) h.top_le_max.1,
    bind_of_ok hgrow]
  change (if decide (s.heapNeed size ≤ t.heapEnd) = true then mallocCarve size else pure 0) t = _
  by_cases hroom : s.heapNeed size ≤ t.heapEnd
  · rw [if_pos (decide_eq_true hroom), if_pos hroom]
  · rw [if_neg (by simpa using hroom), if_neg hroom]
    rfl

/-- A block whose header lies inside the heap. -/
theorem SpelledHeap.mallocCarve_spec (h : SpelledHeap s g free) (size : ℕ)
    (haligned : s.heapTop % 4 = 0) (hroom : s.heapTop + sizeofBlockHeader ≤ s.heapEnd) :
    ∃ m, mallocCarve size s = .ok (s.heapTop + sizeofBlockHeader)
        { s with mem := m, heapTop := (s.heapTop + sizeofBlockHeader + size) % 2 ^ 32 } ∧
      KernelSpace { s with mem := m, heapTop := (s.heapTop + sizeofBlockHeader + size) % 2 ^ 32 } g ∧
      FreeListFrom { s with mem := m, heapTop := (s.heapTop + sizeofBlockHeader + size) % 2 ^ 32 }
        s.freeListHead free ∧
      m.get32 (g.phys s.heapTop) = size % 2 ^ 32 ∧
      ∀ x, g.InHeap x → x % 4 = 0 → x + 4 ≤ s.heapTop → m.get32 (g.phys x) = s.word g x := by
  have hend := h.end_eq
  have hstart := h.start_le
  have hmax := h.top_le_max.2
  unfold sizeofBlockHeader at hroom
  have hin : g.InHeap s.heapTop := ⟨by omega, by omega⟩
  have hin' : g.InHeap (s.heapTop + 4) := ⟨by omega, by omega⟩
  obtain ⟨hstore, hspace, hsame, hrest⟩ := KernelSpace.store32_heap
    (s := { s with heapTop := (s.heapTop + sizeofBlockHeader + size) % 2 ^ 32 })
    (h.space.same rfl rfl rfl rfl) h.dir hin haligned size
  obtain ⟨hstore', hspace', -, hrest'⟩ := hspace.store32_heap h.dir hin' (by omega) 0
  have hwords : ∀ x, g.InHeap x → x % 4 = 0 → x + 4 ≤ s.heapTop →
      ((s.mem.set32 (g.phys s.heapTop) size).set32 (g.phys (s.heapTop + 4)) 0).get32 (g.phys x) =
        s.word g x := fun x hx hxa hle =>
    (hrest' x hx hxa (by omega)).trans (hrest x hx hxa (by omega))
  refine ⟨(s.mem.set32 (g.phys s.heapTop) size).set32 (g.phys (s.heapTop + 4)) 0, ?_, hspace', ?_,
    (hrest' _ hin haligned (by omega)).trans hsame, hwords⟩
  · have hmod : (s.heapTop + sizeofBlockHeader) % 2 ^ 32 = s.heapTop + sizeofBlockHeader :=
      Nat.mod_eq_of_lt (by unfold sizeofBlockHeader; omega)
    unfold mallocCarve
    rw [bind_of_ok (get_apply s)]
    simp only [hmod]
    rw [bind_of_ok (modify_apply _ s), bind_of_ok hstore, bind_of_ok hstore']
    rfl
  · refine (hspace'.freeListFrom_iff h.dir fun a ha => ?_).mpr (h.linked.congr fun a ha => ?_)
    · exact ⟨(h.bounds ha).2.2.2.1, (h.bounds ha).2.2.1⟩
    · obtain ⟨-, h2, h3, -, h5⟩ := h.bounds ha
      exact hwords _ h2 (by omega) (by omega)

/-- Without a block that fits the list stays, if the heap does not grow past 4 MiB and the new
block's header lies in it. -/
theorem SpelledHeap.malloc_unfit (h : SpelledHeap s g free) (hpos : size ≠ 0)
    (hsmall : ∀ b ∈ free, s.word g b < size) (hlow : GrowsLow s size)
    (hheader : s.alignedTop + sizeofBlockHeader ≤ s.heapEnd ∨ s.heapEnd < s.heapNeed size) :
    ∃ p s', malloc size s = .ok p s' ∧ FreeListFrom s' s'.freeListHead free := by
  obtain ⟨frames, t, hgrown, hspelled, hmalloc⟩ := h.malloc_low hpos hsmall hlow
  obtain ⟨-, hle, haligned⟩ := h.alignedTop_le
  have htop : t.heapTop = s.alignedTop := hgrown.heapTop
  have hend : t.heapEnd = s.heapEnd + 4096 * frames.length := hgrown.heapEnd
  by_cases hroom : s.heapNeed size ≤ t.heapEnd
  · rw [if_pos hroom] at hmalloc
    have hinside : t.heapTop + sizeofBlockHeader ≤ t.heapEnd := by
      rw [htop]
      unfold sizeofBlockHeader at hheader ⊢
      rcases hheader with hheader | hheader
      · omega
      · omega
    obtain ⟨m, hcarve, -, hspells, -⟩ := hspelled.mallocCarve_spec size
      (by rw [htop]; exact haligned) hinside
    exact ⟨_, _, hmalloc.trans hcarve, hspells⟩
  · rw [if_neg hroom] at hmalloc
    exact ⟨0, t, hmalloc, hspelled.spells⟩

/-- A block was cut off the top, after the heap grew by these frames. -/
structure Carved (s : Machine) (g : Layout) (free : List ℕ) (size : ℕ) (frames : List ℕ)
    (s' : Machine) : Prop where
  spelled : SpelledHeap s' (g.extend frames) free
  heapTop : s'.heapTop = s.alignedTop + sizeofBlockHeader + size
  heapEnd : s'.heapEnd = s.heapEnd + 4096 * frames.length
  taken : pmmGetFreeFrameCount s'.pmm + frames.length = pmmGetFreeFrameCount s.pmm
  needed : ∀ k < frames.length,
    s.heapEnd + 4096 * k < s.alignedTop + sizeofBlockHeader + size
  size : s'.word (g.extend frames) s.alignedTop = size
  words : ∀ x, g.InHeap x → x % 4 = 0 → x + 4 ≤ s.heapTop →
    s'.word (g.extend frames) x = s.word g x

theorem Carved.frames_eq_nil {frames : List ℕ} (h : Carved s g free size frames s')
    (hroom : s'.heapTop ≤ s.heapEnd) : frames = [] := by
  cases frames with
  | nil => rfl
  | cons f frames =>
      have hneeded := h.needed 0 (by simp)
      have htop := h.heapTop
      omega

/-- A request that ends below 4 MiB, with frames enough for it. -/
theorem SpelledHeap.malloc_carved (h : SpelledHeap s g free) (hpos : size ≠ 0)
    (hsmall : ∀ b ∈ free, s.word g b < size)
    (hroom : s.alignedTop + sizeofBlockHeader + size ≤ 2 ^ 22)
    (hframes : s.alignedTop + sizeofBlockHeader + size ≤
      s.heapEnd + 4096 * pmmGetFreeFrameCount s.pmm) :
    ∃ frames s', malloc size s = .ok (s.alignedTop + sizeofBlockHeader) s' ∧
      Carved s g free size frames s' := by
  have hneed : s.heapNeed size = s.alignedTop + sizeofBlockHeader + size :=
    Nat.mod_eq_of_lt (by omega)
  obtain ⟨frames, t, hgrown, hspelled, hmalloc⟩ :=
    h.malloc_low hpos hsmall (.inl (by rw [hneed]; exact hroom))
  have htop : t.heapTop = s.alignedTop := hgrown.heapTop
  have hend : t.heapEnd = s.heapEnd + 4096 * frames.length := hgrown.heapEnd
  have htaken : pmmGetFreeFrameCount t.pmm + frames.length = pmmGetFreeFrameCount s.pmm :=
    hgrown.taken
  have hneeded := hgrown.needed
  have hle : t.heapTop + sizeofBlockHeader + size ≤ t.heapEnd := by
    rw [htop, ← hneed]
    rcases hgrown.enough with henough | hnone
    · exact henough
    · omega
  rw [hneed] at hmalloc hneeded
  rw [if_pos (by rw [← htop]; exact hle)] at hmalloc
  have hmod : (t.heapTop + sizeofBlockHeader + size) % 2 ^ 32 =
      t.heapTop + sizeofBlockHeader + size := by
    rw [htop]
    exact hneed
  obtain ⟨m, hcarve, hspace, hspells, hsize, hwords⟩ := hspelled.mallocCarve_spec size
    (by rw [htop]; exact h.alignedTop_le.2.2) (by omega)
  rw [hmod] at hcarve hspace hspells
  have hstart := hspelled.start_le
  have hspelled' : SpelledHeap { t with mem := m, heapTop := t.heapTop + sizeofBlockHeader + size }
      (g.extend frames) free := by
    refine ⟨hspace, hspelled.dir, hspelled.start_pos, by simp only; omega, hspelled.end_eq, hle, ?_,
      hspelled.apart, hspells⟩
    intro a ha
    obtain ⟨h1, h2, h3⟩ := hspelled.header a ha
    exact ⟨h1, by simp only; omega, h3⟩
  refine ⟨frames, _, ?_, hspelled', by simp only; rw [htop], hend, htaken, hneeded, ?_, ?_⟩
  · rw [← htop]
    exact hmalloc.trans hcarve
  · rw [← htop]
    exact hsize.trans (Nat.mod_eq_of_lt (by omega))
  · intro x hx hxa hxle
    have hle := h.alignedTop_le.1
    have hold := hgrown.word hx hxa
    have hx' := hgrown.inHeap hx
    exact (hwords x hx' hxa (by omega)).trans hold

/-! ## Refinement -/

/-- `malloc` on the list is first fit, and where no block fits the list stays. -/
structure RefinesFirstFit (s : Machine) (g : Layout) (free : List ℕ) (size : ℕ) : Prop where
  found : ∀ pre a post n, free = pre ++ a :: post →
    (∀ b ∈ pre, ∀ m, RecordedSize s b m → m < size) → RecordedSize s a n → size ≤ n →
    ∃ s', malloc size s = .ok (a + sizeofBlockHeader) s' ∧ SpelledHeap s' g (pre ++ post) ∧
      SizesKept s s' g free ∧ s'.heapTop = s.heapTop ∧ s'.heapEnd = s.heapEnd ∧ s'.pmm = s.pmm
  otherwise : (∀ b ∈ free, ∀ m, RecordedSize s b m → m < size) →
    ∃ p s', malloc size s = .ok p s' ∧ FreeListFrom s' s'.freeListHead free

/-- Some block of the list is large enough. -/
def SomeFits (s : Machine) (free : List ℕ) (size : ℕ) : Prop :=
  ∃ a ∈ free, ∃ n, RecordedSize s a n ∧ size ≤ n

theorem SpelledHeap.words_lt (h : SpelledHeap s g free) {pre : List ℕ} (hsub : pre ⊆ free)
    (hsmall : ∀ b ∈ pre, ∀ m, RecordedSize s b m → m < size) : ∀ b ∈ pre, s.word g b < size :=
  fun b hb => hsmall b hb _ ((h.recordedSize_iff (hsub hb)).mpr rfl)

/-- A block that was freed is the first one for every request it is large enough for. -/
theorem SpelledHeap.free_malloc (h : SpelledHeap s g free) {a : ℕ} (hlow : 4096 * g.heapPage ≤ a)
    (hhigh : a + sizeofBlockHeader ≤ s.heapTop) (haligned : a % 4 = 0)
    (hapart : ∀ b ∈ free, a + sizeofBlockHeader ≤ b ∨ b + sizeofBlockHeader ≤ a) :
    ∃ s', MyOS.free (a + sizeofBlockHeader) s = .ok () s' ∧ SpelledHeap s' g (a :: free) ∧
      ∀ n m, RecordedSize s a m → 0 < n → n ≤ m →
        ∃ s'', malloc n s' = .ok (a + sizeofBlockHeader) s'' ∧ SpelledHeap s'' g free := by
  obtain ⟨mem, hrun, hspelled, hwords⟩ := h.free_spec hlow hhigh haligned hapart
  refine ⟨_, hrun, hspelled, ?_⟩
  intro n m hm hpos hn
  have htop := h.top_le
  have hend := h.end_eq
  unfold sizeofBlockHeader at hhigh
  have hin : g.InHeap a := ⟨by omega, by omega⟩
  unfold RecordedSize at hm
  rw [h.space.load32_word h.dir (h.space.inHeap_lt hin) haligned] at hm
  cases hm
  have hsize : n ≤ Machine.word { s with mem := mem, freeListHead := a } g a := by
    have hword : Machine.word { s with mem := mem, freeListHead := a } g a = s.word g a :=
      hwords a hin haligned (by omega)
    rw [hword]
    exact hn
  obtain ⟨mem', head, hmalloc, hspelled', -⟩ :=
    hspelled.malloc_found (Nat.pos_iff_ne_zero.mp hpos) (List.nil_append _).symm (by simp) hsize
  exact ⟨_, hmalloc, hspelled'⟩

/-- On every heap whose free list spells a list of blocks, `malloc` is first fit on it: with a
block that fits whatever the size, and without one if the heap need not grow past 4 MiB and the
new header lies in the heap. `free` puts its block in front, from where it is handed out next. -/
theorem malloc_first_fit {s : Machine} {g : Layout} {free : List ℕ} {size : ℕ}
    (h : SpelledHeap s g free) (hpos : 0 < size) :
    (SomeFits s free size ∨ GrowsLow s size ∧
        (s.alignedTop + sizeofBlockHeader ≤ s.heapEnd ∨ s.heapEnd < s.heapNeed size) →
      RefinesFirstFit s g free size) ∧
    ∀ a, 4096 * g.heapPage ≤ a → a + sizeofBlockHeader ≤ s.heapTop → a % 4 = 0 →
      (∀ b ∈ free, a + sizeofBlockHeader ≤ b ∨ b + sizeofBlockHeader ≤ a) →
      ∃ s', MyOS.free (a + sizeofBlockHeader) s = .ok () s' ∧ SpelledHeap s' g (a :: free) ∧
        ∀ n m, RecordedSize s a m → 0 < n → n ≤ m →
          ∃ s'', malloc n s' = .ok (a + sizeofBlockHeader) s'' ∧ SpelledHeap s'' g free := by
  have hne : size ≠ 0 := Nat.pos_iff_ne_zero.mp hpos
  refine ⟨fun hcond => ⟨?_, ?_⟩, fun a hlow hhigh haligned hapart =>
    h.free_malloc hlow hhigh haligned hapart⟩
  · intro pre a post n hfree hsmall hn hsize
    have ha : a ∈ free := by
      rw [hfree]
      simp
    have hpre : pre ⊆ free := by
      rw [hfree]
      exact List.subset_append_left _ _
    rw [h.recordedSize_iff ha] at hn
    obtain ⟨m, head, hmalloc, hspelled, hsizes⟩ :=
      h.malloc_found hne hfree (h.words_lt hpre hsmall) (hn ▸ hsize)
    exact ⟨_, hmalloc, hspelled, hsizes, rfl, rfl, rfl⟩
  · intro hsmall
    rcases hcond with ⟨a, ha, n, hn, hsize⟩ | ⟨hlow, hheader⟩
    · exact absurd (hsmall a ha n hn) (by omega)
    · exact h.malloc_unfit hne (h.words_lt (List.Subset.refl free) hsmall) hlow hheader

/-! ## A new header over the list

The end of the request is computed in 32 bits. When it wraps around, a block is cut off although
there is no room, and with the heap full its header goes to the page behind the heap, which may be
the frame of one of the heap's own pages. -/

/-- A new header whose page is the frame of block `a` clears the link of `a`. -/
theorem SpelledHeap.mallocCarve_over (h : SpelledHeap s g free) {a : ℕ} (ha : a ∈ free)
    (hpage : a % 4096 = 0) (htop : s.heapTop < 2 ^ 22) (htop' : s.heapTop % 4096 = 0)
    (hphys : g.phys s.heapTop = g.phys a) {p : ℕ} (hrun : mallocCarve size s = .ok p s') :
    load32 (a + 4) s' = .ok 0 s' := by
  obtain ⟨h1, h2, h3⟩ := h.freeList.inHeap a ha
  have hphys' : g.phys (s.heapTop + 4) = g.phys (a + 4) := by
    rw [phys_add g (by omega), phys_add g (by omega), hphys]
  have hspace : KernelSpace { s with heapTop := (s.heapTop + sizeofBlockHeader + size) % 2 ^ 32 } g :=
    h.space.same rfl rfl rfl rfl
  have hstore := store32_eq size (hspace.translate_phys h.dir htop)
  rw [hphys] at hstore
  obtain ⟨-, hspace', -, -⟩ := hspace.store32_heap h.dir h1 h3 size
  have hstore' := store32_eq 0
    (hspace'.translate_phys h.dir (show s.heapTop + 4 < 2 ^ 22 by omega))
  rw [hphys'] at hstore'
  obtain ⟨-, hspace'', hzero, -⟩ := hspace'.store32_heap h.dir h2 (by omega) 0
  unfold mallocCarve at hrun
  rw [bind_of_ok (get_apply s), bind_of_ok (modify_apply _ s), bind_of_ok hstore,
    bind_of_ok hstore'] at hrun
  cases hrun
  rw [hspace''.load32_word h.dir (hspace''.inHeap_lt h2) (by omega)]
  exact congrArg (fun w => EStateM.Result.ok w _) hzero

/-- The new header is written over the first one of the list, which cuts the list off. -/
theorem SpelledHeap.malloc_over_header {a b : ℕ} {rest : List ℕ}
    (h : SpelledHeap s g (a :: b :: rest)) (hpos : size ≠ 0)
    (hsmall : ∀ x ∈ a :: b :: rest, s.word g x < size) (htop : s.heapTop = s.heapEnd)
    (hend : s.heapEnd < 2 ^ 22) (hneed : s.heapNeed size ≤ s.heapEnd)
    (ha : a % 4096 = 0) (hphys : g.phys s.heapEnd = g.phys a) {p : ℕ}
    (hrun : malloc size s = .ok p s') : ¬FreeListFrom s' s'.freeListHead (a :: b :: rest) := by
  obtain ⟨frames, t, hgrown, hspelled, hmalloc⟩ := h.malloc_low hpos hsmall (.inl (by omega))
  obtain rfl : frames = [] := by
    cases frames with
    | nil => rfl
    | cons f frames =>
        have hneeded := hgrown.needed 0 (by simp)
        simp only at hneeded
        omega
  rw [g.extend_nil] at hspelled
  have hpage := h.end_eq
  have haligned : s.alignedTop = s.heapEnd := by
    unfold Machine.alignedTop
    omega
  have htop' : t.heapTop = s.heapEnd := hgrown.heapTop.trans haligned
  have hend' : t.heapEnd = s.heapEnd := hgrown.heapEnd
  rw [hend', if_pos hneed] at hmalloc
  have hclear := hspelled.mallocCarve_over List.mem_cons_self ha (by omega) (by omega)
    (by rw [htop']; exact hphys) (hmalloc.symm.trans hrun)
  rintro ⟨-, -, next, hload, hb, hne, -⟩
  rw [hclear] at hload
  cases hload
  exact hne hb.symm

/-! ## A kernel that ends at 128 KiB -/

theorem Pmm.Linear.free_count {p : Pmm} {n : ℕ} (h : p.Linear n) :
    pmmGetFreeFrameCount p = 4096 - n := by
  have hset : ((Finset.range 4096).filter fun f => p.frameUsed f = false) = Finset.Ico n 4096 := by
    ext f
    rw [Finset.mem_filter, Finset.mem_range, Finset.mem_Ico]
    constructor
    · rintro ⟨hf, hfree⟩
      refine ⟨?_, hf⟩
      by_contra hlt
      rw [(h.2 f hf).mpr (by omega)] at hfree
      cases hfree
    · rintro ⟨hle, hf⟩
      refine ⟨hf, Bool.eq_false_iff.mpr fun hused => ?_⟩
      have hlt := (h.2 f hf).mp hused
      omega
  rw [pmmGetFreeFrameCount_card, h.capacity, hset, Nat.card_Ico]

theorem Booted.spelled {page : ℕ} (h : Booted s page) (hpage : 0 < page) :
    SpelledHeap s (bootLayout page) [] := by
  have htop := h.heapTop
  exact ⟨h.space, .inl h.cr3, hpage, htop.ge, h.heap.end_eq, h.heap.top_le, by simp, .nil,
    h.heap.heap.linked⟩

/-- A request behind the blocks cut off so far, on a heap without free blocks. -/
theorem SpelledHeap.malloc_next (h : SpelledHeap s g []) (hpos : size ≠ 0)
    (haligned : s.heapTop % 4 = 0) (hroom : s.heapTop + 8 + size ≤ 2 ^ 22)
    (hframes : s.heapTop + 8 + size ≤ s.heapEnd + 4096 * pmmGetFreeFrameCount s.pmm) :
    ∃ frames s', malloc size s = .ok (s.heapTop + 8) s' ∧ Carved s g [] size frames s' ∧
      s'.heapTop = s.heapTop + 8 + size ∧ s'.word (g.extend frames) s.heapTop = size := by
  have htop : s.alignedTop = s.heapTop := by
    unfold Machine.alignedTop
    omega
  obtain ⟨frames, s', hmalloc, hcarved⟩ := h.malloc_carved hpos (by simp)
    (by rw [htop]; exact hroom) (by rw [htop]; exact hframes)
  have htop' := hcarved.heapTop
  have hsize := hcarved.size
  rw [htop] at hmalloc htop' hsize
  exact ⟨frames, s', hmalloc, hcarved, htop', hsize⟩

/-- Three blocks that fill five pages, of which the first two are free again. The page behind the
heap is the frame of the heap's first page. -/
theorem exists_full_heap : ∃ s g, SpelledHeap s g [135168, 135200] ∧
    s.heapTop = 155648 ∧ s.heapEnd = 155648 ∧ g.phys 155648 = g.phys 135168 ∧
    s.word g 135168 = 24 ∧ s.word g 135200 = 24 := by
  obtain ⟨s₀, -, hboot, -⟩ := bootMemory_booted (fun _ => 0) (fun _ _ => 0) (fun _ => 0)
    (fun _ => 0#32) 131072 (by decide)
  have hpage : ((131072 : UInt32).toNat + 4607) / 4096 = 33 := by decide
  rw [hpage] at hboot
  have htop₀ := hboot.heapTop
  have hend₀ : s₀.heapEnd = 139264 := hboot.heap.end_eq
  have hfree₀ := hboot.linear.free_count
  obtain ⟨frames₁, s₁, -, h₁, htop₁, hsize₁⟩ := (hboot.spelled (by decide)).malloc_next
    (show 24 ≠ 0 by decide) (by omega) (by omega) (by omega)
  have hend₁ := h₁.heapEnd
  have hfree₁ := h₁.taken
  obtain rfl := h₁.frames_eq_nil (by omega)
  have hspelled₁ := h₁.spelled
  rw [Layout.extend_nil] at hspelled₁ hsize₁
  simp only [List.length_nil] at hend₁ hfree₁
  obtain ⟨frames₂, s₂, -, h₂, htop₂, hsize₂⟩ := hspelled₁.malloc_next
    (show 24 ≠ 0 by decide) (by omega) (by omega) (by omega)
  have hend₂ := h₂.heapEnd
  have hfree₂ := h₂.taken
  obtain rfl := h₂.frames_eq_nil (by omega)
  have hspelled₂ := h₂.spelled
  have hwords₂ := h₂.words
  rw [Layout.extend_nil] at hspelled₂ hsize₂ hwords₂
  simp only [List.length_nil] at hend₂ hfree₂
  obtain ⟨frames, s₃, -, h₃, htop₃, -⟩ := hspelled₂.malloc_next
    (show 20408 ≠ 0 by decide) (by omega) (by omega) (by omega)
  have hend₃ := h₃.heapEnd
  have hpages : frames.length = 4 := by
    have hle := h₃.spelled.top_le
    have hlast := h₃.needed (frames.length - 1)
    have hneed := h₃.heapTop
    omega
  have hlength : ((bootLayout 33).extend frames).heap.length = 5 := by
    simp [Layout.extend, bootLayout, hpages]
  have hin : ∀ x, 135168 ≤ x → x < 155648 → ((bootLayout 33).extend frames).InHeap x := by
    intro x hlow hhigh
    have hstart : ((bootLayout 33).extend frames).heapPage = 33 := rfl
    unfold Layout.InHeap
    rw [hstart, hlength]
    omega
  have hstart : 4096 * ((bootLayout 33).extend frames).heapPage = 135168 := rfl
  have hboot₀ : ∀ x, 135168 ≤ x → x < 139264 → (bootLayout 33).InHeap x := fun x hlow hhigh =>
    ⟨hlow, hhigh⟩
  obtain ⟨m₄, -, hspelled₄, hwords₄⟩ := h₃.spelled.free_spec (a := 135200) (by omega)
    (by unfold sizeofBlockHeader; omega) (by decide) (by simp)
  obtain ⟨m₅, -, hspelled₅, hwords₅⟩ := hspelled₄.free_spec (a := 135168) (by omega)
    (by unfold sizeofBlockHeader; simp only; omega) (by decide) (by simp [sizeofBlockHeader])
  refine ⟨_, _, hspelled₅, ?_, ?_, ?_, ?_, ?_⟩
  · simp only
    omega
  · simp only
    omega
  · have hout : ¬((bootLayout 33).extend frames).InHeap 155648 := by
      unfold Layout.InHeap
      rw [hlength]
      omega
    have hbehind := Layout.lowFrame_identity ((bootLayout 33).extend frames) hout
      (by unfold Layout.InWindows windowPage; omega)
    have hfirst : ((bootLayout 33).extend frames).phys 135168 = (bootLayout 33).phys 135168 :=
      phys_extend (hboot₀ 135168 (by decide) (by decide))
    rw [hfirst, Layout.phys, hbehind]
    rfl
  · refine (hwords₅ 135168 (hin _ (by decide) (by decide)) (by decide) (by decide)).trans ?_
    refine (hwords₄ 135168 (hin _ (by decide) (by decide)) (by decide) (by decide)).trans ?_
    refine (h₃.words 135168 (hboot₀ _ (by decide) (by decide)) (by decide) (by omega)).trans ?_
    refine (hwords₂ 135168 (hboot₀ _ (by decide) (by decide)) (by decide) (by omega)).trans ?_
    rwa [htop₀] at hsize₁
  · refine (hwords₅ 135200 (hin _ (by decide) (by decide)) (by decide) (by decide)).trans ?_
    refine (hwords₄ 135200 (hin _ (by decide) (by decide)) (by decide) (by decide)).trans ?_
    refine (h₃.words 135200 (hboot₀ _ (by decide) (by decide)) (by decide) (by omega)).trans ?_
    rwa [htop₁, htop₀] at hsize₂

/-- A request of 16 bytes on it is first fit. -/
theorem malloc_first_fit_full_heap : ∃ s g, SpelledHeap s g [135168, 135200] ∧
    RefinesFirstFit s g [135168, 135200] 16 := by
  obtain ⟨s, g, hspelled, -, -, -, hfirst, -⟩ := exists_full_heap
  refine ⟨s, g, hspelled, (malloc_first_fit hspelled (by decide)).1 (.inl ?_)⟩
  exact ⟨135168, by simp, 24, (hspelled.recordedSize_iff (by simp)).mpr hfirst, by decide⟩

/-- With the heap full a request of `0xFFFFFFF0` bytes is granted, and its header cuts the free
list off behind the first block. -/
theorem malloc_first_fit_wraps :
    ¬∀ (s : Machine) (g : Layout) (free : List ℕ) (size : ℕ), SpelledHeap s g free → 0 < size →
      size < 2 ^ 32 → RefinesFirstFit s g free size := by
  intro h
  obtain ⟨s, g, hspelled, htop, hend, hphys, hfirst, hsecond⟩ := exists_full_heap
  have hsmall : ∀ x ∈ [135168, 135200], s.word g x < 0xFFFFFFF0 := by
    intro x hx
    simp only [List.mem_cons, List.not_mem_nil, or_false] at hx
    rcases hx with rfl | rfl
    · omega
    · omega
  have hneed : s.heapNeed 0xFFFFFFF0 ≤ s.heapEnd := by
    unfold Machine.heapNeed Machine.alignedTop sizeofBlockHeader
    omega
  obtain ⟨p, s', hrun, hspells⟩ := (h s g _ 0xFFFFFFF0 hspelled (by decide) (by decide)).otherwise (by
    intro x hx n hn
    rw [hspelled.recordedSize_iff hx] at hn
    rw [← hn]
    exact hsmall x hx)
  exact hspelled.malloc_over_header (by decide) hsmall (htop.trans hend.symm) (by omega) hneed
    (by decide) (by rw [hend]; exact hphys) hrun hspells

end MyOS
