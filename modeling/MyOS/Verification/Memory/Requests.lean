import MyOS.Verification.Memory.FirstFit

/-! Requests of any size: which of them get an area that lies in the heap, and what a request that
fails has used up. -/

namespace MyOS

open Effect X86Paging ByteMemory PageTables Ownership BlockHeap

variable {s s' : Machine} {g : Layout} {v : HeapView} {free : List ℕ} {size p : ℕ}

/-! ## Any call -/

theorem mallocCarve_ok (hrun : mallocCarve size s = .ok p s') :
    p = (s.heapTop + sizeofBlockHeader) % 2 ^ 32 ∧
      s'.heapTop = (s.heapTop + sizeofBlockHeader + size) % 2 ^ 32 ∧ s'.heapEnd = s.heapEnd := by
  unfold mallocCarve at hrun
  rw [bind_of_ok (get_apply s), bind_of_ok (modify_apply _ s)] at hrun
  obtain ⟨_, t, hstore, hrun⟩ := bind_eq_ok.mp hrun
  obtain ⟨_, u, hstore', hrun⟩ := bind_eq_ok.mp hrun
  cases hrun
  obtain ⟨_, -, rfl⟩ := store32_ok hstore
  obtain ⟨_, -, rfl⟩ := store32_ok hstore'
  exact ⟨rfl, rfl, rfl⟩

/-- A call that finds no block gives up, or cuts one off behind the aligned top. -/
theorem SpelledHeap.malloc_cases (h : SpelledHeap s g free) (hpos : size ≠ 0)
    (hsmall : ∀ b ∈ free, s.word g b < size) (hrun : malloc size s = .ok p s') :
    (p = 0 ∧ s'.heapTop = s.alignedTop ∧ s.heapEnd < s.heapNeed size ∧
      (pmmGetFreeFrameCount s.pmm = 0 ∨ s.heapEnd + 4096 < s.heapNeed size ∧
        pmmGetFreeFrameCount s'.pmm < pmmGetFreeFrameCount s.pmm)) ∨
    (p = s.alignedTop + sizeofBlockHeader ∧ s'.heapTop = s.heapNeed size ∧
      s.heapNeed size ≤ s'.heapEnd ∧ s'.heapEnd < 2 ^ 32) := by
  obtain ⟨htop, hend⟩ := h.top_le_max
  obtain ⟨-, hle, -⟩ := h.alignedTop_le
  rw [malloc_walked hpos (h.freeList.walk_none h.space h.dir hsmall) htop] at hrun
  obtain ⟨grown, t, hgrow, hrun⟩ := bind_eq_ok.mp hrun
  have hneed : (s.alignedTop + sizeofBlockHeader + size) % 2 ^ 32 = s.heapNeed size := rfl
  have hkept := mallocGrow_kept hneed hgrow
  have htop' : t.heapTop = s.alignedTop := hkept.heapTop
  cases grown with
  | false =>
      left
      cases hrun
      obtain ⟨hmore, hfailed⟩ := mallocGrow_false hneed
        (by simp only; omega) hgrow
      exact ⟨rfl, htop', hmore, hfailed.imp h.space.alloc_null_iff.mp id⟩
  | true =>
      right
      rw [if_pos rfl] at hrun
      obtain ⟨hp, htop'', hend'⟩ := mallocCarve_ok hrun
      rw [htop'] at hp htop''
      rw [Nat.mod_eq_of_lt (by unfold sizeofBlockHeader; omega)] at hp
      rw [hend']
      exact ⟨hp, htop'', hkept.enough rfl, hkept.end_lt (by simp only; omega)⟩

/-! ## Sound areas -/

/-- The call returns `NULL` or an area that ends inside the heap, and the top does not sink. -/
def MallocSound (s : Machine) (size : ℕ) : Prop :=
  ∃ p s', malloc size s = .ok p s' ∧ (p = 0 ∨ p + size ≤ s'.heapEnd) ∧ s.heapTop ≤ s'.heapTop

/-- The end of the new block is not a 32-bit address. -/
def Wraps (s : Machine) (size : ℕ) : Prop := 2 ^ 32 ≤ s.alignedTop + sizeofBlockHeader + size

theorem HeapInvariant.spelled (hh : HeapInvariant s g v) (h : KernelSpace s g)
    (hdir : g.IsDir s.cr3) : SpelledHeap s g v.free := by
  have hf := hh.freeList
  have hstart := hh.heap.start_pos
  constructor
  · exact h
  · exact hdir
  · omega
  · exact hh.heap.start_le
  · exact hh.end_eq
  · exact hh.top_le
  · intro a ha
    obtain ⟨n, hn⟩ := hh.heap.free_block ha
    obtain ⟨h1, -, h3, -, h5⟩ := hh.block_bounds hn
    exact ⟨h1.1, by unfold sizeofBlockHeader; omega, h3⟩
  · exact hf.apart
  · rw [h.freeListFrom_iff hdir]
    · exact hf.linked
    · intro a ha
      obtain ⟨-, h2, h3⟩ := hf.inHeap a ha
      exact ⟨h.inHeap_lt h2, h3⟩

theorem HeapInvariant.sound_of_fits (hh : HeapInvariant s g v) (h : KernelSpace s g)
    (hdir : g.IsDir s.cr3) (hpos : size ≠ 0) (hfits : ∃ a ∈ v.free, size ≤ s.word g a) :
    MallocSound s size := by
  obtain ⟨pre, a, post, hfree, hsmall, hsize⟩ := exists_first_fit hfits
  obtain ⟨m, head, hrun, -⟩ := (hh.spelled h hdir).malloc_found hpos hfree hsmall hsize
  obtain ⟨n, hn⟩ := hh.heap.free_block (a := a) (by rw [hfree]; simp)
  have hword : s.word g a = n := hh.heap.sizes (a, n) hn
  have hbound := (hh.block_bounds hn).2.2.2.2
  have htop := hh.top_le
  exact ⟨_, _, hrun, .inr (by simp only; omega), Nat.le_refl _⟩

theorem SpelledHeap.sound_of_returns (h : SpelledHeap s g free) (hpos : size ≠ 0)
    (hsmall : ∀ b ∈ free, s.word g b < size) (hwraps : ¬Wraps s size)
    (hrun : malloc size s = .ok p s') : MallocSound s size := by
  have hneed : s.heapNeed size = s.alignedTop + sizeofBlockHeader + size :=
    Nat.mod_eq_of_lt (by unfold Wraps at hwraps; omega)
  have hle := h.alignedTop_le.1
  refine ⟨p, s', hrun, ?_⟩
  rcases h.malloc_cases hpos hsmall hrun with ⟨hp, htop, -⟩ | ⟨hp, htop, hroom, -⟩
  · exact ⟨.inl hp, by omega⟩
  · exact ⟨.inr (by omega), by omega⟩

theorem SpelledHeap.sound_iff_of_wraps (h : SpelledHeap s g free) (hpos : size ≠ 0)
    (hlt : size < 2 ^ 32) (hsmall : ∀ b ∈ free, s.word g b < size) (hwraps : Wraps s size) :
    MallocSound s size ↔
      s.heapEnd < s.heapNeed size ∧ pmmGetFreeFrameCount s.pmm = 0 := by
  obtain ⟨hlow, hle, -⟩ := h.alignedTop_le
  have hmax := h.top_le_max.2
  have hneed : s.heapNeed size + 2 ^ 32 = s.alignedTop + sizeofBlockHeader + size := by
    unfold Wraps sizeofBlockHeader at *
    unfold Machine.heapNeed sizeofBlockHeader
    omega
  constructor
  · rintro ⟨p, s', hrun, hsound, -⟩
    rcases h.malloc_cases hpos hsmall hrun with ⟨-, -, hmore, hfailed⟩ | ⟨hp, -, -, hend⟩
    · refine ⟨hmore, hfailed.resolve_right ?_⟩
      unfold sizeofBlockHeader at hneed
      omega
    · unfold sizeofBlockHeader at hp hneed
      omega
  · rintro ⟨hmore, hnone⟩
    obtain ⟨frames, t, hgrown, -, hmalloc⟩ := h.malloc_low hpos hsmall (.inr (by omega))
    have htaken : pmmGetFreeFrameCount t.pmm + frames.length = pmmGetFreeFrameCount s.pmm :=
      hgrown.taken
    have hend : t.heapEnd = s.heapEnd + 4096 * frames.length := hgrown.heapEnd
    have htop : t.heapTop = s.alignedTop := hgrown.heapTop
    rw [if_neg (by omega)] at hmalloc
    exact ⟨0, t, hmalloc, .inl rfl, by omega⟩

theorem SpelledHeap.someFits_iff (h : SpelledHeap s g free) :
    SomeFits s free size ↔ ∃ a ∈ free, size ≤ s.word g a := by
  constructor
  · rintro ⟨a, ha, n, hn, hsize⟩
    rw [h.recordedSize_iff ha] at hn
    exact ⟨a, ha, by omega⟩
  · rintro ⟨a, ha, hsize⟩
    exact ⟨a, ha, _, (h.recordedSize_iff ha).mpr rfl, hsize⟩

theorem SpelledHeap.words_lt_of_not_fits (h : SpelledHeap s g free)
    (hfits : ¬SomeFits s free size) : ∀ b ∈ free, s.word g b < size := by
  intro b hb
  by_contra hsize
  exact hfits (h.someFits_iff.mpr ⟨b, hb, by omega⟩)

/-- A request is sound if and only if a free block fits, its end does not wrap around, or it gives
up at once; this for every request that wraps around or leaves the heap below 4 MiB. Without
wrap-around every call that returns is sound. -/
theorem malloc_sound_iff {s : Machine} {g : Layout} {v : HeapView} {size : ℕ}
    (hh : HeapInvariant s g v) (h : KernelSpace s g) (hdir : g.IsDir s.cr3) (hpos : 0 < size)
    (hlt : size < 2 ^ 32) :
    (SomeFits s v.free size ∨ GrowsLow s size ∨ Wraps s size →
      (MallocSound s size ↔ SomeFits s v.free size ∨ ¬Wraps s size ∨
        s.heapEnd < s.heapNeed size ∧ pmmGetFreeFrameCount s.pmm = 0)) ∧
    (¬Wraps s size → (MallocSound s size ↔ ∃ p s', malloc size s = .ok p s')) := by
  have hspelled := hh.spelled h hdir
  have hne : size ≠ 0 := Nat.pos_iff_ne_zero.mp hpos
  by_cases hfits : SomeFits s v.free size
  · have hsound := hh.sound_of_fits h hdir hne (hspelled.someFits_iff.mp hfits)
    refine ⟨fun _ => ⟨fun _ => .inl hfits, fun _ => hsound⟩, fun _ => ⟨fun _ => ?_, fun _ => hsound⟩⟩
    obtain ⟨p, s', hrun, -⟩ := hsound
    exact ⟨p, s', hrun⟩
  · have hsmall := hspelled.words_lt_of_not_fits hfits
    have hreturns : ¬Wraps s size → (MallocSound s size ↔ ∃ p s', malloc size s = .ok p s') := by
      intro hwraps
      constructor
      · rintro ⟨p, s', hrun, -⟩
        exact ⟨p, s', hrun⟩
      · rintro ⟨p, s', hrun⟩
        exact hspelled.sound_of_returns hne hsmall hwraps hrun
    refine ⟨?_, hreturns⟩
    intro hcase
    by_cases hwraps : Wraps s size
    · rw [hspelled.sound_iff_of_wraps hne hlt hsmall hwraps]
      exact ⟨fun hnone => .inr (.inr hnone),
        fun hor => (hor.resolve_left hfits).resolve_left fun hno => hno hwraps⟩
    · refine ⟨fun _ => .inr (.inl hwraps), fun _ => (hreturns hwraps).mpr ?_⟩
      have hlow := (hcase.resolve_left hfits).resolve_right hwraps
      have hneed : s.heapNeed size = s.alignedTop + sizeofBlockHeader + size :=
        Nat.mod_eq_of_lt (by unfold Wraps at hwraps; omega)
      obtain ⟨p, s', hrun, -⟩ := hspelled.malloc_unfit hne hsmall hlow (by omega)
      exact ⟨p, s', hrun⟩

theorem malloc_sound_boot : ∃ s g v, HeapInvariant s g v ∧ KernelSpace s g ∧ MallocSound s 100 := by
  obtain ⟨s, -, hboot, -⟩ := bootMemory_booted (fun _ => 0) (fun _ _ => 0) (fun _ => 0)
    (fun _ => 0#32) 131072 (by decide)
  have hpage : ((131072 : UInt32).toNat + 4607) / 4096 = 33 := by decide
  rw [hpage] at hboot
  have htop := hboot.heapTop
  have hwraps : ¬Wraps s 100 := by
    unfold Wraps Machine.alignedTop sizeofBlockHeader
    omega
  have hlow : GrowsLow s 100 := by
    left
    unfold Machine.heapNeed Machine.alignedTop sizeofBlockHeader
    omega
  exact ⟨s, _, _, hboot.heap, hboot.space,
    ((malloc_sound_iff hboot.heap hboot.space (.inl hboot.cr3) (by decide) (by decide)).1
      (.inr (.inl hlow))).mpr (.inr (.inl hwraps))⟩

/-- After boot a request of `0xFFFFFFF0` bytes is granted, and the top of the heap sinks. -/
theorem malloc_unsound_boot :
    ¬∀ (s : Machine) (g : Layout) (v : HeapView) (size : ℕ), HeapInvariant s g v →
      KernelSpace s g → g.IsDir s.cr3 → 0 < size → size < 2 ^ 32 → MallocSound s size := by
  intro h
  obtain ⟨s, -, hboot, -⟩ := bootMemory_booted (fun _ => 0) (fun _ _ => 0) (fun _ => 0)
    (fun _ => 0#32) 131072 (by decide)
  have hpage : ((131072 : UInt32).toNat + 4607) / 4096 = 33 := by decide
  rw [hpage] at hboot
  have htop := hboot.heapTop
  have hend : s.heapEnd = 139264 := hboot.heap.end_eq
  have hwraps : Wraps s 0xFFFFFFF0 := by
    unfold Wraps Machine.alignedTop sizeofBlockHeader
    omega
  have hsound := h s _ _ 0xFFFFFFF0 hboot.heap hboot.space (.inl hboot.cr3) (by decide) (by decide)
  rw [(hboot.spelled (by decide)).sound_iff_of_wraps (by decide) (by decide) (by simp) hwraps]
    at hsound
  have hmore := hsound.1
  unfold Machine.heapNeed Machine.alignedTop sizeofBlockHeader at hmore
  omega

/-! ## Requests that fail -/

/-- A call that returns `NULL` leaves the free frames, the end of the heap, the free list and the
bytes below the top as they were. -/
def FailureFree (s : Machine) (g : Layout) (free : List ℕ) (size : ℕ) : Prop :=
  ∀ s', malloc size s = .ok 0 s' →
    pmmGetFreeFrameCount s'.pmm = pmmGetFreeFrameCount s.pmm ∧ s'.heapEnd = s.heapEnd ∧
    FreeListFrom s' s'.freeListHead free ∧ (s'.heapTop = s.heapTop ∨ s'.heapTop = s.alignedTop) ∧
    ∀ va b, 4096 * g.heapPage ≤ va → va < s.heapTop → load8 va s = .ok b s → load8 va s' = .ok b s'

theorem failureFree_of_ne (h : ∀ s', malloc size s ≠ .ok 0 s') : FailureFree s g free size :=
  fun s' hrun => absurd hrun (h s')

theorem SpelledHeap.free_lt_of_null (h : SpelledHeap s g free) (hpos : size ≠ 0)
    (hsmall : ∀ b ∈ free, s.word g b < size) (hfree : pmmGetFreeFrameCount s.pmm ≠ 0)
    (hrun : malloc size s = .ok 0 s') :
    pmmGetFreeFrameCount s'.pmm < pmmGetFreeFrameCount s.pmm := by
  rcases h.malloc_cases hpos hsmall hrun with ⟨-, -, -, hfailed⟩ | ⟨hp, -⟩
  · exact (hfailed.resolve_left hfree).2
  · unfold sizeofBlockHeader at hp
    omega

theorem SpelledHeap.malloc_ne_zero_of_fits (h : SpelledHeap s g free) (hpos : size ≠ 0)
    (hfits : SomeFits s free size) : ∀ s', malloc size s ≠ .ok 0 s' := by
  intro s' hrun
  obtain ⟨pre, a, post, hfree, hsmall, hsize⟩ := exists_first_fit (h.someFits_iff.mp hfits)
  obtain ⟨m, head, hfound, -⟩ := h.malloc_found hpos hfree hsmall hsize
  rw [hfound] at hrun
  cases hrun

theorem SpelledHeap.malloc_ne_zero_of_frames (h : SpelledHeap s g free) (hpos : size ≠ 0)
    (hsmall : ∀ b ∈ free, s.word g b < size) (hlow : GrowsLow s size)
    (hframes : s.heapNeed size ≤ s.heapEnd + 4096 * pmmGetFreeFrameCount s.pmm) :
    ∀ s', malloc size s ≠ .ok 0 s' := by
  intro s' hrun
  obtain ⟨frames, t, hgrown, -, hmalloc⟩ := h.malloc_low hpos hsmall hlow
  have htaken : pmmGetFreeFrameCount t.pmm + frames.length = pmmGetFreeFrameCount s.pmm :=
    hgrown.taken
  have hend : t.heapEnd = s.heapEnd + 4096 * frames.length := hgrown.heapEnd
  have htop : t.heapTop = s.alignedTop := hgrown.heapTop
  have hmax := h.top_le_max.2
  have hle := h.alignedTop_le.2.1
  have hroom : s.heapNeed size ≤ t.heapEnd := by
    rcases hgrown.enough with henough | hnone
    · exact henough
    · omega
  rw [if_pos hroom] at hmalloc
  have hp := (mallocCarve_ok (hmalloc.symm.trans hrun)).1
  unfold sizeofBlockHeader at hp
  omega

theorem SpelledHeap.failureFree_of_none (h : SpelledHeap s g free) (hpos : size ≠ 0)
    (hsmall : ∀ b ∈ free, s.word g b < size) (hnone : pmmGetFreeFrameCount s.pmm = 0) :
    FailureFree s g free size := by
  intro s' hrun
  obtain ⟨frames, t, hgrown, hspelled, hmalloc⟩ := h.malloc_low hpos hsmall (.inr (by omega))
  have htaken : pmmGetFreeFrameCount t.pmm + frames.length = pmmGetFreeFrameCount s.pmm :=
    hgrown.taken
  obtain rfl : frames = [] := List.length_eq_zero_iff.mp (by omega)
  rw [Layout.extend_nil] at hspelled
  by_cases hroom : s.heapNeed size ≤ t.heapEnd
  · have htop : t.heapTop = s.alignedTop := hgrown.heapTop
    have hmax := h.top_le_max.2
    have hle := h.alignedTop_le.2.1
    rw [if_pos hroom] at hmalloc
    have hp := (mallocCarve_ok (hmalloc.symm.trans hrun)).1
    unfold sizeofBlockHeader at hp
    omega
  · rw [if_neg hroom] at hmalloc
    have hresult := hmalloc.symm.trans hrun
    cases hresult
    refine ⟨htaken, hgrown.heapEnd, hspelled.spells, .inr hgrown.heapTop, ?_⟩
    intro va b hlow hhigh hload
    have htop := h.top_le
    have hend := h.end_eq
    have hin : g.InHeap va := ⟨hlow, by omega⟩
    have hlt := h.space.inHeap_lt hin
    rw [load8_eq (h.space.translate_phys h.dir hlt)] at hload
    cases hload
    rw [load8_eq (hspelled.space.translate_phys hspelled.dir hlt)]
    exact congrArg (fun b => EStateM.Result.ok b s') (hgrown.bytes va hin)

/-- While the heap stays below 4 MiB, a failed request costs nothing if and only if it asks for
nothing, a block fits, no frame is free, or the frames are enough. Past 4 MiB no failed request
is for free. -/
theorem malloc_failure_free_iff {s : Machine} {g : Layout} {free : List ℕ} {size : ℕ}
    (h : SpelledHeap s g free) :
    (GrowsLow s size → (FailureFree s g free size ↔
      size = 0 ∨ SomeFits s free size ∨ pmmGetFreeFrameCount s.pmm = 0 ∨
        s.heapNeed size ≤ s.heapEnd + 4096 * pmmGetFreeFrameCount s.pmm)) ∧
    (¬GrowsLow s size → size ≠ 0 → ¬SomeFits s free size →
      (FailureFree s g free size ↔ ∀ s', malloc size s ≠ .ok 0 s')) := by
  constructor
  · intro hlow
    by_cases hpos : size = 0
    · refine ⟨fun _ => .inl hpos, fun _ s' hrun => ?_⟩
      have hnull : malloc size s = .ok 0 s := by
        unfold malloc
        rw [if_pos hpos]
        rfl
      rw [hnull] at hrun
      cases hrun
      exact ⟨rfl, rfl, h.spells, .inl rfl, fun _ _ _ _ hload => hload⟩
    · by_cases hfits : SomeFits s free size
      · exact ⟨fun _ => .inr (.inl hfits),
          fun _ => failureFree_of_ne (h.malloc_ne_zero_of_fits hpos hfits)⟩
      · have hsmall := h.words_lt_of_not_fits hfits
        constructor
        · intro hfailure
          by_contra hcost
          push Not at hcost
          obtain ⟨-, -, hfree, hframes⟩ := hcost
          obtain ⟨frames, t, hgrown, -, hmalloc⟩ := h.malloc_low hpos hsmall hlow
          have htaken : pmmGetFreeFrameCount t.pmm + frames.length =
              pmmGetFreeFrameCount s.pmm := hgrown.taken
          have hend : t.heapEnd = s.heapEnd + 4096 * frames.length := hgrown.heapEnd
          rw [if_neg (by omega)] at hmalloc
          have hlt := h.free_lt_of_null hpos hsmall hfree hmalloc
          have hsame := (hfailure t hmalloc).1
          omega
        · rintro (hzero | hfits' | hnone | hframes)
          · exact absurd hzero hpos
          · exact absurd hfits' hfits
          · exact h.failureFree_of_none hpos hsmall hnone
          · exact failureFree_of_ne (h.malloc_ne_zero_of_frames hpos hsmall hlow hframes)
  · intro hlow hpos hfits
    have hsmall := h.words_lt_of_not_fits hfits
    have hfree : pmmGetFreeFrameCount s.pmm ≠ 0 := fun hzero => hlow (.inr (by omega))
    refine ⟨fun hfailure s' hrun => ?_, failureFree_of_ne⟩
    have hlt := h.free_lt_of_null hpos hsmall hfree hrun
    have hsame := (hfailure s' hrun).1
    omega

/-! A kernel that ends at 128 KiB, with one frame left. -/

theorem SpelledHeap.taken (h : SpelledHeap s g free) (hne : (pmmAllocFrame s.pmm).1 ≠ 0) :
    SpelledHeap { s with pmm := (pmmAllocFrame s.pmm).2 } (g.take (pmmAllocFrame s.pmm).1) free :=
  h.of_freeList (h.space.alloc hne s.trace) h.dir h.end_eq (Nat.le_refl _) h.top_le rfl
    (List.Sublist.refl free)
    ⟨fun _ ha => ⟨(h.bounds ha).1, (h.bounds ha).2.1, (h.bounds ha).2.2.1⟩, h.apart, h.linked⟩

theorem SpelledHeap.exists_taken (h : SpelledHeap s g free) {k : ℕ}
    (hk : k ≤ pmmGetFreeFrameCount s.pmm) :
    ∃ s' g', SpelledHeap s' g' free ∧ pmmGetFreeFrameCount s'.pmm = k ∧ s'.heapTop = s.heapTop ∧
      s'.heapEnd = s.heapEnd := by
  obtain ⟨n, hn⟩ : ∃ n, pmmGetFreeFrameCount s.pmm = k + n := ⟨_, (Nat.add_sub_cancel' hk).symm⟩
  clear hk
  induction n generalizing s g with
  | zero => exact ⟨s, g, h, hn, rfl, rfl⟩
  | succ n ih =>
      have hne : (pmmAllocFrame s.pmm).1 ≠ 0 := by
        rw [ne_eq, h.space.alloc_null_iff]
        omega
      have hcount := pmmGetFreeFrameCount_alloc hne
      obtain ⟨s', g', hspelled, hleft, htop, hend⟩ := ih (h.taken hne) (by simp only; omega)
      exact ⟨s', g', hspelled, hleft, htop, hend⟩

theorem exists_one_frame_left : ∃ s g, SpelledHeap s g [] ∧ pmmGetFreeFrameCount s.pmm = 1 ∧
    s.heapTop = 135168 ∧ s.heapEnd = 139264 := by
  obtain ⟨s₀, -, hboot, -⟩ := bootMemory_booted (fun _ => 0) (fun _ _ => 0) (fun _ => 0)
    (fun _ => 0#32) 131072 (by decide)
  have hpage : ((131072 : UInt32).toNat + 4607) / 4096 = 33 := by decide
  rw [hpage] at hboot
  have hfree := hboot.linear.free_count
  obtain ⟨s, g, hspelled, hleft, htop, hend⟩ :=
    (hboot.spelled (by decide)).exists_taken (k := 1) (by omega)
  exact ⟨s, g, hspelled, hleft, htop.trans hboot.heapTop, hend.trans hboot.heap.end_eq⟩

/-- A request of 4 KiB is then served, so it is not a failure that costs anything. -/
theorem malloc_failure_free_page : ∃ s g, SpelledHeap s g [] ∧ FailureFree s g [] 4096 := by
  obtain ⟨s, g, hspelled, hleft, htop, hend⟩ := exists_one_frame_left
  have hneed : s.heapNeed 4096 = 139272 := by
    unfold Machine.heapNeed Machine.alignedTop sizeofBlockHeader
    omega
  exact ⟨s, g, hspelled, ((malloc_failure_free_iff hspelled).1 (.inl (by omega))).mpr
    (.inr (.inr (.inr (by omega))))⟩

/-- A request of 8 KiB fails, and the last frame is gone. -/
theorem malloc_failure_takes_frame :
    ¬∀ (s : Machine) (g : Layout) (free : List ℕ) (size : ℕ), SpelledHeap s g free →
      FailureFree s g free size := by
  intro h
  obtain ⟨s, g, hspelled, hleft, htop, hend⟩ := exists_one_frame_left
  have hneed : s.heapNeed 8192 = 143368 := by
    unfold Machine.heapNeed Machine.alignedTop sizeofBlockHeader
    omega
  obtain ⟨frames, t, hgrown, -, hmalloc⟩ := hspelled.malloc_low
    (show 8192 ≠ 0 by decide) (by simp)
    (.inl (by omega))
  have htaken : pmmGetFreeFrameCount t.pmm + frames.length = pmmGetFreeFrameCount s.pmm :=
    hgrown.taken
  have hend' : t.heapEnd = s.heapEnd + 4096 * frames.length := hgrown.heapEnd
  rw [if_neg (by omega)] at hmalloc
  have hlt := hspelled.free_lt_of_null (by decide) (by simp) (by omega) hmalloc
  have hsame := (h s g [] 8192 hspelled t hmalloc).1
  omega

end MyOS
