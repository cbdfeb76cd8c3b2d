import MyOS.Verification.Fs.FileDisk

/-! A machine whose heap ends where the windows begin, and the request that takes the first page
of the FAT: from then on the driver reads there what the new frame holds. -/

namespace MyOS

open Effect X86Paging ByteMemory PageTables Ownership BlockHeap Orbit

/-- The heap of a machine with a file is used up to 520 bytes below the windows, and every byte of
a frame that is not in use is `0xFF`. -/
structure FullMachine (f : DiskFile) (g : Layout) (v : HeapView) (s : Machine) : Prop where
  heap : DriverHeap s 4 g v
  mounted : Mounted s 4 (diskFat f.disk) (diskGeometry f.disk)
  file : FileEntry s 0x302000 f.size 2
  top : s.alignedTop = 0x2FFDF8
  heapEnd : s.heapEnd = 0x300000
  free : v.free = []
  frames : pmmGetFreeFrameCount s.pmm ≠ 0
  marked : ∀ x, (∀ o a, g.Owns o a → x < a ∨ a + 4096 ≤ x) → s.mem x = 0xFF
  disk : s.disk = f.disk
  dataArea : s.dataAreaStartSector = 182

variable {f : DiskFile} {s : Machine} {g : Layout} {v : HeapView}

theorem DriverHeap.not_fits {n : ℕ} (h : DriverHeap s n g v) (hfree : v.free = []) (size : ℕ) :
    ¬FreeBlockFits s size := by
  rw [(h.heap.spelled h.space (.inl h.cr3)).freeBlockFits_iff, hfree]
  simp

/-- Every frame that nobody owns is marked. -/
theorem exists_marked (g : Layout) (mem : ByteMemory) : ∃ m : ByteMemory,
    (∀ x, (∃ o a, g.Owns o a ∧ a ≤ x ∧ x < a + 4096) → m x = mem x) ∧
      ∀ x, (¬∃ o a, g.Owns o a ∧ a ≤ x ∧ x < a + 4096) → m x = 0xFF := by
  classical
  exact ⟨fun x => if ∃ o a, g.Owns o a ∧ a ≤ x ∧ x < a + 4096 then mem x else 0xFF,
    fun x hx => if_pos hx, fun x hx => if_neg hx⟩

theorem exists_fullMachine (f : DiskFile) (hsize : f.size < 2 ^ 16) :
    ∃ s g v, FullMachine f g v s := by
  obtain ⟨s, hs⟩ := exists_fileMachine f
  have hentry := hs.fileEntry hsize
  have hcached := hs.entryCached
  rw [hs.rootDirectoryBuffer] at hentry hcached
  have hheap : DriverHeap s 4 (fsLayout 33 4) (fsView 33) :=
    ⟨⟨hs.fs.space, hs.fs.heap, hs.fs.cr3⟩, rfl, by omega, _, hs.fs.bpb, List.mem_singleton.mpr rfl⟩
  have hfits := hheap.not_fits rfl 3009988
  have halign := hs.alignedTop
  have hbelow : BelowWindows s 3009988 := hs.belowWindows (by omega)
  obtain ⟨p, s₁, frames, v₁, hrun, hm⟩ := hheap.malloc_low (show 3009988 ≠ 0 by omega)
    (.inr (by rw [halign]; unfold sizeofBlockHeader; omega))
  obtain ⟨q, s₂, hrun', hroom, hmounted, -, hserves⟩ :=
    hs.mounted.toMounted.malloc (show 3009988 ≠ 0 by omega) hbelow
  rw [hrun] at hrun'
  obtain ⟨rfl, rfl⟩ := EStateM.Result.ok.inj hrun'
  have hp : p ≠ 0 := hroom.mpr (hs.hasRoom (by omega))
  have hserved := hserves _ hcached hp
  obtain ⟨hbpb, -, hdisk, hstart, -⟩ := hserved.driver
  obtain ⟨hplace, htop⟩ := hm.carved hfits hp
  rw [halign] at hplace
  have hheap₁ := hheap.malloced hm hbpb
  have hend : s.heapEnd = 139264 := hs.fs.heap.end_eq
  have hend₁ : s₁.heapEnd = 4096 * (33 + (1 + frames.length)) := by
    have hcount := hheap₁.heap.end_eq
    change s₁.heapEnd = 4096 * (33 + ([_] ++ frames).length) at hcount
    rwa [List.length_append] at hcount
  have hle := hheap₁.heap.top_le
  have hlength : frames.length = 734 := by
    unfold sizeofBlockHeader at hplace
    by_cases hlong : 734 < frames.length
    · have hneeded := hm.needed 734 hlong
      unfold sizeofBlockHeader at hneeded
      omega
    · omega
  obtain ⟨m, hkept, hmarked⟩ := exists_marked ((fsLayout 33 4).extend frames) s₁.mem
  obtain ⟨hdriver, hcells⟩ := hheap₁.of_owned (m := m) fun o a ho i hi =>
    hkept _ ⟨o, a, ho, by omega, by omega⟩
  refine ⟨_, _, _, hdriver, hmounted.of_kept ⟨_, _, hdriver⟩ rfl rfl hcells, ?_, ?_, ?_, ?_, ?_, ?_,
    hdisk.trans hs.fs.disk_eq, hstart.trans ?_⟩
  · exact (hserved.fileEntry hentry).of_kept hcached hcells
  · unfold sizeofBlockHeader at hplace
    change (s₁.heapTop + 3) / 4 * 4 = _
    omega
  · change s₁.heapEnd = _
    omega
  · exact hm.free_eq hfits (by rw [halign, hs.heapTop])
  · change pmmGetFreeFrameCount s₁.pmm ≠ 0
    have htaken := hm.taken
    rw [hs.frames_free] at htaken
    omega
  · intro x hx
    refine hmarked x ?_
    rintro ⟨o, a, ho, hlow, hhigh⟩
    have hout := hx o a ho
    omega
  · rw [hs.caches.dataAreaStartSector]
    exact (by decide : rootDirStart bootDisk + rootDirSectors bootDisk = 182)

theorem Layout.owns_extend {frames : List ℕ} {o : Owner} {a : ℕ} (h : g.Owns o a) :
    (g.extend frames).Owns o a := by
  cases o with
  | heap k =>
      have hk : g.heap[k]? = some a := h
      change (g.heap ++ frames)[k]? = some a
      rw [List.getElem?_append_left (List.getElem?_eq_some_iff.mp hk).1]
      exact hk
  | _ => exact h

/-- The heap's new page is the first of the windows. -/
structure WindowTaken (s : Machine) (g : Layout) (v : HeapView) (a : ℕ) (t : Machine)
    (v' : HeapView) : Prop where
  run : malloc 600 s = .ok 0x2FFE00 t
  malloced : Malloced s g v 600 0x2FFE00 t [a] v'
  heapPage : g.heapPage + g.heap.length = 768
  driver : t.bpb = s.bpb ∧ t.fatBuffer = s.fatBuffer ∧ t.disk = s.disk ∧
    t.dataAreaStartSector = s.dataAreaStartSector

theorem FullMachine.malloc (h : FullMachine f g v s) : ∃ a t v', WindowTaken s g v a t v' := by
  have hfits := h.heap.not_fits h.free 600
  have htop := h.top
  have hroom : HasRoom s 600 := by
    have := h.frames
    refine .inr ?_
    rw [htop, h.heapEnd]
    unfold sizeofBlockHeader
    omega
  obtain ⟨p, t, frames, v', hrun, hm⟩ := h.heap.malloc_low (show 600 ≠ 0 by omega)
    (.inr (by rw [htop]; unfold sizeofBlockHeader; omega))
  have hdriver := (heapBlind_driver.malloc 600).ok hrun
  simp only [Prod.mk.injEq] at hdriver
  obtain ⟨hbpb, hfat, hdisk, hstart, -⟩ := hdriver
  obtain ⟨hplace, htop'⟩ := hm.carved hfits (hm.served.mpr hroom)
  rw [htop] at hplace
  obtain rfl : p = 0x2FFE00 := hplace
  have hpage : s.heapEnd = 4096 * (g.heapPage + g.heap.length) := h.heap.heap.end_eq
  rw [h.heapEnd] at hpage
  have hend : t.heapEnd = 4096 * (g.heapPage + (g.heap ++ frames).length) := hm.heap.heap.end_eq
  rw [List.length_append] at hend
  have hle := hm.heap.heap.top_le
  have hlength : frames.length = 1 := by
    by_cases hlong : 1 < frames.length
    · have := hm.needed 1 hlong
      rw [h.heapEnd, htop] at this
      unfold sizeofBlockHeader at this
      omega
    · omega
  obtain ⟨a, rfl⟩ := List.length_eq_one_iff.mp hlength
  exact ⟨a, t, v', hrun, hm, by omega, hbpb, hfat, hdisk, hstart⟩

variable {a : ℕ} {t : Machine} {v' : HeapView}

theorem WindowTaken.phys (h : WindowTaken s g v a t v') {o : ℕ} (ho : o < 4096) :
    (g.extend [a]).phys (0x300000 + o) = a + o := by
  have hpage := h.heapPage
  have hframe : (g.extend [a]).lowFrame 768 = a :=
    g.lowFrame_extend_new (by omega) (by rw [hpage]; rfl)
  unfold Layout.phys
  rw [show (0x300000 + o) / 4096 = 768 by omega, hframe]
  omega

/-- The frame was free. -/
theorem FullMachine.marked_frame (h : FullMachine f g v s) (hw : WindowTaken s g v a t v') {o : ℕ}
    (ho : o < 4096) : s.mem (a + o) = 0xFF := by
  have hspace := hw.malloced.heap.space
  have howner : (g.extend [a]).Owns (.heap g.heap.length) a := by
    change (g.heap ++ [a])[g.heap.length]? = some a
    simp
  refine h.marked _ ?_
  intro o' b hb
  have hne : b ≠ a := by
    by_cases hsame : o' = .heap g.heap.length
    · have hnone : g.heap[g.heap.length]? = some b := by
        rw [hsame] at hb
        exact hb
      simp at hnone
    · exact hspace.exact.ne_of_owner_ne (Layout.owns_extend hb) howner hsame
  have hba := (h.heap.space.frame_bounds hb).1
  have haa := (hspace.frame_bounds howner).1
  omega

/-- Where the block lies over the FAT, it holds what the frame held. -/
theorem FullMachine.block_marked (h : FullMachine f g v s) (hw : WindowTaken s g v a t v') {o : ℕ}
    (ho : o < 88) : t.mem (a + o) = 0xFF := by
  have h' := h.heap.malloced hw.malloced hw.driver.1
  have hcell : DriverCell t 4 (0x300000 + o) := by
    unfold DriverCell fatVirtAddr
    omega
  obtain ⟨c, hc, hlive⟩ := hw.malloced.mallocs.live (by omega)
  have hblock : (c, 600) ∈ v'.live := by
    rw [hlive]
    exact List.mem_cons_self
  have hbounds := h'.heap.live_bounds hblock (i := 512 + o) (by omega)
  rw [show c + 8 + (512 + o) = 0x300000 + o by omega] at hbounds
  rw [← h.marked_frame hw (show o < 4096 by omega), ← hw.phys (by omega)]
  refine hw.malloced.mem_eq (h'.cell_table hcell) ?_
  intro va hva heq
  have hne : 0x300000 + o ≠ va := by
    rintro rfl
    obtain ⟨b, hb, i, hi, hbi⟩ := hva
    have := hbounds.2 b hb
    omega
  exact h'.space.phys_inj hbounds.1 (h'.heap.inHeader hva) hne heq

/-- The parameter block and the rest of the windows are as they were. -/
theorem FullMachine.kept (h : FullMachine f g v s) (hw : WindowTaken s g v a t v') {va : ℕ} {b : UInt8}
    (hva : (∃ k < sizeofBpb, va = s.bpb + k) ∨ 0x301000 ≤ va ∧ va < 0x304000)
    (hload : load8 va s = .ok b s) : load8 va t = .ok b t := by
  have h' := h.heap.malloced hw.malloced hw.driver.1
  have hpage := hw.heapPage
  refine h.heap.cell_kept h' hw.driver.1 (fun x => h'.heap.inHeader) (fun x => hw.malloced.mem_eq) ?_
    ?_ ?_ hload
  · refine hva.imp id ?_
    unfold fatVirtAddr
    omega
  · rcases hva with ⟨k, hk, rfl⟩ | ⟨hlow, -⟩
    · exact phys_extend (h.heap.inHeap_bpb hk).1
    · unfold Layout.phys
      rw [g.lowFrame_extend_old (.inr (by simp only [List.length_singleton]; omega))]
  · intro hheader
    rcases hva with ⟨k, hk, rfl⟩ | ⟨hlow, -⟩
    · obtain ⟨b, hb, i, hi, heq⟩ := hheader
      have := (h'.inHeap_bpb hk).2 b hb
      rw [hw.driver.1] at this
      omega
    · have hhigh : va < 4096 * (g.heapPage + (g.heap ++ [a]).length) := (h'.heap.inHeader hheader).2
      rw [List.length_append, List.length_singleton] at hhigh
      omega

/-- What the driver takes for the FAT now. -/
theorem FullMachine.volume (h : FullMachine f g v s) (hw : WindowTaken s g v a t v') :
    FatVolume t (fun o => t.mem ((g.extend [a]).phys (0x300000 + o))) (diskGeometry f.disk) := by
  have h' := h.heap.malloced hw.malloced hw.driver.1
  have hfat : t.fatBuffer = 0x300000 := hw.driver.2.1.trans h.mounted.fatBuffer
  have hv := h.mounted.volume
  have hbpb : ∀ k < sizeofBpb, ∀ b, load8 (s.bpb + k) s = .ok b s → load8 (s.bpb + k) t = .ok b t :=
    fun k hk b => h.kept hw (.inl ⟨k, hk, rfl⟩)
  unfold sizeofBpb at hbpb
  have hfits := h.mounted.fat_fits
  refine ⟨⟨?_, ?_, ?_⟩, ?_⟩
  · rw [hw.driver.1]
    refine load16_transfer (fun k hk b hb => ?_) hv.fat_size
    rw [Nat.add_assoc] at hb ⊢
    exact hbpb _ (by omega) b hb
  · rw [hw.driver.1]
    refine load16_transfer (fun k hk b hb => ?_) hv.sector_size
    rw [Nat.add_assoc] at hb ⊢
    exact hbpb _ (by omega) b hb
  · intro o ho
    rw [hfat]
    refine load8_eq (h'.translate (.inr ?_))
    have ho : o < (diskGeometry f.disk).fatBytes := ho
    unfold fatVirtAddr
    omega
  · rw [hw.driver.1]
    exact hbpb _ (by omega) _ hv.cluster_size

/-- Below the windows the block is the caller's own. -/
theorem FullMachine.own (h : FullMachine f g v s) (hw : WindowTaken s g v a t v') :
    OwnMemory t (FatCell t (diskGeometry f.disk).fatBytes) 0x2FFE00 512 := by
  obtain ⟨hmapped, hapart, htables, hcells⟩ := h.heap.own hw.malloced hw.driver.1
    (show 0x2FFE00 ≠ 0 by omega) (show 512 ≤ 600 by omega) (by unfold fatVirtAddr; omega)
  refine ⟨hmapped, hapart, htables, ?_⟩
  intro i hi va hva
  refine hcells i hi va ?_
  rcases hva with hva | ⟨o, ho, rfl⟩
  · exact .inl hva
  · have hfat : t.fatBuffer = 0x300000 := hw.driver.2.1.trans h.mounted.fatBuffer
    have hfits := h.mounted.fat_fits
    refine .inr ?_
    rw [hfat]
    unfold fatVirtAddr
    omega

end MyOS
