import MyOS.Verification.Fs.FsState

/-! The windows of the file system: pages are mapped for the FAT and for the root directory, and
the sectors of both are read into them. -/

namespace MyOS

open Effect X86Paging ByteMemory PageTables Ownership BlockHeap

variable {disk : ℕ → ℕ → UInt8} {page n : ℕ} {s s' : Machine}

theorem FsState.mapPage (h : FsState disk page n s) (hpage : page < 768) (hn : n < 256) :
    ∃ m p, allocFrame s = .ok ((page + 6 + n) * 4096) { s with pmm := p } ∧
      pagingMapPage s.kernelDirectory (4096 * (768 + n)) ((page + 6 + n) * 4096)
          (pagingFlagPresent ||| pagingFlagRw) { s with pmm := p } =
        .ok () { s with pmm := p, mem := m } ∧
      FsState disk page (n + 1) { s with pmm := p, mem := m } ∧
      ∀ o, m (windowAt page o) = s.mem (windowAt page o) := by
  obtain ⟨haddr, hlinear⟩ := h.linear.alloc (by omega)
  have hne : (pmmAllocFrame s.pmm).1 ≠ 0 := by
    rw [haddr]
    omega
  have hlen := fsLayout_windows_length page n
  obtain ⟨m, hmap, hspace, hkept, hout⟩ := h.space.growWindowPage h.isDir
    (show page + 1 ≤ 768 by omega) (by rw [hlen]; unfold windowPage; omega) hne s.kernelDirectory
  rw [hlen, haddr] at hmap
  rw [haddr, ← fsLayout_succ] at hspace
  have halloc := allocFrame_eq hne
  rw [haddr] at halloc
  refine ⟨m, (pmmAllocFrame s.pmm).2, halloc, hmap,
    ⟨hspace, ?_, hlinear, h.cr3, h.disk_eq, h.bpb, ?_⟩, ?_⟩
  · have hsame : ∀ va, (fsLayout page n).InHeap va →
        (fsLayout page (n + 1)).phys va = (fsLayout page n).phys va := by
      intro va hva
      obtain ⟨hlow, hhigh⟩ := fsLayout_inHeap.mp hva
      have hva' : va = 4096 * page + (va - 4096 * page) := by omega
      rw [hva', fsLayout_phys _ _ (by omega), fsLayout_phys _ _ (by omega)]
    refine HeapInvariant.of_kept (s := s)
      ⟨h.heap.end_eq, h.heap.top_le, h.heap.heap.congr ?_⟩ rfl rfl rfl ?_
    · intro b hb
      obtain ⟨h1, h2, -, -, -⟩ := h.heap.block_bounds hb
      unfold Machine.word
      rw [hsame _ h1, hsame _ h2]
      exact ⟨rfl, rfl⟩
    · intro va hva
      rw [hsame va hva]
      exact hkept va hva
  · intro i hi
    rw [← h.block i hi]
    unfold sizeofBpb at hi
    have hphys := fsLayout_phys page n (show 8 + i < 4096 by omega)
    rw [Nat.add_assoc, ← hphys]
    exact hkept _ (fsLayout_inHeap.mpr ⟨by omega, by omega⟩)
  · intro o
    refine hout _ (.inr ?_)
    change (page + 3) * 4096 + 4096 ≤ windowAt page o
    unfold windowAt
    omega

theorem FsState.mapWindow (h : FsState disk page n s) (hpage : page < 768) {count : ℕ}
    (hcount : n + count ≤ 256) :
    ∃ m p, MyOS.mapWindow (4096 * (768 + n)) count s = .ok () { s with pmm := p, mem := m } ∧
      FsState disk page (n + count) { s with pmm := p, mem := m } ∧
      ∀ o, m (windowAt page o) = s.mem (windowAt page o) := by
  let inv : ℕ → Machine → Prop := fun i t =>
    ∃ m p, t = { s with pmm := p, mem := m } ∧ FsState disk page (n + i) t ∧
      ∀ o, m (windowAt page o) = s.mem (windowAt page o)
  have hstep : ∀ i t, i < count → inv i t → ∃ t',
      (do
        let physFrame ← allocFrame
        let kernelDirectory := (← get).kernelDirectory
        pagingMapPage kernelDirectory ((4096 * (768 + n) + i * pmmFrameSize) % 2 ^ 32) physFrame
          (pagingFlagPresent ||| pagingFlagRw) : Kernel Unit) t = .ok () t' ∧ inv (i + 1) t' := by
    intro i t hi ht
    obtain ⟨m, p, rfl, hfs, hkept⟩ := ht
    obtain ⟨m', p', halloc, hmap, hfs', hkept'⟩ := hfs.mapPage hpage (by omega)
    have hva : (4096 * (768 + n) + i * pmmFrameSize) % 2 ^ 32 = 4096 * (768 + (n + i)) := by
      unfold pmmFrameSize
      omega
    refine ⟨_, ?_, m', p', rfl, hfs', fun o => (hkept' o).trans (hkept o)⟩
    rw [bind_of_ok halloc, bind_of_ok (get_apply _), hva]
    exact hmap
  obtain ⟨t, hrun, m, p, rfl, hfs, hkept⟩ :=
    forRange_total inv hstep ⟨s.mem, s.pmm, rfl, h, fun _ => rfl⟩
  exact ⟨m, p, hrun, hfs, hkept⟩

/-- The FAT is read into its window, from sector `i` of it on. -/
theorem FsState.readFat (hfits : WindowsFit disk) (hpage : page < 768)
    (hn : fatPages disk ≤ n) (hn' : n ≤ 256) (fuel : ℕ) :
    ∀ i s, FsState disk page n s → s.fatBuffer = fatVirtAddr → bpbWord disk 22 ≤ i + fuel →
      ∃ m dma, MyOS.readFat fuel i s = .ok () { s with mem := m, dmaBuffer := dma } ∧
        FsState disk page n { s with mem := m, dmaBuffer := dma } ∧
        (∀ j, i ≤ j → j < bpbWord disk 22 → ∀ k < 512,
          m (windowAt page (j * bpbWord disk 11 + k)) = disk ((bpbWord disk 14 + j) % 2 ^ 28) k) ∧
        ∀ o < i * bpbWord disk 11, m (windowAt page o) = s.mem (windowAt page o) := by
  have hsector := hfits.sector
  induction fuel with
  | zero =>
      intro i s h _ hall
      exact ⟨s.mem, s.dmaBuffer, rfl, h, fun j hj hj' => by omega, fun _ _ => rfl⟩
  | succ fuel ih =>
      intro i s h hbuf hall
      unfold MyOS.readFat
      rw [bind_of_ok (get_apply s), bind_of_ok (h.load16 (by omega) (show 22 + 1 < 36 by decide))]
      by_cases hi : i < bpbWord disk 22
      · have hbytes : i * bpbWord disk 11 + bpbWord disk 11 ≤ bpbWord disk 22 * bpbWord disk 11 := by
          have := Nat.mul_le_mul_right (bpbWord disk 11) hi
          rwa [Nat.succ_mul] at this
        have hpages : bpbWord disk 22 * bpbWord disk 11 ≤ 4096 * fatPages disk := by
          unfold fatPages
          omega
        have hva : s.fatBuffer + i * bpbWord disk 11 = 4096 * 768 + i * bpbWord disk 11 := by
          rw [hbuf]
          rfl
        obtain ⟨m, dma, hread, hfs, hin, hout⟩ := h.readDiskSectorTo hpage hn' (bpbWord disk 14 + i)
          (show i * bpbWord disk 11 + 512 ≤ 4096 * n by omega)
        obtain ⟨m', dma', hrest, hfs', hin', hout'⟩ := ih (i + 1) _ hfs hbuf (by omega)
        refine ⟨m', dma', ?_, hfs', ?_, ?_⟩
        · rw [if_pos hi, bind_of_ok (h.load16 (by omega) (show 14 + 1 < 36 by decide)),
            bind_of_ok (h.load16 (by omega) (show 11 + 1 < 36 by decide)), hva, bind_of_ok hread]
          exact hrest
        · intro j hj hj' k hk
          by_cases hji : j = i
          · rw [hji, ← hin k hk]
            exact hout' _ (by rw [Nat.succ_mul]; omega)
          · exact hin' j (by omega) hj' k hk
        · intro o ho
          exact (hout' o (by rw [Nat.succ_mul]; omega)).trans (hout o (.inl ho))
      · rw [if_neg hi]
        exact ⟨s.mem, s.dmaBuffer, rfl, h, fun j hj hj' => by omega, fun _ _ => rfl⟩

/-- The bytes of the FAT window are those of the FAT's sectors. -/
def FatMirrored (disk : ℕ → ℕ → UInt8) (page : ℕ) (m : ByteMemory) : Prop :=
  ∀ j < bpbWord disk 22, ∀ k < 512,
    m (windowAt page (j * bpbWord disk 11 + k)) = disk ((bpbWord disk 14 + j) % 2 ^ 28) k

theorem FsState.initFat (h : FsState disk page 0 s) (hfits : WindowsFit disk) (hpage : page < 768) :
    ∃ s', MyOS.initFat s = .ok (fatPages disk) s' ∧ FsState disk page (fatPages disk) s' ∧
      s'.fatBuffer = fatVirtAddr ∧ FatMirrored disk page s'.mem := by
  have hbelow := hfits.below
  unfold windowPages at hbelow
  have hpages : (bpbWord disk 22 * bpbWord disk 11 + pmmFrameSize - 1) % 2 ^ 32 / pmmFrameSize =
      fatPages disk := by
    have hprod : bpbWord disk 22 * bpbWord disk 11 ≤ 65535 * 65535 :=
      Nat.mul_le_mul (Nat.le_of_lt_succ (bpbWord_lt disk 22)) (Nat.le_of_lt_succ (bpbWord_lt disk 11))
    unfold fatPages pmmFrameSize
    rw [Nat.mod_eq_of_lt (by omega)]
    rfl
  obtain ⟨m, p, hmap, hfs, -⟩ := FsState.mapWindow (s := { s with fatBuffer := fatVirtAddr })
    (h.same rfl rfl rfl rfl rfl rfl rfl rfl rfl rfl) hpage (show 0 + fatPages disk ≤ 256 by omega)
  rw [Nat.zero_add] at hfs
  have hfuel := bpbWord_lt disk 22
  obtain ⟨m', dma, hread, hfs', hin, -⟩ :=
    FsState.readFat hfits hpage le_rfl (by omega) (2 ^ 16) 0 _ hfs rfl (by omega)
  refine ⟨_, ?_, hfs', rfl, fun j hj k hk => hin j (Nat.zero_le _) hj k hk⟩
  unfold MyOS.initFat
  rw [bind_of_ok (get_apply s), bind_of_ok (h.load16 (by omega) (show 22 + 1 < 36 by decide)),
    bind_of_ok (h.load16 (by omega) (show 11 + 1 < 36 by decide))]
  simp only [hpages]
  have hfat : 4096 * (768 + 0) = fatVirtAddr := rfl
  rw [hfat] at hmap
  rw [bind_of_ok (modify_apply _ s), bind_of_ok hmap, bind_of_ok hread]
  rfl

/-- `root_dir_start_sector` -/
def rootDirStart (disk : ℕ → ℕ → UInt8) : ℕ :=
  bpbWord disk 14 + (disk 0 16).toNat * bpbWord disk 22

/-- What `init_fs` leaves behind: its variables, and the sectors in the windows. -/
structure FsCaches (disk : ℕ → ℕ → UInt8) (page : ℕ) (s : Machine) : Prop where
  fatBuffer : s.fatBuffer = fatVirtAddr
  rootDirectoryBuffer : s.rootDirectoryBuffer = 4096 * (768 + fatPages disk)
  rootDirectorySize : s.rootDirectorySize = bpbWord disk 17 * sizeofFatDirEntry
  dataAreaStartSector : s.dataAreaStartSector = rootDirStart disk + rootDirSectors disk
  fat : FatMirrored disk page s.mem
  rootDirectory : ∀ j < rootDirSectors disk, ∀ k < 512,
    s.mem (windowAt page (4096 * fatPages disk + j * 512 + k)) =
      disk ((rootDirStart disk + j) % 2 ^ 28) k

theorem FsState.readRootDirectory (hfits : WindowsFit disk) (hpage : page < 768)
    (h : FsState disk page (windowPages disk) s) :
    ∃ m dma, forRange (rootDirSectors disk) (fun i => MyOS.readDiskSectorTo (rootDirStart disk + i)
          (4096 * (768 + fatPages disk) + i * 512)) s =
        .ok () { s with mem := m, dmaBuffer := dma } ∧
      FsState disk page (windowPages disk) { s with mem := m, dmaBuffer := dma } ∧
      (∀ j < rootDirSectors disk, ∀ k < 512,
        m (windowAt page (4096 * fatPages disk + j * 512 + k)) =
          disk ((rootDirStart disk + j) % 2 ^ 28) k) ∧
      ∀ o < 4096 * fatPages disk, m (windowAt page o) = s.mem (windowAt page o) := by
  obtain ⟨inv, hinv⟩ : ∃ inv : ℕ → Machine → Prop, inv = fun i t =>
      ∃ m dma, t = { s with mem := m, dmaBuffer := dma } ∧
        FsState disk page (windowPages disk) t ∧
        (∀ j < i, ∀ k < 512, m (windowAt page (4096 * fatPages disk + j * 512 + k)) =
          disk ((rootDirStart disk + j) % 2 ^ 28) k) ∧
        ∀ o < 4096 * fatPages disk, m (windowAt page o) = s.mem (windowAt page o) := ⟨_, rfl⟩
  have hstep : ∀ i t, i < rootDirSectors disk → inv i t → ∃ t',
      MyOS.readDiskSectorTo (rootDirStart disk + i) (4096 * (768 + fatPages disk) + i * 512) t =
        .ok () t' ∧ inv (i + 1) t' := by
    intro i t hi ht
    rw [hinv] at ht ⊢
    obtain ⟨m, dma, rfl, hfs, hin, hout⟩ := ht
    have hroom : 4096 * fatPages disk + i * 512 + 512 ≤ 4096 * windowPages disk := by
      unfold windowPages rootPages
      omega
    obtain ⟨m', dma', hread, hfs', hin', hout'⟩ := hfs.readDiskSectorTo hpage hfits.below
      (rootDirStart disk + i) hroom
    have hva : 4096 * (768 + fatPages disk) + i * 512 =
        4096 * 768 + (4096 * fatPages disk + i * 512) := by omega
    refine ⟨_, by rw [hva]; exact hread, m', dma', rfl, hfs', ?_, ?_⟩
    · intro j hj k hk
      by_cases hji : j = i
      · rw [hji]
        exact hin' k hk
      · exact (hout' _ (.inl (by omega))).trans (hin j (by omega) k hk)
    · intro o ho
      exact (hout' o (.inl (by omega))).trans (hout o ho)
  have hstart : inv 0 s := by
    rw [hinv]
    exact ⟨s.mem, s.dmaBuffer, rfl, h, fun j hj => by omega, fun _ _ => rfl⟩
  obtain ⟨t, hrun, ht⟩ := forRange_total inv hstep hstart
  rw [hinv] at ht
  obtain ⟨m, dma, rfl, hfs, hin, hout⟩ := ht
  exact ⟨m, dma, hrun, hfs, hin, hout⟩

theorem FsState.initRootDirectory (h : FsState disk page (fatPages disk) s)
    (hfits : WindowsFit disk) (hpage : page < 768) (hfat : s.fatBuffer = fatVirtAddr)
    (hmirror : FatMirrored disk page s.mem) :
    ∃ s', MyOS.initRootDirectory (fatPages disk) s = .ok () s' ∧
      FsState disk page (windowPages disk) s' ∧ FsCaches disk page s' := by
  have hbelow : fatPages disk + rootPages disk ≤ 256 := hfits.below
  have hsector := hfits.sector
  have hva : (fatVirtAddr + fatPages disk * pmmFrameSize) % 2 ^ 32 =
      4096 * (768 + fatPages disk) := by
    unfold fatVirtAddr pmmFrameSize
    omega
  have hsectors : (bpbWord disk 17 * sizeofFatDirEntry + bpbWord disk 11 - 1) /
      bpbWord disk 11 = rootDirSectors disk := rfl
  have hpages : (rootDirSectors disk * 512 + pmmFrameSize - 1) / pmmFrameSize = rootPages disk := rfl
  have hstart : bpbWord disk 14 + (disk 0 16).toNat * bpbWord disk 22 = rootDirStart disk := rfl
  obtain ⟨m, p, hmap, hfs, hkept⟩ := FsState.mapWindow
    (s := { s with
      rootDirectorySize := bpbWord disk 17 * sizeofFatDirEntry
      rootDirectoryBuffer := 4096 * (768 + fatPages disk) })
    (h.same rfl rfl rfl rfl rfl rfl rfl rfl rfl rfl) hpage hbelow
  obtain ⟨m', dma, hrun, hfs', hin, hout⟩ := FsState.readRootDirectory hfits hpage hfs
  refine ⟨{ s with
      rootDirectorySize := bpbWord disk 17 * sizeofFatDirEntry
      rootDirectoryBuffer := 4096 * (768 + fatPages disk)
      dataAreaStartSector := rootDirStart disk + rootDirSectors disk
      pmm := p, mem := m', dmaBuffer := dma }, ?_,
    hfs'.same rfl rfl rfl rfl rfl rfl rfl rfl rfl rfl, ⟨hfat, rfl, rfl, rfl, ?_, hin⟩⟩
  · have hbps : FsState disk page (fatPages disk)
        { s with rootDirectorySize := bpbWord disk 17 * sizeofFatDirEntry } :=
      h.same rfl rfl rfl rfl rfl rfl rfl rfl rfl rfl
    unfold MyOS.initRootDirectory
    rw [bind_of_ok (get_apply s), bind_of_ok (h.load16 (by omega) (show 14 + 1 < 36 by decide)),
      bind_of_ok (h.load8 (by omega) (show 16 < 36 by decide)),
      bind_of_ok (h.load16 (by omega) (show 22 + 1 < 36 by decide)),
      bind_of_ok (h.load16 (by omega) (show 17 + 1 < 36 by decide)), bind_of_ok (modify_apply _ s),
      bind_of_ok (hbps.load16 (by omega) (show 11 + 1 < 36 by decide)), if_neg (by omega)]
    simp only [hva, hsectors, hpages, hstart]
    rw [bind_of_ok (modify_apply _ _), bind_of_ok hmap, bind_of_ok hrun]
    rfl
  · intro j hj k hk
    have hbytes : j * bpbWord disk 11 + bpbWord disk 11 ≤ bpbWord disk 22 * bpbWord disk 11 := by
      have := Nat.mul_le_mul_right (bpbWord disk 11) hj
      rwa [Nat.succ_mul] at this
    have hinside : j * bpbWord disk 11 + k < 4096 * fatPages disk := by
      unfold fatPages
      omega
    exact ((hout _ hinside).trans (hkept _)).trans (hmirror j hj k hk)

end MyOS
