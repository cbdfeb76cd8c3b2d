import MyOS.Verification.Fs.Windows

/-! `init_fs` after `init_memory`: the parameter block goes by way of a frame to the heap, then
the windows are set up as it says. -/

namespace MyOS

open Effect X86Paging ByteMemory PageTables Ownership BlockHeap

variable {disk : ℕ → ℕ → UInt8} {page n : ℕ} {s s' : Machine}

/-! ## The temporary buffer -/

/-- What the frame of the temporary buffer is good for: it is mapped to itself, and neither the
tables nor the heap lie in it. -/
theorem translate_loose {g : Layout} {a : ℕ} (h : KernelSpace s g) (hdir : g.IsDir s.cr3)
    (ha : g.loose a) (hlt : a < 2 ^ 22) (hheap : ¬g.InHeap a) (hwin : ¬g.InWindows a)
    {m : ByteMemory} (hm : ∀ x, x < a ∨ a + 4096 ≤ x → m x = s.mem x) {k : ℕ} (hk : k < 4096) :
    Machine.translate { s with mem := m } (a + k) = some (a + k) := by
  have hown : g.Owns (.loose a) a := ⟨rfl, ha⟩
  have haligned := (h.frame_bounds hown).1
  have hspace : KernelSpace { s with mem := m } g := by
    refine h.of_bytes ?_
    intro r f hf o ho
    have := h.outside hown (fun r => by cases r <;> simp [Layout.roleOwner]) hf
    exact hm _ (by omega)
  have hpage : (a + k) / 4096 = a / 4096 := by omega
  rw [hspace.translate_phys hdir (by omega), Layout.phys, hpage, g.lowFrame_identity hheap hwin]
  congr 1
  omega

/-- A sector read into a frame in hand. -/
theorem readDiskSectorTo_loose {g : Layout} {a : ℕ} (h : KernelSpace s g) (hdir : g.IsDir s.cr3)
    (ha : g.loose a) (hlt : a < 2 ^ 22) (hheap : ¬g.InHeap a) (hwin : ¬g.InWindows a) (lba : ℕ) :
    ∃ m dma, MyOS.readDiskSectorTo lba a s = .ok () { s with mem := m, dmaBuffer := dma } ∧
      (∀ k < 512, m (a + k) = s.disk (lba % 2 ^ 28) k) ∧
      ∀ x, x < a ∨ a + 4096 ≤ x → m x = s.mem x := by
  obtain ⟨dma, hdma⟩ : ∃ dma : ℕ → UInt8,
      dma = fun i => if i < 512 then s.disk (lba % 2 ^ 28) i else s.dmaBuffer i := ⟨_, rfl⟩
  have hsame : KernelSpace { s with dmaBuffer := dma } g := h.same rfl rfl rfl rfl
  have hcopy : memcpyFrom a dma 512 { s with dmaBuffer := dma } =
      .ok () { s with mem := s.mem.fill a 512 dma, dmaBuffer := dma } := by
    refine memcpyFrom_eq (s := { s with dmaBuffer := dma }) dma ?_
    intro m hm k hk
    have hout : ∀ x, x < a ∨ a + 4096 ≤ x → m x = s.mem x := fun x hx => hm x (by omega)
    exact translate_loose hsame hdir ha hlt hheap hwin hout (by omega)
  refine ⟨s.mem.fill a 512 dma, dma, ?_, ?_, ?_⟩
  · have hread : readDiskSector lba s = .ok () { s with dmaBuffer := dma } := by
      rw [hdma]
      rfl
    unfold MyOS.readDiskSectorTo
    rw [bind_of_ok hread, bind_of_ok (get_apply _)]
    exact hcopy
  · intro k hk
    rw [fill_inside _ _ hk, hdma]
    exact if_pos hk
  · intro x hx
    exact ByteMemory.fill_outside s.mem dma (by omega)

/-- The layout while the temporary buffer is in hand. -/
def bufferLayout (page : ℕ) : Layout := (bootLayout page).take ((page + 6) * 4096)

theorem bufferLayout_not_inHeap (page : ℕ) :
    ¬(bufferLayout page).InHeap ((page + 6) * 4096) := by
  intro h
  have hhigh : (page + 6) * 4096 < 4096 * (page + 1) := h.2
  omega

theorem bufferLayout_not_inWindows (page va : ℕ) : ¬(bufferLayout page).InWindows va := by
  intro h
  have hlow := h.1
  have hhigh : va < 4096 * (windowPage + 0) := h.2
  omega

/-- What holds while the block is copied, with the first `i` bytes on the heap. -/
structure BlockCopy (disk : ℕ → ℕ → UInt8) (page i : ℕ) (s : Machine) : Prop where
  space : KernelSpace s (bufferLayout page)
  heap : HeapInvariant s (bufferLayout page) (fsView page)
  source : ∀ k < sizeofBpb, s.mem ((page + 6) * 4096 + k) = disk 0 k
  block : ∀ k < i, s.mem ((page + 5) * 4096 + 8 + k) = disk 0 k

theorem BlockCopy.step (hpage : page < 762) {i : ℕ} (h : BlockCopy disk page i s)
    (hcr3 : s.cr3 = (page + 2) * 4096) (hi : i < sizeofBpb) :
    ∃ m, (do
          let b ← load8 ((page + 6) * 4096 + i)
          MyOS.store8 (4096 * page + 8 + i) b : Kernel Unit) s = .ok () { s with mem := m } ∧
      BlockCopy disk page (i + 1) { s with mem := m } := by
  have hi' : i < 36 := hi
  have hsource := translate_loose h.space (.inl hcr3) (a := (page + 6) * 4096) (.inl rfl) (by omega)
    (bufferLayout_not_inHeap page) (bufferLayout_not_inWindows page _) (m := s.mem)
    (fun _ _ => rfl) (show i < 4096 by omega)
  have hload : load8 ((page + 6) * 4096 + i) s = .ok (disk 0 i) s := by
    rw [load8_eq hsource, h.source i hi]
  obtain ⟨hstore, hspace, hinv⟩ := h.heap.write h.space (.inl hcr3) (a := 4096 * page)
    (n := sizeofBpb) List.mem_cons_self hi (disk 0 i)
  have hphys : (bufferLayout page).phys (4096 * page + 8 + i) = (page + 5) * 4096 + 8 + i := by
    have hfs := fsLayout_phys page 0 (show 8 + i < 4096 by omega)
    rw [← Nat.add_assoc, ← Nat.add_assoc] at hfs
    exact hfs
  rw [hphys] at hstore hspace hinv
  refine ⟨_, ?_, hspace, hinv, ?_, ?_⟩
  · rw [bind_of_ok hload]
    exact hstore
  · intro k hk
    have hk' : k < 36 := hk
    have hkept := set8_of_ne s.mem (disk 0 i)
      (show (page + 6) * 4096 + k ≠ (page + 5) * 4096 + 8 + i by omega)
    exact hkept.trans (h.source k hk)
  · intro k hk
    by_cases hki : k = i
    · rw [hki]
      exact set8_same s.mem _ _
    · have hkept := set8_of_ne s.mem (disk 0 i)
        (show (page + 5) * 4096 + 8 + k ≠ (page + 5) * 4096 + 8 + i by omega)
      exact hkept.trans (h.block k (by omega))

theorem BlockCopy.copy (hpage : page < 762) (h : BlockCopy disk page 0 s)
    (hcr3 : s.cr3 = (page + 2) * 4096) :
    ∃ m, memcpy (4096 * page + 8) ((page + 6) * 4096) sizeofBpb s = .ok () { s with mem := m } ∧
      BlockCopy disk page sizeofBpb { s with mem := m } := by
  let inv : ℕ → Machine → Prop := fun i t => ∃ m, t = { s with mem := m } ∧ BlockCopy disk page i t
  have hstep : ∀ i t, i < sizeofBpb → inv i t → ∃ t', (do
        let b ← load8 ((page + 6) * 4096 + i)
        MyOS.store8 (4096 * page + 8 + i) b : Kernel Unit) t = .ok () t' ∧ inv (i + 1) t' := by
    intro i t hi ht
    obtain ⟨m, rfl, hcopy⟩ := ht
    obtain ⟨m', hrun, hcopy'⟩ := hcopy.step hpage hcr3 hi
    exact ⟨_, hrun, m', rfl, hcopy'⟩
  obtain ⟨_, hrun, m, rfl, hcopy⟩ := forRange_total inv hstep ⟨s.mem, rfl, h⟩
  exact ⟨m, hrun, hcopy⟩

/-- The frame is in hand, and sector 0 is read into it. -/
theorem Booted.readSector (hboot : Booted s page) (hpage : page < 762) :
    ∃ p m dma, allocFrame s = .ok ((page + 6) * 4096) { s with pmm := p } ∧
      MyOS.readDiskSectorTo 0 ((page + 6) * 4096) { s with pmm := p } =
        .ok () { s with pmm := p, mem := m, dmaBuffer := dma } ∧
      p.Linear (page + 7) ∧ (∀ k < sizeofBpb, m ((page + 6) * 4096 + k) = s.disk 0 k) ∧
      KernelSpace { s with pmm := p, mem := m, dmaBuffer := dma } (bufferLayout page) ∧
      HeapInvariant { s with pmm := p, mem := m, dmaBuffer := dma } (bufferLayout page)
        ⟨[], [], []⟩ := by
  obtain ⟨haddr, hlinear⟩ := hboot.linear.alloc (by omega)
  have hne : (pmmAllocFrame s.pmm).1 ≠ 0 := by
    rw [haddr]
    omega
  have halloc := allocFrame_eq hne
  have htaken := hboot.space.alloc hne s.trace
  rw [haddr] at halloc htaken
  have htaken' : KernelSpace { s with pmm := (pmmAllocFrame s.pmm).2 } (bufferLayout page) := htaken
  obtain ⟨m, dma, hread, hbytes, hout⟩ := readDiskSectorTo_loose htaken' (.inl hboot.cr3)
    (a := (page + 6) * 4096) (.inl rfl) (by omega) (bufferLayout_not_inHeap page)
    (bufferLayout_not_inWindows page _) 0
  have hown : (bufferLayout page).Owns (.loose ((page + 6) * 4096)) ((page + 6) * 4096) :=
    ⟨rfl, .inl rfl⟩
  refine ⟨_, m, dma, halloc, hread, hlinear, ?_, ?_, ?_⟩
  · intro k hk
    have hk' : k < 36 := hk
    exact hbytes k (by omega)
  · refine KernelSpace.same (s := { s with pmm := (pmmAllocFrame s.pmm).2, mem := m })
      (htaken'.of_bytes ?_) rfl rfl rfl rfl
    intro r f hf o ho
    have := htaken'.outside hown (fun r => by cases r <;> simp [Layout.roleOwner]) hf
    exact hout _ (by omega)
  · exact HeapInvariant.of_kept (s := { s with pmm := (pmmAllocFrame s.pmm).2 })
      ⟨hboot.heap.end_eq, hboot.heap.top_le, hboot.heap.heap⟩ rfl rfl rfl
      (htaken'.heapKept hown (by simp) hout)

/-- `init_fs` reads the parameter block from sector 0 to the start of the heap. -/
theorem Booted.readBpb (hboot : Booted s page) (hdisk : s.disk = disk) (hpage : page < 762) :
    ∃ s', MyOS.readBpb s = .ok () s' ∧ FsState disk page 0 s' := by
  obtain ⟨p, m, dma, halloc, hread, hlinear, hsource, hspace, hheap⟩ := hboot.readSector hpage
  have htop : s.heapTop = 4096 * page := hboot.heapTop
  have hend : s.heapEnd = 4096 * (page + 1) := hboot.heap.end_eq
  -- the block gets its place on the heap
  obtain ⟨m₁, hmalloc, hspace₁, hheap₁, honly, -⟩ := hheap.malloc_fresh hspace (.inl hboot.cr3) rfl
    (show sizeofBpb ≠ 0 by decide) (show s.heapTop % 4 = 0 by omega)
    (show s.heapTop + 8 + sizeofBpb ≤ s.heapEnd by unfold sizeofBpb; omega)
  have hgiven : malloc sizeofBpb { s with pmm := p, mem := m, dmaBuffer := dma } =
      .ok (4096 * page + 8) { s with
        pmm := p, mem := m₁, dmaBuffer := dma, heapTop := 4096 * page + 8 + sizeofBpb } := by
    rw [← htop]
    exact hmalloc
  simp only [htop] at hspace₁ hheap₁
  have hown : (bufferLayout page).Owns (.loose ((page + 6) * 4096)) ((page + 6) * 4096) :=
    ⟨rfl, .inl rfl⟩
  have hcopy₀ : BlockCopy disk page 0 { s with
      pmm := p, mem := m₁, dmaBuffer := dma, heapTop := 4096 * page + 8 + sizeofBpb
      bpb := 4096 * page + 8 } := by
    refine ⟨hspace₁.same rfl rfl rfl rfl,
      hheap₁.of_words rfl rfl rfl fun _ _ => ⟨rfl, rfl⟩, ?_, by simp⟩
    intro k hk
    have hk' : k < 36 := hk
    change m₁ ((page + 6) * 4096 + k) = disk 0 k
    rw [honly, ← hdisk]
    · exact hsource k hk
    · intro va hva heq
      obtain ⟨f, hf, hfa, hpf⟩ := hspace.phys_heap hva
      have hne := hspace.exact.ne_of_owner_ne hown hf (by simp)
      omega
  obtain ⟨m₂, hcopied, hcopy⟩ := hcopy₀.copy hpage hboot.cr3
  -- the frame is given back
  have hfreed := hcopy.space.freeLoose (a := (page + 6) * 4096) (.inl rfl)
  have hlayout : (bufferLayout page).drop ((page + 6) * 4096) = fsLayout page 0 :=
    drop_take (g := bootLayout page) (fun h => h)
  rw [hlayout] at hfreed
  refine ⟨_, ?_, hfreed, ⟨hcopy.heap.end_eq, hcopy.heap.top_le, hcopy.heap.heap⟩, hlinear.free,
    hboot.cr3, hdisk, rfl, hcopy.block⟩
  unfold MyOS.readBpb
  rw [bind_of_ok halloc, bind_of_ok hread, bind_of_ok hgiven, bind_of_ok (modify_apply _ _),
    bind_of_ok hcopied]
  rfl

/-- `init_fs` returns and leaves both windows mapped and filled, for a kernel that ends below
them. -/
theorem Booted.initFs (hboot : Booted s page) (hdisk : s.disk = disk) (hfits : WindowsFit disk)
    (hpage : page < 762) :
    ∃ s', MyOS.initFs s = .ok () s' ∧ FsState disk page (windowPages disk) s' ∧
      FsCaches disk page s' := by
  obtain ⟨s₁, hbpb, h₁⟩ := hboot.readBpb hdisk hpage
  obtain ⟨s₂, hfat, h₂, hbuffer, hmirror⟩ := h₁.initFat hfits (by omega)
  obtain ⟨s₃, hroot, h₃, hcaches⟩ := h₂.initRootDirectory hfits (by omega) hbuffer hmirror
  refine ⟨s₃, ?_, h₃, hcaches⟩
  unfold MyOS.initFs
  rw [bind_of_ok hbpb, bind_of_ok hfat]
  exact hroot

theorem page_lt_of_end {kernelEnd : UInt32}
    (hend : kernelEnd.toNat + bitmapBytes memSize ≤ 761 * 4096) :
    (kernelEnd.toNat + 4607) / 4096 < 762 := by
  have hbytes : bitmapBytes memSize = 512 := by decide
  omega

/-- `kmain` up to `init_fs`, for a kernel that ends with its boot frames below the windows. -/
theorem bootKernel_fsState (mem : ByteMemory) (stack : ℕ → ℕ) (stale : ℕ → BitVec 32)
    {kernelEnd : UInt32} (hend : kernelEnd.toNat + bitmapBytes memSize ≤ 761 * 4096)
    (hfits : WindowsFit disk) :
    ∃ s, bootKernel stale kernelEnd (kmainEntry mem disk stack) = .ok () s ∧
      FsState disk ((kernelEnd.toNat + 4607) / 4096) (windowPages disk) s ∧
      FsCaches disk ((kernelEnd.toNat + 4607) / 4096) s := by
  have hpage := page_lt_of_end hend
  obtain ⟨s₀, hmemory, hboot, hdisk⟩ := bootMemory_booted mem disk stack stale kernelEnd (by omega)
  obtain ⟨s, hinit, hfs, hcaches⟩ := hboot.initFs hdisk hfits hpage
  refine ⟨s, ?_, hfs, hcaches⟩
  unfold bootKernel
  rw [bind_of_ok hmemory]
  exact hinit

/-! ## The boot disk -/

/-- Sector 0 of the boot disk, from the parameter block of `stage1.asm`. -/
def bootSector : List UInt8 :=
  [0xEB, 0x3C, 0x90, 77, 89, 79, 83, 32, 32, 32, 32, 0x00, 0x02, 1, 150, 0, 2, 224, 0, 0x40, 0x0B,
    0xF0, 9, 0, 18, 0, 2, 0, 0, 0, 0, 0, 0, 0, 0, 0]

def bootDisk : ℕ → ℕ → UInt8 := fun lba i => if lba = 0 then bootSector.getD i 0 else 0

theorem bootDisk_windowPages : windowPages bootDisk = 4 := by decide

theorem bootDisk_fits : WindowsFit bootDisk := ⟨by decide, by decide⟩

end MyOS
