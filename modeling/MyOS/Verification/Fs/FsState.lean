import MyOS.Verification.Memory.HeapRun
import MyOS.Verification.Memory.Window

/-! The state in which `init_fs` sets up its windows: the FAT and the root directory are cached at
3 MiB, in pages that are mapped to frames of their own, as the parameter block on the heap
says. -/

namespace MyOS

open Effect X86Paging ByteMemory PageTables Ownership BlockHeap

/-! ## The boot sector -/

/-- A 16-bit field of the parameter block in sector 0. -/
def bpbWord (disk : ℕ → ℕ → UInt8) (off : ℕ) : ℕ :=
  (disk 0 off).toNat + 256 * (disk 0 (off + 1)).toNat

def fatPages (disk : ℕ → ℕ → UInt8) : ℕ := (bpbWord disk 22 * bpbWord disk 11 + 4095) / 4096

def rootDirSectors (disk : ℕ → ℕ → UInt8) : ℕ :=
  (bpbWord disk 17 * 32 + bpbWord disk 11 - 1) / bpbWord disk 11

def rootPages (disk : ℕ → ℕ → UInt8) : ℕ := (rootDirSectors disk * 512 + 4095) / 4096

/-- Pages of both windows. -/
def windowPages (disk : ℕ → ℕ → UInt8) : ℕ := fatPages disk + rootPages disk

/-- Sectors have at least the 512 bytes the driver reads, and both windows end below 4 MiB. -/
structure WindowsFit (disk : ℕ → ℕ → UInt8) : Prop where
  sector : 512 ≤ bpbWord disk 11
  below : windowPages disk ≤ 256

theorem bpbWord_lt (disk : ℕ → ℕ → UInt8) (off : ℕ) : bpbWord disk off < 2 ^ 16 := by
  have h₁ := (disk 0 off).toNat_lt
  have h₂ := (disk 0 (off + 1)).toNat_lt
  unfold bpbWord
  omega

/-! ## The layout -/

/-- The layout with `n` pages of windows. -/
def fsLayout (page n : ℕ) : Layout :=
  { bootLayout page with windows := (List.range n).map fun k => (page + 6 + k) * 4096 }

/-- The heap holds the parameter block and nothing else. -/
def fsView (page : ℕ) : HeapView := ⟨[(4096 * page, sizeofBpb)], [], [(4096 * page, sizeofBpb)]⟩

/-- What holds while `init_fs` sets up its windows, with `n` pages mapped. -/
structure FsState (disk : ℕ → ℕ → UInt8) (page n : ℕ) (s : Machine) : Prop where
  space : KernelSpace s (fsLayout page n)
  heap : HeapInvariant s (fsLayout page n) (fsView page)
  linear : s.pmm.Linear (page + 6 + n)
  cr3 : s.cr3 = (page + 2) * 4096
  disk_eq : s.disk = disk
  bpb : s.bpb = 4096 * page + 8
  block : ∀ i < sizeofBpb, s.mem ((page + 5) * 4096 + 8 + i) = disk 0 i

variable {disk : ℕ → ℕ → UInt8} {page n : ℕ} {s s' : Machine}

theorem fsLayout_windows_length (page n : ℕ) : (fsLayout page n).windows.length = n := by
  simp [fsLayout]

theorem fsLayout_succ (page n : ℕ) :
    fsLayout page (n + 1) =
      { fsLayout page n with
        windows := (fsLayout page n).windows ++ [(page + 6 + n) * 4096] } := by
  simp [fsLayout, List.range_succ]

/-- The heap's only page lies in the frame behind the first interrupt stack. -/
theorem fsLayout_phys (page n : ℕ) {o : ℕ} (ho : o < 4096) :
    (fsLayout page n).phys (4096 * page + o) = (page + 5) * 4096 + o := by
  have hdiv : (4096 * page + o) / 4096 = page := by omega
  have hmod : (4096 * page + o) % 4096 = o := by omega
  unfold Layout.phys
  rw [hdiv, hmod]
  simp [Layout.lowFrame, fsLayout, bootLayout]

theorem fsLayout_inHeap {va : ℕ} :
    (fsLayout page n).InHeap va ↔ 4096 * page ≤ va ∧ va < 4096 * (page + 1) := Iff.rfl

theorem fsLayout_inWindows {va : ℕ} :
    (fsLayout page n).InWindows va ↔ 4096 * 768 ≤ va ∧ va < 4096 * (768 + n) := by
  unfold Layout.InWindows windowPage
  rw [fsLayout_windows_length]

/-- The byte of memory behind byte `o` of the windows. -/
def windowAt (page o : ℕ) : ℕ := (page + 6) * 4096 + o

theorem windowAt_add (page o k : ℕ) : windowAt page (o + k) = windowAt page o + k := by
  unfold windowAt
  omega

theorem FsState.isDir (h : FsState disk page n s) : (fsLayout page n).IsDir s.cr3 := .inl h.cr3

/-- Ten fields of the machine matter. -/
theorem FsState.same (h : FsState disk page n s) (hmem : s'.mem = s.mem)
    (hpaging : s'.paging = s.paging) (hroot : s'.kernelDirectory = s.kernelDirectory)
    (hpmm : s'.pmm = s.pmm) (htop : s'.heapTop = s.heapTop) (hend : s'.heapEnd = s.heapEnd)
    (hhead : s'.freeListHead = s.freeListHead) (hcr3 : s'.cr3 = s.cr3)
    (hdisk : s'.disk = s.disk) (hbpb : s'.bpb = s.bpb) : FsState disk page n s' := by
  refine ⟨h.space.same hmem hpaging hroot hpmm, ?_, ?_, hcr3.trans h.cr3, hdisk.trans h.disk_eq,
    hbpb.trans h.bpb, ?_⟩
  · refine h.heap.of_words htop hend hhead ?_
    intro b _
    unfold Machine.word
    rw [hmem]
    exact ⟨rfl, rfl⟩
  · rw [hpmm]
    exact h.linear
  · rw [hmem]
    exact h.block

/-- The header words survive where the heap does. -/
theorem HeapInvariant.of_kept {g : Layout} {v : HeapView} (hh : HeapInvariant s g v)
    (htop : s'.heapTop = s.heapTop) (hend : s'.heapEnd = s.heapEnd)
    (hhead : s'.freeListHead = s.freeListHead) (hkept : HeapKept g s.mem s'.mem) :
    HeapInvariant s' g v := by
  have hword : ∀ x, g.InHeap x → x % 4 = 0 → s'.word g x = s.word g x := by
    intro x hx hxa
    unfold Machine.word
    refine get32_congr ?_
    intro i hi
    rw [← phys_add g (by omega)]
    have := hx.1
    have := hx.2
    exact hkept _ ⟨by omega, by omega⟩
  refine hh.of_words htop hend hhead ?_
  intro b hb
  obtain ⟨h1, h2, h3, -, -⟩ := hh.block_bounds hb
  exact ⟨hword _ h1 h3, hword _ h2 (by omega)⟩

/-- Bytes outside the heap and the tables change. -/
theorem FsState.of_kept (h : FsState disk page n s) {m : ByteMemory}
    (hspace : KernelSpace { s with mem := m } (fsLayout page n))
    (hkept : HeapKept (fsLayout page n) s.mem m) : FsState disk page n { s with mem := m } := by
  refine ⟨hspace, h.heap.of_kept rfl rfl rfl hkept, h.linear, h.cr3, h.disk_eq, h.bpb, ?_⟩
  intro i hi
  rw [← h.block i hi]
  unfold sizeofBpb at hi
  have hphys := fsLayout_phys page n (show 8 + i < 4096 by omega)
  rw [Nat.add_assoc, ← hphys]
  exact hkept _ ⟨by change 4096 * page ≤ _; omega, by change _ < 4096 * (page + 1); omega⟩

/-! ## The parameter block -/

theorem FsState.load8 (h : FsState disk page n s) (hpage : page < 1024) {off : ℕ}
    (hoff : off < sizeofBpb) : MyOS.load8 (s.bpb + off) s = .ok (disk 0 off) s := by
  have hoff' : off < 36 := hoff
  have htranslate := h.space.translate_phys h.isDir (show 4096 * page + (8 + off) < 2 ^ 22 by omega)
  rw [fsLayout_phys _ _ (by omega)] at htranslate
  rw [h.bpb, Nat.add_assoc, load8_eq htranslate, ← Nat.add_assoc, h.block off hoff]

theorem FsState.load16 (h : FsState disk page n s) (hpage : page < 1024) {off : ℕ}
    (hoff : off + 1 < sizeofBpb) : MyOS.load16 (s.bpb + off) s = .ok (bpbWord disk off) s := by
  have hlow := h.load8 hpage (show off < sizeofBpb by omega)
  have hhigh := h.load8 hpage hoff
  unfold MyOS.load16
  rw [bind_of_ok hlow, Nat.add_assoc, bind_of_ok hhigh]
  rfl

/-! ## The windows -/

theorem FsState.phys_window (h : FsState disk page n s) (hpage : page < 768) {o : ℕ}
    (ho : o < 4096 * n) : (fsLayout page n).phys (4096 * 768 + o) = windowAt page o := by
  have hheap : ¬(fsLayout page n).InHeap (4096 * 768 + o) := by
    intro hin
    have := (fsLayout_inHeap.mp hin).2
    omega
  obtain ⟨f, hf, -, hpf⟩ := h.space.phys_window
    (fsLayout_inWindows.mpr ⟨by omega, show 4096 * 768 + o < 4096 * (768 + n) by omega⟩) hheap
  have hget : (fsLayout page n).windows[o / 4096]? = some f := by
    have hindex : (4096 * 768 + o) / 4096 - windowPage = o / 4096 := by
      unfold windowPage
      omega
    rw [← hindex]
    exact hf
  have hframe : (page + 6 + o / 4096) * 4096 = f := by
    simpa [fsLayout, show o / 4096 < n by omega] using hget
  unfold windowAt
  omega

/-- A byte of the windows, by its address. -/
theorem FsState.load8_window (h : FsState disk page n s) (hpage : page < 768) (hn : n ≤ 256)
    {o : ℕ} (ho : o < 4096 * n) :
    MyOS.load8 (4096 * 768 + o) s = .ok (s.mem (windowAt page o)) s := by
  have htranslate := h.space.translate_phys h.isDir (show 4096 * 768 + o < 2 ^ 22 by omega)
  rw [h.phys_window hpage ho] at htranslate
  exact load8_eq htranslate

/-- A byte stored into a window. -/
theorem FsState.store8 (h : FsState disk page n s) (hpage : page < 768) (hn : n ≤ 256) {o : ℕ}
    (ho : o < 4096 * n) (b : UInt8) :
    MyOS.store8 (4096 * 768 + o) b s =
        .ok () { s with mem := s.mem.set8 (windowAt page o) b } ∧
      FsState disk page n { s with mem := s.mem.set8 (windowAt page o) b } := by
  have hva : (fsLayout page n).InWindows (4096 * 768 + o) :=
    fsLayout_inWindows.mpr ⟨by omega, by omega⟩
  have hheap : ¬(fsLayout page n).InHeap (4096 * 768 + o) := by
    intro hin
    have := (fsLayout_inHeap.mp hin).2
    omega
  obtain ⟨f, hf, hfa, hpf⟩ := h.space.phys_window hva hheap
  have htranslate := h.space.translate_phys h.isDir (show 4096 * 768 + o < 2 ^ 22 by omega)
  rw [h.phys_window hpage ho] at htranslate hpf
  have hout : ∀ x, x < f ∨ f + 4096 ≤ x → s.mem.set8 (windowAt page o) b x = s.mem x := by
    intro x hx
    exact set8_of_ne s.mem b (by omega)
  refine ⟨store8_eq b htranslate, h.of_kept ?_ ?_⟩
  · refine h.space.of_bytes ?_
    intro r f' hf' o' ho'
    have := h.space.outside hf (fun r => by cases r <;> simp [Layout.roleOwner]) hf'
    exact hout _ (by omega)
  · exact h.space.heapKept hf (by simp) hout

/-- A sector read into the windows. -/
theorem FsState.readDiskSectorTo (h : FsState disk page n s) (hpage : page < 768) (hn : n ≤ 256)
    (lba : ℕ) {o : ℕ} (ho : o + 512 ≤ 4096 * n) :
    ∃ m dma, MyOS.readDiskSectorTo lba (4096 * 768 + o) s =
        .ok () { s with mem := m, dmaBuffer := dma } ∧
      FsState disk page n { s with mem := m, dmaBuffer := dma } ∧
      (∀ k < 512, m (windowAt page (o + k)) = disk (lba % 2 ^ 28) k) ∧
      ∀ o', o' < o ∨ o + 512 ≤ o' → m (windowAt page o') = s.mem (windowAt page o') := by
  obtain ⟨dma, hdma⟩ : ∃ dma : ℕ → UInt8,
      dma = fun i => if i < 512 then s.disk (lba % 2 ^ 28) i else s.dmaBuffer i := ⟨_, rfl⟩
  obtain ⟨inv, hinv⟩ : ∃ inv : ℕ → Machine → Prop, inv = fun i t =>
      t = { s with mem := s.mem.fill (windowAt page o) i dma, dmaBuffer := dma } ∧
        FsState disk page n t := ⟨_, rfl⟩
  have hstep : ∀ i t, i < 512 → inv i t →
      ∃ t', MyOS.store8 (4096 * 768 + o + i) (dma i) t = .ok () t' ∧ inv (i + 1) t' := by
    intro i t hi ht
    rw [hinv] at ht ⊢
    obtain ⟨rfl, hfs⟩ := ht
    obtain ⟨hstore, hfs'⟩ := hfs.store8 hpage hn (show o + i < 4096 * n by omega) (dma i)
    rw [windowAt_add] at hstore hfs'
    rw [← Nat.add_assoc] at hstore
    refine ⟨_, hstore, ?_, hfs'⟩
    rw [fill_succ]
  have hstart : inv 0 { s with dmaBuffer := dma } := by
    rw [hinv]
    refine ⟨by rw [fill_zero], h.same rfl rfl rfl rfl rfl rfl rfl rfl rfl rfl⟩
  obtain ⟨t, hrun, ht⟩ := forRange_total inv hstep hstart
  rw [hinv] at ht
  obtain ⟨rfl, hfs⟩ := ht
  refine ⟨_, dma, ?_, hfs, ?_, ?_⟩
  · have hread : readDiskSector lba s = .ok () { s with dmaBuffer := dma } := by
      rw [hdma]
      rfl
    unfold MyOS.readDiskSectorTo
    rw [bind_of_ok hread, bind_of_ok (get_apply _)]
    exact hrun
  · intro k hk
    rw [windowAt_add, fill_inside s.mem dma hk, hdma, ← h.disk_eq]
    exact if_pos hk
  · intro o' ho'
    refine fill_outside s.mem dma ?_
    unfold windowAt
    omega

end MyOS
