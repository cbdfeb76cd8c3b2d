import MyOS.Verification.Fs.Directory
import MyOS.Verification.Fs.Mounted

/-! A disk with one file, and the machine that has booted from it: the volume is mounted, the
file is found, and there is room for it. -/

namespace MyOS

open Effect X86Paging ByteMemory PageTables Ownership BlockHeap Orbit

/-! ## The disk -/

/-- A file in the clusters 2 and 3 of the boot disk, which has this many sectors in a cluster. -/
structure DiskFile where
  sectorsPerCluster : UInt8
  size : ℕ
  content : ℕ → UInt8

/-- The entry of `PROG.BIN`: it begins at cluster 2. -/
def DiskFile.entry (f : DiskFile) : List UInt8 :=
  [80, 82, 79, 71, 32, 32, 32, 32, 66, 73, 78, 0x20, 0, 0, 0, 0, 0, 0, 0, 0, 0, 0, 0, 0, 0, 0, 2, 0,
    UInt8.ofNat f.size, UInt8.ofNat (f.size / 256), 0, 0]

/-- The boot disk with the file: the sectors of the data area hold its bytes. -/
def DiskFile.disk (f : DiskFile) : ℕ → ℕ → UInt8 := fun lba i =>
  if lba = 0 then if i = 13 then f.sectorsPerCluster else bootSector.getD i 0
  else if lba = 150 then [0xF0, 0xFF, 0xFF, 0x03, 0xF0, 0xFF].getD i 0
  else if lba = 168 then f.entry.getD i 0
  else if 182 ≤ lba then f.content (512 * (lba - 182) + i)
  else 0

theorem DiskFile.windowPages_disk (f : DiskFile) : windowPages f.disk = 4 := bootDisk_windowPages

/-! ## The machine -/

/-- The two tasks of the kernel, with its directory. -/
def kernelTable (root : ℕ) : ℕ → Task := fun i =>
  if i < 2 then { pid := i, state := .running, pageDirectory := root, cpuState := { cr3 := root } }
  else {}

/-- A machine that has booted from the disk, with a heap that begins at page 33. -/
structure FileVolume (f : DiskFile) (s : Machine) : Prop where
  fs : FsState f.disk 33 4 s
  caches : FsCaches f.disk 33 s

/-- The shell runs on it. The heap ends behind the parameter block, and the rest of its page is
zero. -/
structure FileMachine (f : DiskFile) (s : Machine) : Prop extends FileVolume f s where
  heapTop : s.heapTop = 135212
  slots : s.processTable = kernelTable s.kernelDirectory
  current : s.currentTask = 1
  trace : s.trace = []
  zero : ∀ o, 44 ≤ o → o < 4096 → s.mem (155648 + o) = 0

theorem fsLayout_phys_heap {o : ℕ} (ho : o < 4096) :
    (fsLayout 33 4).phys (135168 + o) = 155648 + o :=
  fsLayout_phys 33 4 ho

/-- Blocks are fine below any top that is not below them. -/
theorem HeapInvariant.lower {s s' : Machine} {g : Layout} {v : HeapView} (hh : HeapInvariant s g v)
    (hend : s'.heapEnd = s.heapEnd) (hhead : s'.freeListHead = s.freeListHead)
    (hle : s'.heapTop ≤ s'.heapEnd) (hstart : 4096 * g.heapPage ≤ s'.heapTop)
    (hblocks : ∀ b ∈ v.blocks, b.1 + 8 + b.2 ≤ s'.heapTop)
    (hword : ∀ b ∈ v.blocks, s'.word g b.1 = s.word g b.1 ∧
      s'.word g (b.1 + 4) = s.word g (b.1 + 4)) : HeapInvariant s' g v := by
  have hheap := hh.heap.congr hword
  refine ⟨hend.trans hh.end_eq, hle, hheap.start_pos, hstart, hheap.apart, ?_, hheap.sizes, ?_,
    hheap.complete, hheap.fits⟩
  · intro b hb
    obtain ⟨hlow, -, haligned⟩ := hheap.bounds b hb
    exact ⟨hlow, hblocks b hb, haligned⟩
  · rw [hhead]
    exact hheap.linked

theorem exists_fileMachine (f : DiskFile) : ∃ s, FileMachine f s := by
  have hfit : WindowsFit f.disk := ⟨bootDisk_fits.sector, bootDisk_fits.below⟩
  obtain ⟨s, -, hfs, hcaches⟩ := bootKernel_fsState (fun _ => 0) (fun _ => 0) (fun _ => 0#32)
    (show (131072 : UInt32).toNat + bitmapBytes memSize ≤ 761 * 4096 by decide) hfit
  rw [f.windowPages_disk] at hfs
  obtain ⟨m, hm⟩ : ∃ m : ByteMemory, m = fun x =>
    if 155692 ≤ x ∧ x < 159744 then 0 else s.mem x := ⟨_, rfl⟩
  have hsame : ∀ x, x < 155692 ∨ 159744 ≤ x → m x = s.mem x := by
    intro x hx
    rw [hm]
    exact if_neg (by omega)
  have honly : HeapOnly (fsLayout 33 4) s.mem m := by
    intro x hx
    refine hsame x ?_
    by_contra hin
    refine hx (135168 + (x - 155648)) ⟨?_, ?_⟩ ?_
    · change 4096 * 33 ≤ _
      omega
    · change _ < 4096 * (33 + 1)
      omega
    · rw [fsLayout_phys_heap (by omega)]
      omega
  have hword : ∀ o, o + 4 ≤ 44 → o % 4 = 0 →
      Machine.word { s with mem := m } (fsLayout 33 4) (135168 + o) =
        s.word (fsLayout 33 4) (135168 + o) := by
    intro o ho hoa
    unfold Machine.word
    refine get32_congr ?_
    intro i hi
    rw [fsLayout_phys_heap (by omega)]
    exact hsame _ (by omega)
  have hend : s.heapEnd = 139264 := hfs.heap.end_eq
  have hheap : HeapInvariant { s with
      mem := m, heapTop := 135212, processTable := kernelTable s.kernelDirectory, currentTask := 1,
      trace := [] } (fsLayout 33 4) (fsView 33) := by
    refine hfs.heap.lower rfl rfl ?_ ?_ ?_ ?_
    · change 135212 ≤ s.heapEnd
      omega
    · change 4096 * 33 ≤ 135212
      omega
    · intro b hb
      obtain rfl := List.mem_singleton.mp hb
      exact (by decide : 4096 * 33 + 8 + sizeofBpb ≤ 135212)
    · intro b hb
      obtain rfl := List.mem_singleton.mp hb
      exact ⟨hword 0 (by omega) (by omega), hword 4 (by omega) (by omega)⟩
  have hwindow : ∀ o, m (windowAt 33 o) = s.mem (windowAt 33 o) := fun o =>
    hsame _ (.inr (by unfold windowAt; omega))
  refine ⟨{ s with
      mem := m, heapTop := 135212, processTable := kernelTable s.kernelDirectory, currentTask := 1,
      trace := [] }, ⟨⟨(hfs.space.of_heap_bytes honly).same rfl rfl rfl rfl, hheap, hfs.linear,
    hfs.cr3, hfs.disk_eq, hfs.bpb, ?_⟩, ⟨hcaches.fatBuffer, hcaches.rootDirectoryBuffer,
    hcaches.rootDirectorySize, hcaches.dataAreaStartSector, ?_, ?_⟩⟩, rfl, rfl, rfl, rfl, ?_⟩
  · intro i hi
    unfold sizeofBpb at hi
    exact (hsame _ (by omega)).trans (hfs.block i hi)
  · intro j hj k hk
    exact (hwindow _).trans (hcaches.fat j hj k hk)
  · intro j hj k hk
    exact (hwindow _).trans (hcaches.rootDirectory j hj k hk)
  · intro o ho ho'
    change m (155648 + o) = 0
    rw [hm]
    exact if_pos (by omega)

/-! ## The volume -/

variable {f : DiskFile} {s : Machine}

theorem FileVolume.mounted (h : FileVolume f s) :
    MountedBelow s 33 4 (diskFat f.disk) (diskGeometry f.disk) := by
  have hfs := h.fs
  rw [← f.windowPages_disk] at hfs
  have hmounted := h.caches.mounted hfs (by omega) (by rw [f.windowPages_disk]; omega) rfl
  rwa [f.windowPages_disk] at hmounted

theorem FileVolume.rootDirectoryBuffer (h : FileVolume f s) :
    s.rootDirectoryBuffer = 0x302000 := by
  have hpages : fatPages f.disk = 2 := (by decide : fatPages bootDisk = 2)
  rw [h.caches.rootDirectoryBuffer, hpages]

theorem FileVolume.entryCached (h : FileVolume f s) : EntryCached 4 s.rootDirectoryBuffer := by
  unfold EntryCached
  rw [h.rootDirectoryBuffer]
  decide

/-- Byte `o` of the root directory. -/
def DiskFile.directory (f : DiskFile) (o : ℕ) : UInt8 := f.disk (168 + o / 512) (o % 512)

theorem FileVolume.rootEntries (h : FileVolume f s) : rootEntries s = 224 := by
  unfold MyOS.rootEntries
  rw [h.caches.rootDirectorySize]
  exact (by decide : (bpbWord bootDisk 17 * sizeofFatDirEntry + 31) / 32 = 224)

theorem FileVolume.load8_directory (h : FileVolume f s) {o : ℕ} (ho : o < 7168) :
    load8 (s.rootDirectoryBuffer + o) s = .ok (f.directory o) s := by
  have hfs := h.fs
  have hpages := f.windowPages_disk
  have hstart : rootDirStart f.disk = 168 := (by decide : rootDirStart bootDisk = 168)
  have hsectors : rootDirSectors f.disk = 14 := (by decide : rootDirSectors bootDisk = 14)
  rw [← hpages] at hfs
  rw [h.caches.load8_rootDirectory hfs (by omega) (by omega) (by omega), hstart]
  rfl

theorem FileVolume.directory (h : FileVolume f s) : CachedDirectory s f.directory := by
  intro o ho
  rw [h.rootEntries] at ho
  exact h.load8_directory ho

/-- The directory holds one file. -/
theorem DiskFile.filesFrom_directory (f : DiskFile) : filesFrom f.directory 224 0 = [0] := by
  have hfirst : f.directory 0 = 80 := rfl
  have hattr : f.directory 11 = 0x20 := rfl
  have hend : f.directory 32 = 0 := rfl
  have hfile : ¬Skipped f.directory 0 := by
    unfold Skipped
    rw [hfirst, Nat.zero_add, hattr]
    decide
  rw [filesFrom, hfirst, if_neg (by decide), if_neg hfile, filesFrom, hend, if_pos rfl]

/-- Whoever has this directory in memory finds the file. -/
theorem DiskFile.fsFindFile (f : DiskFile) (hdirectory : CachedDirectory s f.directory)
    (hentries : MyOS.rootEntries s = 224) :
    MyOS.fsFindFile (text "prog.bin") s = .ok s.rootDirectoryBuffer s := by
  have hname : fatName (text "prog.bin") = some [80, 82, 79, 71, 32, 32, 32, 32, 66, 73, 78] := by
    decide +kernel
  have hentry : entryName f.directory 0 = [80, 82, 79, 71, 32, 32, 32, 32, 66, 73, 78] := rfl
  rw [fsFindFile_eq hdirectory, hentries, f.filesFrom_directory, hname]
  simp [hentry]

theorem DiskFile.fileEntry (f : DiskFile) (hdirectory : CachedDirectory s f.directory)
    (hentries : MyOS.rootEntries s = 224) (hsize : f.size < 2 ^ 16) :
    FileEntry s s.rootDirectoryBuffer f.size 2 := by
  have hbyte : ∀ o k, o + k < 7168 → load8 (s.rootDirectoryBuffer + o + k) s =
      .ok (f.directory (o + k)) s := by
    intro o k hk
    rw [Nat.add_assoc]
    exact hdirectory _ (by rw [hentries]; exact hk)
  constructor
  · rw [load32, bind_of_ok (hbyte 28 0 (by omega)), bind_of_ok (hbyte 28 1 (by omega)),
      bind_of_ok (hbyte 28 2 (by omega)), bind_of_ok (hbyte 28 3 (by omega))]
    change EStateM.Result.ok ((UInt8.ofNat f.size).toNat + 256 * (UInt8.ofNat (f.size / 256)).toNat +
      65536 * 0 + 16777216 * 0) s = _
    rw [UInt8.toNat_ofNat', UInt8.toNat_ofNat']
    congr 1
    omega
  · rw [load16, bind_of_ok (hbyte 26 0 (by omega)), bind_of_ok (hbyte 26 1 (by omega))]
    rfl

theorem FileVolume.fileEntry (h : FileVolume f s) (hsize : f.size < 2 ^ 16) :
    FileEntry s s.rootDirectoryBuffer f.size 2 :=
  f.fileEntry h.directory h.rootEntries hsize

/-- The chain of the file. -/
theorem DiskFile.next_fat (f : DiskFile) :
    (diskGeometry f.disk).next (diskFat f.disk) 2 = 3 ∧
      (diskGeometry f.disk).next (diskFat f.disk) 3 = 0xFFF := by
  have hbytes : (diskGeometry f.disk).fatBytes = 9 * 512 := rfl
  have h3 : diskFat f.disk 3 = 3 := rfl
  have h4 : diskFat f.disk 4 = 0xF0 := rfl
  have h5 : diskFat f.disk 5 = 0xFF := rfl
  constructor
  · simp [fatNext, hbytes, h3, h4]
  · simp [fatNext, hbytes, h4, h5]

theorem DiskFile.path (f : DiskFile) :
    Path ((diskGeometry f.disk).next (diskFat f.disk)) IsCluster 2 [2, 3] := by
  obtain ⟨h2, h3⟩ := f.next_fat
  refine .step (show 2 < 0xFF8 by omega) ?_
  rw [h2]
  refine .step (show 3 < 0xFF8 by omega) ?_
  rw [h3]
  exact .stop (show ¬0xFFF < 0xFF8 by omega)

/-! ## The heap -/

theorem FileMachine.alignedTop (h : FileMachine f s) : s.alignedTop = 135212 := by
  unfold Machine.alignedTop
  rw [h.heapTop]

theorem FileMachine.belowWindows (h : FileMachine f s) {size : ℕ} (hsize : size ≤ 0x2DEFCC) :
    BelowWindows s size := by
  refine ⟨h.mounted.below, .inr ?_⟩
  rw [h.alignedTop]
  unfold sizeofBlockHeader fatVirtAddr
  omega

theorem FileVolume.frames_free (h : FileVolume f s) : pmmGetFreeFrameCount s.pmm = 4053 :=
  h.fs.linear.free_count

theorem FileMachine.hasRoom (h : FileMachine f s) {size : ℕ} (hsize : size ≤ 2 ^ 22) :
    HasRoom s size := by
  have hend : s.heapEnd = 139264 := h.fs.heap.end_eq
  refine .inr ?_
  rw [h.alignedTop, hend, h.frames_free]
  unfold sizeofBlockHeader
  omega

end MyOS
