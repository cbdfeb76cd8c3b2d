import MyOS.Verification.Fs.FileDisk
import MyOS.Verification.Loader.Starts

/-! A disk with one program, and machines that have mounted it: the program is found, read and
started. -/

namespace MyOS

open Effect X86Paging ByteMemory

/-! ## The program -/

/-- An ELF image with one segment: four bytes of the file at 4 MiB, and four more that are zero. -/
def programImage : List UInt8 :=
  [0x7F, 69, 76, 70, 1, 1, 1, 0, 0, 0, 0, 0, 0, 0, 0, 0, 2, 0, 3, 0, 1, 0, 0, 0,
    0, 0, 0x40, 0, 52, 0, 0, 0, 0, 0, 0, 0, 0, 0, 0, 0, 52, 0, 32, 0, 1, 0, 0, 0, 0, 0, 0, 0,
    1, 0, 0, 0, 84, 0, 0, 0, 0, 0, 0x40, 0, 0, 0, 0x40, 0, 4, 0, 0, 0, 8, 0, 0, 0, 7, 0, 0, 0,
    0, 0x10, 0, 0, 0xEB, 0xFE, 0x90, 0x90]

/-- A file of 88 bytes. -/
def imageFile (image : List UInt8) : DiskFile := ⟨1, 88, fun o => image.getD o 0⟩

abbrev programFile : DiskFile := imageFile programImage

/-- The image lies at `buf`. -/
def ImageAt (image : List UInt8) (m : ByteMemory) (buf : ℕ) : Prop :=
  ∀ i < 88, m (buf + i) = image.getD i 0

section Image

variable {image : List UInt8} {m : ByteMemory} {buf : ℕ}

theorem ImageAt.get32 (h : ImageAt image m buf) {o : ℕ} (ho : o + 4 ≤ 88) :
    m.get32 (buf + o) = ByteMemory.get32 (fun i => image.getD i 0) o := by
  have hbyte : ∀ k < 4, m (buf + o + k) = image.getD (o + k) 0 := by
    intro k hk
    rw [Nat.add_assoc]
    exact h _ (by omega)
  unfold ByteMemory.get32
  rw [h o (by omega), hbyte 1 (by omega), hbyte 2 (by omega), hbyte 3 (by omega)]

theorem programImage_phnum (h : ImageAt programImage m buf) : phnum m buf = 1 := by
  unfold MyOS.phnum get16
  rw [h ehdrPhnum (by decide), Nat.add_assoc, h (ehdrPhnum + 1) (by decide)]
  decide

theorem programImage_segments (h : ImageAt programImage m buf) :
    segmentsOf m buf = [⟨ptLoad, 84, 0x400000, 4, 8⟩] := by
  have hphoff : m.get32 (buf + ehdrPhoff) = 52 := (h.get32 (by decide)).trans (by decide)
  have hphdr : phdrAt m (phdrAddr m buf 0) = ⟨ptLoad, 84, 0x400000, 4, 8⟩ := by
    unfold phdrAt phdrAddr
    rw [hphoff]
    simp only [Nat.mul_zero, Nat.add_zero, Nat.add_assoc, phdrType, phdrOffset, phdrVaddr,
      phdrFilesz, phdrMemsz]
    rw [h.get32 (by decide), h.get32 (by decide), h.get32 (by decide), h.get32 (by decide),
      h.get32 (by decide)]
    decide
  unfold segmentsOf loadable
  rw [programImage_phnum h]
  simp [hphdr]

theorem programImage_plain (h : ImageAt programImage m buf) : PlainImage m buf 88 := by
  have hphoff : m.get32 (buf + ehdrPhoff) = 52 := (h.get32 (by decide)).trans (by decide)
  refine ⟨⟨by decide, by decide, ?_, ?_⟩, ?_, ?_⟩
  · rw [hphoff, programImage_phnum h]
    decide
  all_goals
    intro d hd
    rw [programImage_segments h, List.mem_singleton] at hd
    subst hd
  · exact ⟨by decide, by decide⟩
  · decide
  · decide

theorem programImage_separate (h : ImageAt programImage m buf) : SeparateImage m buf 88 := by
  refine ⟨(programImage_plain h).toProgramImage, ?_⟩
  rw [programImage_segments h]
  exact List.pairwise_singleton _ _

end Image

/-! ## The machine -/

/-- A machine that has mounted a disk with this file, while its heap has few pages. -/
structure ImageMachine (image : List UInt8) (s : Machine) (g : Layout) (v : HeapView) : Prop where
  window : ∃ live carved, WindowInv 33 4 s live carved g v
  small : g.heap.length ≤ 16
  spaces : ∀ i, g.space i = none
  mounted : MountedBelow s 33 4 (diskFat (imageFile image).disk)
    (diskGeometry (imageFile image).disk)
  disk : s.disk = (imageFile image).disk
  dataArea : s.dataAreaStartSector = 182
  rootBuffer : s.rootDirectoryBuffer = 0x302000
  rootEntries : rootEntries s = 224
  directory : CachedDirectory s (imageFile image).directory

variable {image : List UInt8} {s s' u : Machine} {g : Layout} {v : HeapView} {buf : ℕ}

theorem FileVolume.imageMachine (h : FileVolume (imageFile image) s) :
    ImageMachine image s (fsLayout 33 4) (fsView 33) where
  window := ⟨_, _, h.fs.windowInv (by omega)⟩
  small := by decide
  spaces := fun _ => rfl
  mounted := h.mounted
  disk := h.fs.disk_eq
  dataArea := h.caches.dataAreaStartSector.trans
    (by decide : rootDirStart bootDisk + rootDirSectors bootDisk = 182)
  rootBuffer := h.rootDirectoryBuffer
  rootEntries := h.rootEntries
  directory := h.directory

theorem findFreeSlot_kernelTable (root : ℕ) : findFreeSlot (kernelTable root) = some 2 := by
  have hstate : ∀ i, ((kernelTable root i).state = .unused) = ¬i < 2 := by
    intro i
    unfold kernelTable
    by_cases hi : i < 2 <;> simp [hi]
  unfold findFreeSlot
  simp only [hstate]
  decide

theorem FileMachine.freeSlot {f : DiskFile} (h : FileMachine f s) :
    findFreeSlot s.processTable = some 2 := by
  rw [h.slots]
  exact findFreeSlot_kernelTable _

theorem FileMachine.clean {f : DiskFile} (h : FileMachine f s) : Clean s.trace := by
  rw [h.trace]
  exact clean_nil

/-- Tasks, stacks and the record of events are no part of it. -/
theorem ImageMachine.of_tasks (h : ImageMachine image s g v) {table : ℕ → Task}
    {current tick esp0 : ℕ} {enabled : Bool} {stack : ℕ → ℕ} {trace : List Event} :
    ImageMachine image { s with
      processTable := table, currentTask := current, tick, esp0, multitaskingEnabled := enabled,
      stack, trace } g v := by
  obtain ⟨live, carved, hinv⟩ := h.window
  obtain ⟨⟨g₀, v₀, hdriver⟩, -⟩ := h.mounted.toMounted
  obtain ⟨t, ht⟩ : ∃ t : Machine, t = { s with
      processTable := table, currentTask := current, tick, esp0, multitaskingEnabled := enabled,
      stack, trace } := ⟨_, rfl⟩
  have hload : ∀ va b, load8 va s = .ok b s → load8 va t = .ok b t := by
    intro va b hb
    obtain ⟨pa, htranslate, rfl, -⟩ := load8_ok hb
    rw [ht]
    exact load8_eq htranslate
  have hheap : DriverHeap t 4 g₀ v₀ := by
    rw [ht]
    exact ⟨hdriver.toKernelHeap.same rfl rfl rfl rfl rfl rfl rfl rfl, hdriver.windows,
      hdriver.windows_le, hdriver.block⟩
  have hmounted : Mounted t 4 (diskFat (imageFile image).disk)
      (diskGeometry (imageFile image).disk) := by
    refine h.mounted.toMounted.of_kept ⟨g₀, v₀, hheap⟩ ?_ ?_ fun va _ => hload va
    · rw [ht]
    · rw [ht]
  have hdirectory : CachedDirectory t (imageFile image).directory := by
    intro o ho
    rw [ht] at ho
    have hbyte := hload _ _ (h.directory o ho)
    rwa [ht] at hbyte ⊢
  rw [ht] at hmounted hdirectory
  exact ⟨⟨live, carved, ⟨⟨hinv.space.same rfl rfl rfl rfl,
    hinv.heap.of_words rfl rfl rfl fun _ _ => ⟨rfl, rfl⟩, hinv.noGap, hinv.cr3, hinv.heapPage,
    hinv.live_eq, hinv.carved_eq⟩, hinv.windows, hinv.temp⟩⟩, h.small, h.spaces,
    ⟨hmounted, h.mounted.below, h.mounted.bpb⟩, h.disk, h.dataArea, h.rootBuffer, h.rootEntries,
    hdirectory⟩

theorem ImageMachine.kernelHeap (h : ImageMachine image s g v) : KernelHeap s g v := by
  obtain ⟨_, _, hinv⟩ := h.window
  exact ⟨hinv.space, hinv.heap, hinv.cr3⟩

theorem ImageMachine.heapPage (h : ImageMachine image s g v) :
    g.heapPage = 33 ∧ g.windows.length = 4 ∧ g.temp = none := by
  obtain ⟨_, _, hinv⟩ := h.window
  exact ⟨hinv.heapPage, hinv.windows, hinv.temp⟩

theorem ImageMachine.heapEnd (h : ImageMachine image s g v) :
    s.alignedTop ≤ s.heapEnd ∧ s.heapEnd = 4096 * (33 + g.heap.length) := by
  have hend := h.kernelHeap.heap.end_eq
  have htop := h.kernelHeap.heap.top_le
  rw [h.heapPage.1] at hend
  unfold Machine.alignedTop
  exact ⟨by omega, hend⟩

theorem ImageMachine.belowWindows (h : ImageMachine image s g v) : BelowWindows s 88 := by
  obtain ⟨htop, hend⟩ := h.heapEnd
  have hsmall := h.small
  refine ⟨h.mounted.below, .inr ?_⟩
  unfold sizeofBlockHeader fatVirtAddr
  omega

theorem ImageMachine.hasRoom (h : ImageMachine image s g v) : HasRoom s 88 := by
  obtain ⟨_, _, hinv⟩ := h.window
  obtain ⟨hpage, hwindows, -⟩ := h.heapPage
  have hsmall := h.small
  have htop := h.heapEnd.1
  refine .inr ?_
  rw [hinv.noGap.linear.free_count, hpage, hwindows]
  unfold sizeofBlockHeader
  omega

theorem ImageMachine.fileEntry (h : ImageMachine image s g v) :
    FileEntry s s.rootDirectoryBuffer 88 2 :=
  (imageFile image).fileEntry h.directory h.rootEntries (show 88 < 2 ^ 16 by decide)

/-! ## Reading it -/

/-- The file has been read into a block of the heap, which grew when it had to. -/
structure ImageRead (image : List UInt8) (s : Machine) (g : Layout) (buf : ℕ) (u : Machine) :
    Prop where
  run : fsReadFile s.rootDirectoryBuffer s = .ok buf u
  image : ImageAt image u.view buf
  table : u.processTable = s.processTable
  block : ∃ frames v a, KernelHeap u (g.extend frames) v ∧ buf = a + 8 ∧ (a, 88) ∈ v.live ∧
    Roomy u (g.extend frames) (42 + (g.extend frames).heap.length) ∧ frames.length ≤ 1 ∧
    (s.alignedTop + 96 ≤ s.heapEnd → frames = [])

/-- One page is enough for it, and none is needed where the heap has room. -/
theorem ImageMachine.growth (h : ImageMachine image s g v) {frames : List ℕ} {t : Machine}
    (hgrowth : Growth s g v 88 frames t) :
    frames.length ≤ 1 ∧ (s.alignedTop + 96 ≤ s.heapEnd → frames = []) := by
  have hend := h.kernelHeap.heap.end_eq
  have htop := h.kernelHeap.heap.top_le
  constructor
  · by_contra hmore
    have hneeded := hgrowth.needed 1 (by omega)
    omega
  · intro hroom
    by_contra hne
    have hneeded := hgrowth.needed 0 (List.length_pos_iff.mpr hne)
    unfold Machine.alignedTop at hroom
    omega

/-- The cluster chain of the file holds its bytes. -/
theorem ImageMachine.filled (h : ImageMachine image s g v) {t : Machine}
    (hown : OwnMemory t (FatCell t (diskGeometry (imageFile image).disk).fatBytes) buf 88)
    (hfilled : Filled t buf (chainByte s
      ((diskGeometry (imageFile image).disk).next (diskFat (imageFile image).disk)) 2 512)
      (min 88 ([2, 3].length * 512)) u) : ImageAt image u.view buf := by
  intro i hi
  obtain ⟨pa, -, hload⟩ := hfilled.byte hown (Nat.min_le_left _ _) hi
  have hmin : i < min 88 ([2, 3].length * 512) := lt_min hi (lt_of_lt_of_le hi (by decide))
  rw [if_pos hmin] at hload
  obtain ⟨pa', htranslate, hbyte, -⟩ := load8_ok hload
  have hlba : clusterLba s 2 = 182 := by
    unfold clusterLba
    rw [h.dataArea]
    decide
  unfold Machine.view
  rw [htranslate]
  refine hbyte.symm.trans ?_
  unfold chainByte bounceByte
  rw [Nat.div_eq_of_lt (by omega), Nat.mod_eq_of_lt (by omega), if_pos (by omega),
    Function.iterate_zero_apply, hlba, h.disk]
  change image.getD (512 * (182 - 182) + i) 0 = _
  rw [Nat.sub_self, Nat.mul_zero, Nat.zero_add]

theorem ImageMachine.read (h : ImageMachine image s g v) (hclean : Clean s.trace) :
    ∃ buf u, ImageRead image s g buf u := by
  have hroot := h.rootBuffer
  obtain ⟨hpage, hwindows, -⟩ := h.heapPage
  obtain ⟨buf, t, hmalloc, hroom, -, -, hserves⟩ :=
    h.mounted.toMounted.malloc (show 88 ≠ 0 by omega) h.belowWindows
  have hne : buf ≠ 0 := hroom.mpr h.hasRoom
  have hserves := hserves s.rootDirectoryBuffer (by rw [hroot]; unfold EntryCached; decide) hne
  obtain ⟨u, hrun, hfilled⟩ := fsReadFile_path h.mounted.volume h.fileEntry (by omega) hserves
    (imageFile image).path
  have hsame := hfilled.same
  have hcluster : (diskGeometry (imageFile image).disk).clusterBytes = 512 :=
    (by decide : (diskGeometry (imageFile []).disk).clusterBytes = 512)
  rw [hcluster] at hfilled
  have htrace : t.trace = s.trace :=
    (h.mounted.toMounted.malloc_kept (by omega) h.belowWindows hmalloc).2 hne
  have hclean : Clean u.trace := by
    rw [hsame]
    change Clean t.trace
    rwa [htrace]
  obtain ⟨_, _, hinv⟩ := h.window
  obtain ⟨frames, v₁, hinv₁, hgrowth⟩ := hinv.toHeapRunInvariant.malloc (by decide) hmalloc
  obtain ⟨frames₂, v₂, a, hheap, hbuf, hlive⟩ := h.kernelHeap.fsReadFile
    h.fileEntry.file_size (by omega) hclean hrun hne
  obtain ⟨hfew, hnone⟩ := h.growth hgrowth
  have hlength : frames₂.length = frames.length := by
    have hend := hheap.heap.end_eq
    have hend₁ := hinv₁.heap.end_eq
    rw [hsame] at hend
    change t.heapEnd = 4096 * (g.heapPage + (g.heap ++ frames₂).length) at hend
    change t.heapEnd = 4096 * (g.heapPage + (g.heap ++ frames).length) at hend₁
    rw [List.length_append] at hend hend₁
    omega
  refine ⟨buf, u, hrun, h.filled hserves.own hfilled, ?_, frames₂, v₂, a, hheap, hbuf, ?_,
    ⟨?_, by omega, ?_, hclean⟩, by omega, fun hroom => ?_⟩
  · rw [hsame]
    change t.processTable = s.processTable
    exact (loaderBlind_processTable.malloc 88).ok hmalloc
  · rw [hlive]
    exact List.mem_cons_self
  · have hlinear := hinv₁.noGap.linear
    change t.pmm.Linear (g.heapPage + 5 + (g.heap ++ frames).length + g.windows.length) at hlinear
    rw [hpage, hwindows, List.length_append, ← hlength, ← List.length_append] at hlinear
    have hcount : 42 + (g.heap ++ frames₂).length = 33 + 5 + (g.heap ++ frames₂).length + 4 := by
      omega
    rw [hsame]
    change t.pmm.Linear (42 + (g.heap ++ frames₂).length)
    rw [hcount]
    exact hlinear
  · change g.heapPage + (g.heap ++ frames₂).length ≤ 42 + (g.heap ++ frames₂).length
    omega
  · rw [hnone hroom] at hlength
    exact List.length_eq_zero_iff.mp hlength

/-- The heap does not touch where the root directory is cached. -/
theorem heapBlind_root : HeapBlind fun s t : Machine =>
    (t.rootDirectoryBuffer, t.rootDirectorySize) =
      (s.rootDirectoryBuffer, s.rootDirectorySize) where
  toChain := chain_eq fun s : Machine => (s.rootDirectoryBuffer, s.rootDirectorySize)
  mem := fun _ _ => rfl
  pmm := fun _ _ => rfl
  trace := fun _ _ => rfl
  heapTop := fun _ _ => rfl
  heapEnd := fun _ _ => rfl
  freeListHead := fun _ _ => rfl

/-- A small request leaves the machine as it is, but for two more pages of heap at most. -/
theorem ImageMachine.malloc (h : ImageMachine image s g v) {size p : ℕ} (hpos : size ≠ 0)
    (hsize : size ≤ 4096) (hsmall : g.heap.length ≤ 14) (hrun : malloc size s = .ok p s') :
    ∃ frames v', ImageMachine image s' (g.extend frames) v' ∧ frames.length ≤ 2 := by
  obtain ⟨live, carved, hinv⟩ := h.window
  obtain ⟨hpage, hwindows, -⟩ := h.heapPage
  obtain ⟨htop, hend⟩ := h.heapEnd
  have hbelow : BelowWindows s size := by
    refine ⟨h.mounted.below, .inr ?_⟩
    unfold sizeofBlockHeader fatVirtAddr
    omega
  have hmounted := h.mounted.malloc (fun _ => hbelow) hrun
  have hkept := (h.mounted.toMounted.malloc_kept hpos hbelow hrun).1
  obtain ⟨frames, v', hinv', hgrowth⟩ :=
    hinv.toHeapRunInvariant.malloc (hsize.trans (by decide)) hrun
  have hfew : frames.length ≤ 2 := by
    by_contra hmore
    have hneeded := hgrowth.needed 2 (by omega)
    have hle := h.kernelHeap.heap.top_le
    omega
  have hvars := (heapBlind_driver.malloc size).ok hrun
  simp only [Prod.mk.injEq] at hvars
  obtain ⟨-, -, hdisk, hstart, -⟩ := hvars
  have hroot := (heapBlind_root.malloc size).ok hrun
  simp only [Prod.mk.injEq] at hroot
  refine ⟨frames, v', ⟨⟨_, _, ⟨hinv', hwindows, hinv.temp⟩⟩, ?_, h.spaces, hmounted,
    hdisk.trans h.disk, hstart.trans h.dataArea, hroot.1.trans h.rootBuffer, ?_, ?_⟩, hfew⟩
  · change (g.heap ++ frames).length ≤ 16
    rw [List.length_append]
    omega
  · rw [← h.rootEntries]
    unfold MyOS.rootEntries
    rw [hroot.2]
  · have hentries : MyOS.rootEntries s' = MyOS.rootEntries s := by
      unfold MyOS.rootEntries
      rw [hroot.2]
    intro o ho
    rw [hentries] at ho
    rw [hroot.1]
    refine hkept _ (.inr ?_) _ (h.directory o ho)
    rw [h.rootEntries] at ho
    rw [h.rootBuffer]
    unfold fatVirtAddr
    omega

theorem ImageMachine.openProgram (h : ImageMachine image s g v) (hread : ImageRead image s g buf u)
    (hbuf : buf ≠ 0) : openProgram (text "prog.bin") s = .ok (some buf) u := by
  unfold MyOS.openProgram
  rw [bind_of_ok ((imageFile image).fsFindFile h.directory h.rootEntries),
    if_neg (by rw [h.rootBuffer]; omega), bind_of_ok hread.run, if_neg hbuf]
  rfl

/-! ## Starting it -/

/-- The program is started, with a kernel stack that is reached at its own addresses. -/
theorem ImageMachine.execProgram (h : ImageMachine programImage s g v) (hclean : Clean s.trace)
    (hslot : findFreeSlot s.processTable = some 2) {args : List (List UInt8)}
    (hfit : ArgsFit (text "prog.bin" :: args)) :
    ∃ s', MyOS.execProgram (text "prog.bin" :: args) s = .ok (some 2) s' ∧ Clean s'.trace ∧
      s'.StackReached (s'.processTable 2).kernelStack := by
  obtain ⟨buf, u, hread⟩ := h.read hclean
  obtain ⟨frames, v₁, a, hheap, rfl, hlive, hroom, hfew, -⟩ := hread.block
  have hn : 42 + (g.extend frames).heap.length ≤ 59 := by
    have hsmall := h.small
    change 42 + (g.heap ++ frames).length ≤ 59
    rw [List.length_append]
    omega
  rw [← hread.table] at hslot
  have hbounds : ∀ i < 88, (g.extend frames).InHeap (a + 8 + i) := fun i hi =>
    (hheap.heap.live_bounds hlive hi).1
  have hload := hheap.load32_view (hbounds 0 (by omega)) (hbounds 3 (by omega))
  have hmagic : u.view.get32 (a + 8 + 0) = elfMagic :=
    (hread.image.get32 (by decide)).trans (by decide)
  rw [hmagic, Nat.add_zero] at hload
  obtain ⟨d, c, s', hclone, hd, hrun, hclean, hstack⟩ := hheap.loadProgram_total hroom
    h.heapPage.2.2 hslot (h.spaces 2) hlive (programImage_plain hread.image) (by
      rw [programImage_segments hread.image]
      exact le_trans (Nat.add_le_add_right (Nat.add_le_add_right hn 11) _) (by decide))
    (text "prog.bin") hfit u.kernelDirectory
  have hopen := h.openProgram hread (by omega)
  refine ⟨s', ?_, hclean, hstack⟩
  unfold MyOS.execProgram
  change (MyOS.openProgram (text "prog.bin") >>= _) s = _
  rw [bind_of_ok hopen]
  change (load32 (a + 8) >>= _) u = _
  rw [bind_of_ok hload, if_neg (fun hne => hne rfl), bind_of_ok (get_apply u), bind_of_ok hclone,
    if_neg hd]
  exact hrun

/-- What is read under the program's name is its image. -/
theorem ImageMachine.reads (h : ImageMachine programImage s g v) (hclean : Clean s.trace)
    {entry size : ℕ}
    (hfind : fsFindFile (text "prog.bin") s = .ok entry s)
    (hload : load32 (entry + 28) s = .ok size s) (hrun : fsReadFile entry s = .ok buf u) :
    ImageAt programImage u.view buf ∧ size = 88 := by
  rw [programFile.fsFindFile h.directory h.rootEntries] at hfind
  obtain rfl := (EStateM.Result.ok.inj hfind).1
  rw [h.fileEntry.file_size] at hload
  obtain ⟨buf', u', hread⟩ := h.read hclean
  rw [hread.run] at hrun
  obtain ⟨rfl, rfl⟩ := EStateM.Result.ok.inj hrun
  exact ⟨hread.image, (EStateM.Result.ok.inj hload).1.symm⟩

theorem ImageMachine.readsFile (h : ImageMachine programImage s g v) (hclean : Clean s.trace)
    (args : List (List UInt8)) :
    ReadsFile SeparateImage (text "prog.bin" :: args) s := by
  intro filename rest entry size buf t hargv hfind hload hrun _
  obtain ⟨rfl, -⟩ := List.cons.inj hargv
  obtain ⟨himage, rfl⟩ := h.reads hclean hfind hload hrun
  exact programImage_separate himage

end MyOS
