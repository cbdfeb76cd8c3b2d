import MyOS.Model.Shell

/-! What the memory system leaves alone. A view of the machine that does not look at memory,
frames and heap is the same before and after every operation on them, whatever the outcome. -/

namespace MyOS

open Effect

/-- The relation asks nothing of the machine but that it be reachable: reading is free. -/
structure ReadBlind (R : Machine → Machine → Prop) : Prop extends Chain R

/-- Nor does it ask anything of memory. -/
structure StoreBlind (R : Machine → Machine → Prop) : Prop extends ReadBlind R where
  mem : ∀ s m, R s { s with mem := m }

/-- Nor of the bits of the frame allocator. The trace may grow. -/
structure MemoryBlind (R : Machine → Machine → Prop) : Prop extends StoreBlind R where
  pmm : ∀ s b, R s { s with pmm := { s.pmm with pmmBitmap := b } }
  trace : ∀ s e, R s { s with trace := e :: s.trace }

/-- Nor of the variables of the heap. -/
structure HeapBlind (R : Machine → Machine → Prop) : Prop extends MemoryBlind R where
  heapTop : ∀ s a, R s { s with heapTop := a }
  heapEnd : ∀ s a, R s { s with heapEnd := a }
  freeListHead : ∀ s a, R s { s with freeListHead := a }

/-- Nor of the active directory and the disk buffer. -/
structure LoaderBlind (R : Machine → Machine → Prop) : Prop extends HeapBlind R where
  cr3 : ∀ s a, R s { s with cr3 := a }
  dmaBuffer : ∀ s b, R s { s with dmaBuffer := b }

variable {R : Machine → Machine → Prop}

/-! ## Memory and frames -/

theorem readBlind_id : ReadBlind fun s t : Machine => t = s := ⟨chain_eq id⟩

theorem ReadBlind.load8 (hf : ReadBlind R) (va : ℕ) : Leads R (load8 va) := by
  intro s
  unfold final MyOS.load8
  cases s.translate va with
  | none => exact hf.refl s
  | some pa => exact hf.refl s

theorem ReadBlind.load16 (hf : ReadBlind R) (va : ℕ) : Leads R (load16 va) :=
  hf.bind (hf.load8 _) fun _ => hf.bind (hf.load8 _) fun _ => hf.pure _

theorem ReadBlind.load32 (hf : ReadBlind R) (va : ℕ) : Leads R (load32 va) :=
  hf.bind (hf.load8 _) fun _ => hf.bind (hf.load8 _) fun _ =>
    hf.bind (hf.load8 _) fun _ => hf.bind (hf.load8 _) fun _ => hf.pure _

theorem StoreBlind.store8 (hf : StoreBlind R) (va : ℕ) (b : UInt8) : Leads R (store8 va b) := by
  intro s
  unfold final MyOS.store8
  cases s.translate va with
  | none => exact hf.refl s
  | some pa => exact hf.mem s _

theorem StoreBlind.store32 (hf : StoreBlind R) (va v : ℕ) : Leads R (store32 va v) := by
  intro s
  unfold final MyOS.store32
  cases s.translate va with
  | none => exact hf.refl s
  | some pa => exact hf.mem s _

theorem StoreBlind.memset (hf : StoreBlind R) (buf : ℕ) (c : UInt8) (n : ℕ) :
    Leads R (memset buf c n) :=
  hf.forRange (fun _ => hf.store8 _ _) n

theorem StoreBlind.memcpy (hf : StoreBlind R) (dest src n : ℕ) : Leads R (memcpy dest src n) :=
  hf.forRange (fun _ => hf.bind (hf.load8 _) fun _ => hf.store8 _ _) n

theorem StoreBlind.memcpyFrom (hf : StoreBlind R) (dest : ℕ) (src : ℕ → UInt8) (n : ℕ) :
    Leads R (memcpyFrom dest src n) :=
  hf.forRange (fun _ => hf.store8 _ _) n

theorem MemoryBlind.allocFrame (hf : MemoryBlind R) : Leads R allocFrame := by
  intro s
  have hpmm : (pmmAllocFrame s.pmm).2 =
      { s.pmm with pmmBitmap := (pmmAllocFrame s.pmm).2.pmmBitmap } := by
    unfold pmmAllocFrame
    cases findFreeFrame s.pmm with
    | none => rfl
    | some frameIdx => rfl
  have htaken : R s { s with pmm := (pmmAllocFrame s.pmm).2 } := by
    rw [hpmm]
    exact hf.pmm s _
  unfold final MyOS.allocFrame
  dsimp only
  by_cases hnull : (pmmAllocFrame s.pmm).1 = 0
  · rw [if_pos hnull]
    exact hf.trans htaken (hf.trace _ _)
  · rw [if_neg hnull]
    exact htaken

theorem MemoryBlind.freeFrame (hf : MemoryBlind R) (addr : ℕ) : Leads R (freeFrame addr) :=
  leads_modify fun s => hf.pmm s _

/-! ## Paging -/

section Mapping

/-! It is enough that frames can be taken and the trace may grow. -/

variable (hf : StoreBlind R) (halloc : Leads R allocFrame)
  (htrace : ∀ s e, R s { s with trace := e :: s.trace })

include hf halloc htrace

theorem StoreBlind.pagingGetPage (dir va : ℕ) (create : Bool) (flags : ℕ) :
    Leads R (pagingGetPage dir va create flags) := by
  unfold MyOS.pagingGetPage
  refine hf.bind (hf.load32 _) fun pde => ?_
  refine leads_ite (hf.pure _) (leads_ite ?_ (hf.pure _))
  refine hf.bind halloc fun newTablePhys => ?_
  refine leads_ite (hf.pure _) ?_
  refine hf.bind (leads_modify fun s => htrace s _) fun _ => ?_
  refine hf.bind (hf.memset _ _ _) fun _ => ?_
  exact hf.bind (hf.store32 _ _) fun _ => hf.pure _

theorem StoreBlind.pagingMapPage (dir va phys flags : ℕ) :
    Leads R (pagingMapPage dir va phys flags) := by
  unfold MyOS.pagingMapPage
  refine hf.bind (hf.pagingGetPage halloc htrace _ _ _ _) fun pte => ?_
  exact leads_ite (hf.store32 _ _) (hf.pure _)

end Mapping

theorem MemoryBlind.pagingMapPage (hf : MemoryBlind R) (dir va phys flags : ℕ) :
    Leads R (pagingMapPage dir va phys flags) :=
  hf.toStoreBlind.pagingMapPage hf.allocFrame hf.trace _ _ _ _

theorem MemoryBlind.copyKernelEntries (hf : MemoryBlind R) (newDirVirt : ℕ) :
    Leads R (copyKernelEntries newDirVirt) := by
  unfold MyOS.copyKernelEntries
  refine hf.bind (hf.load32 _) fun _ => hf.bind (hf.store32 _ _) fun _ => ?_
  refine hf.forRange (fun k => hf.bind (hf.load32 _) fun e => ?_) 255
  exact leads_ite (hf.store32 _ _) (hf.pure _)

theorem MemoryBlind.pagingCloneDirectory (hf : MemoryBlind R) (src : ℕ) :
    Leads R (pagingCloneDirectory src) := by
  unfold MyOS.pagingCloneDirectory
  refine hf.bind hf.allocFrame fun newDirPhys => leads_ite (hf.pure _) ?_
  refine hf.bind (hf.pagingMapPage _ _ _ _) fun _ => ?_
  refine hf.bind (hf.memset _ _ _) fun _ => hf.bind (hf.copyKernelEntries _) fun _ => ?_
  refine hf.bind (hf.store32 _ _) fun _ => ?_
  exact hf.bind (hf.pagingMapPage _ _ _ _) fun _ => hf.pure _

theorem MemoryBlind.freeTableFrames (hf : MemoryBlind R) (ptVirt : ℕ) :
    Leads R (freeTableFrames ptVirt) := by
  refine hf.forRange (fun j => hf.bind (hf.load32 _) fun e => ?_) 1024
  exact leads_ite (hf.freeFrame _) (hf.pure _)

theorem MemoryBlind.pagingFreeDirectory (hf : MemoryBlind R) (dir : ℕ) :
    Leads R (pagingFreeDirectory dir) := by
  unfold MyOS.pagingFreeDirectory
  refine leads_ite (hf.pure _) (hf.bind (hf.pagingMapPage _ _ _ _) fun _ => ?_)
  refine hf.bind (hf.forRange (fun k => ?_) 767) fun _ => ?_
  · refine hf.bind (hf.load32 _) fun pde => leads_ite ?_ (hf.pure _)
    refine hf.bind (hf.get) fun s => hf.bind (hf.pagingMapPage _ _ _ _) fun _ => ?_
    refine hf.bind (hf.freeTableFrames _) fun _ => ?_
    exact hf.bind (hf.pagingMapPage _ _ _ _) fun _ => hf.freeFrame _
  · exact hf.bind (hf.pagingMapPage _ _ _ _) fun _ => hf.freeFrame _

/-! ## The heap -/

theorem ReadBlind.linkRead (hf : ReadBlind R) (link : Link) : Leads R link.read := by
  cases link with
  | head => exact hf.bind (hf.get) fun _ => hf.pure _
  | next addr => exact hf.load32 addr

theorem HeapBlind.linkWrite (hf : HeapBlind R) (v : ℕ) (link : Link) : Leads R (link.write v) := by
  cases link with
  | head => exact leads_modify fun s => hf.freeListHead s _
  | next addr => exact hf.store32 _ _

theorem HeapBlind.mallocWalk (hf : HeapBlind R) (size fuel : ℕ) (link : Link) :
    Leads R (mallocWalk size fuel link) := by
  induction fuel generalizing link with
  | zero => exact hf.throw _
  | succ fuel ih =>
      refine hf.bind (hf.linkRead link) fun current => leads_ite (hf.pure _) ?_
      refine hf.bind (hf.load32 _) fun blockSize => leads_ite ?_ (ih _)
      refine hf.bind (hf.load32 _) fun next => ?_
      exact hf.bind (hf.linkWrite _ _) fun _ => hf.pure _

theorem HeapBlind.mallocGrow (hf : HeapBlind R) (size fuel : ℕ) :
    Leads R (mallocGrow size fuel) := by
  induction fuel with
  | zero => exact hf.throw _
  | succ fuel ih =>
      refine hf.bind (hf.get) fun s => leads_ite ?_ (hf.pure _)
      refine hf.bind hf.allocFrame fun frame => leads_ite (hf.pure _) ?_
      refine hf.bind (hf.pagingMapPage _ _ _ _) fun _ => ?_
      exact hf.bind (leads_modify fun s => hf.heapEnd s _) fun _ => ih

theorem HeapBlind.mallocCarve (hf : HeapBlind R) (size : ℕ) : Leads R (mallocCarve size) := by
  refine hf.bind (hf.get) fun s => ?_
  refine hf.bind (leads_modify fun s => hf.heapTop s _) fun _ => ?_
  refine hf.bind (hf.store32 _ _) fun _ => ?_
  exact hf.bind (hf.store32 _ _) fun _ => hf.pure _

theorem HeapBlind.malloc (hf : HeapBlind R) (size : ℕ) : Leads R (malloc size) := by
  unfold MyOS.malloc
  refine leads_ite (hf.pure _) (hf.bind (hf.mallocWalk _ _ _) fun found => ?_)
  cases found with
  | some p => exact hf.pure _
  | none =>
      refine hf.bind (leads_modify fun s => ?_) fun _ => ?_
      · by_cases ha : s.heapTop % 4 ≠ 0
        · rw [if_pos ha]
          exact hf.heapTop s _
        · rw [if_neg ha]
          exact hf.refl s
      · refine hf.bind (hf.get) fun s => hf.bind (hf.mallocGrow _ _) fun grown => ?_
        exact leads_ite (hf.mallocCarve _) (hf.pure _)

theorem HeapBlind.free (hf : HeapBlind R) (ptr : ℕ) : Leads R (free ptr) := by
  unfold MyOS.free
  refine leads_ite (hf.pure _) (hf.bind (hf.get) fun s => ?_)
  exact hf.bind (hf.store32 _ _) fun _ => leads_modify fun s => hf.freeListHead s _

/-! ## Files -/

theorem ReadBlind.memcmpEq (hf : ReadBlind R) (bytes : List UInt8) (addr : ℕ) :
    Leads R (memcmpEq bytes addr) := by
  induction bytes generalizing addr with
  | nil => exact hf.pure _
  | cons b bs ih =>
      exact hf.bind (hf.load8 _) fun c => leads_ite (ih _) (hf.pure _)

theorem ReadBlind.searchDirectory (hf : ReadBlind R) (name : List UInt8) (n entry : ℕ) :
    Leads R (searchDirectory name n entry) := by
  induction n generalizing entry with
  | zero => exact hf.pure _
  | succ n ih =>
      refine hf.bind (hf.load8 _) fun first => leads_ite (hf.pure _) ?_
      refine leads_ite (ih _) (hf.bind (hf.load8 _) fun attributes => ?_)
      refine leads_ite (ih _) (hf.bind (hf.memcmpEq _ _) fun same => ?_)
      refine leads_ite (hf.bind (hf.memcmpEq _ _) fun same => ?_) (ih _)
      exact leads_ite (hf.pure _) (ih _)

theorem ReadBlind.fsFindFile (hf : ReadBlind R) (filename : List UInt8) :
    Leads R (fsFindFile filename) := by
  unfold MyOS.fsFindFile
  cases fatName filename with
  | none => exact hf.pure _
  | some name => exact hf.bind (hf.get) fun s => hf.searchDirectory _ _ _

theorem ReadBlind.fsGetFatEntry (hf : ReadBlind R) (cluster : ℕ) : Leads R (fsGetFatEntry cluster) := by
  refine hf.bind (hf.get) fun s => hf.bind (hf.load16 _) fun _ => ?_
  refine hf.bind (hf.load16 _) fun _ => leads_ite (hf.pure _) ?_
  exact hf.bind (hf.load8 _) fun _ => hf.bind (hf.load8 _) fun _ => hf.pure _

theorem LoaderBlind.readClusters (hf : LoaderBlind R) (fileBuffer size bytesPerCluster fuel : ℕ)
    (copied cluster : ℕ) :
    Leads R (readClusters fileBuffer size bytesPerCluster fuel copied cluster) := by
  induction fuel generalizing copied cluster with
  | zero => exact hf.throw _
  | succ fuel ih =>
      refine leads_ite (hf.bind (hf.get) fun s => ?_) (hf.pure _)
      refine hf.bind (leads_modify fun s => hf.dmaBuffer s _) fun _ => ?_
      refine hf.bind (hf.get) fun s => ?_
      refine hf.bind (hf.memcpyFrom _ _ _) fun _ => ?_
      exact hf.bind (hf.fsGetFatEntry _) fun next => ih _ _

theorem LoaderBlind.fsReadFile (hf : LoaderBlind R) (entry : ℕ) : Leads R (fsReadFile entry) := by
  refine hf.bind (hf.load32 _) fun size => leads_ite (hf.malloc _) ?_
  refine hf.bind (hf.malloc _) fun fileBuffer => leads_ite (hf.pure _) ?_
  refine hf.bind (hf.load16 _) fun cluster => hf.bind (hf.get) fun s => ?_
  refine hf.bind (hf.load8 _) fun _ => hf.bind (hf.load16 _) fun _ => ?_
  exact hf.bind (hf.readClusters _ _ _ _ _ _) fun _ => hf.pure _

/-! ## Loading a program -/

theorem LoaderBlind.openProgram (hf : LoaderBlind R) (filename : List UInt8) :
    Leads R (openProgram filename) := by
  refine hf.bind (hf.fsFindFile _) fun entry => leads_ite (hf.pure _) ?_
  exact hf.bind (hf.fsReadFile _) fun fileBuffer => hf.pure _

theorem MemoryBlind.mapSegmentPages (hf : MemoryBlind R) (newDir phdr fuel p : ℕ) :
    Leads R (mapSegmentPages newDir phdr fuel p) := by
  induction fuel generalizing p with
  | zero => exact hf.throw _
  | succ fuel ih =>
      refine hf.bind (hf.load32 _) fun memsz => leads_ite ?_ (hf.pure _)
      refine hf.bind (hf.load32 _) fun vaddr => ?_
      refine hf.bind hf.allocFrame fun frame => leads_ite (hf.pure _) ?_
      exact hf.bind (hf.pagingMapPage _ _ _ _) fun _ => ih _

theorem StoreBlind.clearBss (hf : StoreBlind R) (phdr : ℕ) : Leads R (clearBss phdr) := by
  refine hf.bind (hf.load32 _) fun memsz => hf.bind (hf.load32 _) fun filesz => ?_
  refine leads_ite (hf.bind (hf.load32 _) fun vaddr => ?_) (hf.pure _)
  exact hf.memset _ _ _

theorem StoreBlind.fillSegment (hf : StoreBlind R) (fileBuffer phdr : ℕ) :
    Leads R (fillSegment fileBuffer phdr) := by
  refine hf.bind (hf.load32 _) fun vaddr => hf.bind (hf.load32 _) fun offset => ?_
  refine hf.bind (hf.load32 _) fun filesz => hf.bind (hf.memcpy _ _ _) fun _ => ?_
  exact hf.clearBss phdr

theorem MemoryBlind.loadSegment (hf : MemoryBlind R) (newDir fileBuffer phdr : ℕ) :
    Leads R (loadSegment newDir fileBuffer phdr) := by
  refine hf.bind (hf.load32 _) fun type => leads_ite ?_ (hf.pure _)
  refine hf.bind (hf.get) fun s => hf.bind (hf.mapSegmentPages _ _ _ _) fun ok => ?_
  refine leads_ite ?_ (hf.pure _)
  exact hf.bind (hf.fillSegment _ _) fun _ => hf.pure _

theorem MemoryBlind.loadSegments (hf : MemoryBlind R) (newDir fileBuffer phdrs n i : ℕ) :
    Leads R (loadSegments newDir fileBuffer phdrs n i) := by
  induction n generalizing i with
  | zero => exact hf.pure _
  | succ n ih =>
      refine hf.bind (hf.load16 _) fun phnum => leads_ite ?_ (hf.pure _)
      refine hf.bind (hf.loadSegment _ _ _) fun ok => ?_
      exact leads_ite (ih _) (hf.pure _)

theorem MemoryBlind.mapStackPages (hf : MemoryBlind R) (newDir n i : ℕ) :
    Leads R (mapStackPages newDir n i) := by
  induction n generalizing i with
  | zero => exact hf.pure _
  | succ n ih =>
      refine hf.bind hf.allocFrame fun frame => leads_ite (hf.pure _) ?_
      exact hf.bind (hf.pagingMapPage _ _ _ _) fun _ => ih _

theorem StoreBlind.pushStrings (hf : StoreBlind R) (argv : List (List UInt8)) (stackPtr : ℕ) :
    Leads R (pushStrings argv stackPtr) := by
  induction argv with
  | nil => exact hf.pure _
  | cons str rest ih =>
      refine hf.bind ih fun below => ?_
      exact hf.bind (hf.memcpyFrom _ _ _) fun _ => hf.pure _

theorem StoreBlind.setupArguments (hf : StoreBlind R) (argv : List (List UInt8)) :
    Leads R (setupArguments argv) := by
  refine hf.bind (hf.pushStrings _ _) fun pushed => ?_
  refine hf.bind (hf.forRange (fun i => hf.store32 _ _) _) fun _ => ?_
  refine hf.bind (hf.store32 _ _) fun _ => hf.bind (hf.store32 _ _) fun _ => ?_
  exact hf.bind (hf.store32 _ _) fun _ => hf.pure _

theorem LoaderBlind.switchDirectory (hf : LoaderBlind R) (dir : ℕ) :
    Leads R (pagingSwitchDirectory dir) :=
  leads_modify fun s => hf.cr3 s _

/-- Nor of the process table. -/
structure ProcessBlind (R : Machine → Machine → Prop) : Prop extends LoaderBlind R where
  processTable : ∀ s t, R s { s with processTable := t }

theorem ProcessBlind.installTask (hf : ProcessBlind R) (filename : List UInt8)
    (fileBuffer newDir userStackPtr : ℕ) :
    Leads R (installTask filename fileBuffer newDir userStackPtr) := by
  refine hf.bind (hf.get) fun s => ?_
  cases findFreeSlot s.processTable with
  | none =>
      refine hf.bind (hf.pagingFreeDirectory _) fun _ => ?_
      exact hf.bind (hf.free _) fun _ => hf.pure _
  | some newPid =>
      refine hf.bind hf.allocFrame fun kernelStack => hf.bind (hf.load32 _) fun _ => ?_
      refine hf.bind (leads_modify fun s => hf.processTable s _) fun _ => ?_
      exact hf.bind (hf.free _) fun _ => hf.pure _

theorem ProcessBlind.loadProgram (hf : ProcessBlind R) (filename : List UInt8)
    (argv : List (List UInt8)) (fileBuffer newDir : ℕ) :
    Leads R (loadProgram filename argv fileBuffer newDir) := by
  refine hf.bind (hf.get) fun s => hf.bind (hf.switchDirectory _) fun _ => ?_
  refine hf.bind (hf.load32 _) fun phoff => ?_
  refine hf.bind (hf.loadSegments _ _ _ _ _) fun loaded => leads_ite ?_ ?_
  · refine hf.bind (hf.mapStackPages _ _ _) fun mapped => leads_ite ?_ ?_
    · refine hf.bind (hf.setupArguments _) fun _ => ?_
      exact hf.bind (hf.switchDirectory _) fun _ => hf.installTask _ _ _ _
    · refine hf.bind (hf.switchDirectory _) fun _ => ?_
      refine hf.bind (hf.pagingFreeDirectory _) fun _ => ?_
      exact hf.bind (hf.free _) fun _ => hf.pure _
  · refine hf.bind (hf.pagingFreeDirectory _) fun _ => ?_
    exact hf.bind (hf.free _) fun _ => hf.pure _

theorem ProcessBlind.execProgram (hf : ProcessBlind R) (argv : List (List UInt8)) :
    Leads R (execProgram argv) := by
  unfold MyOS.execProgram
  cases argv with
  | nil => exact hf.pure _
  | cons filename rest =>
      refine hf.bind (hf.openProgram _) fun opened => ?_
      cases opened with
      | none => exact hf.pure _
      | some fileBuffer =>
          refine hf.bind (hf.load32 _) fun magic => leads_ite ?_ ?_
          · exact hf.bind (hf.free _) fun _ => hf.pure _
          · refine hf.bind (hf.get) fun s => ?_
            refine hf.bind (hf.pagingCloneDirectory _) fun newDir => leads_ite ?_ ?_
            · exact hf.bind (hf.free _) fun _ => hf.pure _
            · exact hf.loadProgram _ _ _ _

/-! ## The process table after `exec_program` -/

theorem loaderBlind_processTable :
    LoaderBlind fun s t : Machine => t.processTable = s.processTable where
  toChain := chain_eq Machine.processTable
  mem := fun _ _ => rfl
  pmm := fun _ _ => rfl
  trace := fun _ _ => rfl
  heapTop := fun _ _ => rfl
  heapEnd := fun _ _ => rfl
  freeListHead := fun _ _ => rfl
  cr3 := fun _ _ => rfl
  dmaBuffer := fun _ _ => rfl

/-- What a call does to the table: nothing when it fails, one new PCB in the first free slot
when it returns a pid. -/
inductive Installs (filename : List UInt8) (s s' : Machine) : Option ℕ → Prop where
  | failed : s'.processTable = s.processTable → Installs filename s s' none
  | started {pid kernelStack pageDirectory entry userStackPtr wakeupTime : ℕ} :
      findFreeSlot s.processTable = some pid →
      s'.processTable = Function.update s.processTable pid
        (newTask pid filename kernelStack pageDirectory entry userStackPtr wakeupTime) →
      Installs filename s s' (some pid)

theorem Installs.of_table {filename : List UInt8} {s t s' : Machine} {r : Option ℕ}
    (htable : t.processTable = s.processTable) (h : Installs filename t s' r) :
    Installs filename s s' r := by
  cases h with
  | failed h => exact .failed (h.trans htable)
  | started hslot h =>
      rw [htable] at hslot h
      exact .started hslot h

theorem installTask_installs {filename : List UInt8} {fileBuffer newDir userStackPtr : ℕ}
    {s s' : Machine} {r : Option ℕ}
    (h : installTask filename fileBuffer newDir userStackPtr s = .ok r s') :
    Installs filename s s' r := by
  have hv := loaderBlind_processTable
  unfold installTask at h
  rw [bind_of_ok (get_apply s)] at h
  cases hslot : findFreeSlot s.processTable with
  | none =>
      rw [hslot] at h
      obtain ⟨_, t, hfree, h⟩ := bind_eq_ok.mp h
      obtain ⟨_, u, hbuf, h⟩ := bind_eq_ok.mp h
      cases h
      exact .failed (((hv.free _).ok hbuf).trans ((hv.pagingFreeDirectory _).ok hfree))
  | some pid =>
      rw [hslot] at h
      obtain ⟨kernelStack, t, halloc, h⟩ := bind_eq_ok.mp h
      obtain ⟨entry, u, hentry, h⟩ := bind_eq_ok.mp h
      rw [bind_of_ok (modify_apply _ u)] at h
      obtain ⟨_, v, hbuf, h⟩ := bind_eq_ok.mp h
      have htable : u.processTable = s.processTable :=
        ((hv.load32 _).ok hentry).trans (hv.allocFrame.ok halloc)
      have hdone : v.processTable = Function.update s.processTable pid
          (newTask pid filename kernelStack newDir entry userStackPtr
            (u.processTable pid).wakeupTime) := by
        rw [(hv.free _).ok hbuf, ← htable]
      cases h
      exact .started hslot hdone

theorem loadProgram_installs {filename : List UInt8} {argv : List (List UInt8)}
    {fileBuffer newDir : ℕ} {s s' : Machine} {r : Option ℕ}
    (h : loadProgram filename argv fileBuffer newDir s = .ok r s') :
    Installs filename s s' r := by
  have hp := loaderBlind_processTable
  unfold loadProgram at h
  rw [bind_of_ok (get_apply s)] at h
  obtain ⟨_, s1, h1, h⟩ := bind_eq_ok.mp h
  obtain ⟨phoff, s2, h2, h⟩ := bind_eq_ok.mp h
  obtain ⟨loaded, s3, h3, h⟩ := bind_eq_ok.mp h
  have hs3 : s3.processTable = s.processTable := by
    rw [(hp.loadSegments _ _ _ _ _).ok h3, (hp.load32 _).ok h2,
      (hp.switchDirectory _).ok h1]
  refine Installs.of_table hs3 ?_
  cases loaded with
  | false =>
      obtain ⟨_, s4, h4, h⟩ := bind_eq_ok.mp h
      obtain ⟨_, s5, h5, h⟩ := bind_eq_ok.mp h
      cases h
      exact .failed (((hp.free _).ok h5).trans ((hp.pagingFreeDirectory _).ok h4))
  | true =>
      obtain ⟨mapped, s4, h4, h⟩ := bind_eq_ok.mp h
      cases mapped with
      | false =>
          obtain ⟨_, s5, h5, h⟩ := bind_eq_ok.mp h
          obtain ⟨_, s6, h6, h⟩ := bind_eq_ok.mp h
          obtain ⟨_, s7, h7, h⟩ := bind_eq_ok.mp h
          cases h
          refine .failed (((hp.free _).ok h7).trans (((hp.pagingFreeDirectory _).ok h6).trans ?_))
          exact ((hp.switchDirectory _).ok h5).trans ((hp.mapStackPages _ _ _).ok h4)
      | true =>
          obtain ⟨userStackPtr, s5, h5, h⟩ := bind_eq_ok.mp h
          obtain ⟨_, s6, h6, h⟩ := bind_eq_ok.mp h
          refine Installs.of_table ?_ (installTask_installs h)
          rw [(hp.switchDirectory _).ok h6, (hp.setupArguments _).ok h5,
            (hp.mapStackPages _ _ _).ok h4]

theorem openProgram_fatName {filename : List UInt8} {s s' : Machine} {fileBuffer : ℕ}
    (h : openProgram filename s = .ok (some fileBuffer) s') : (fatName filename).isSome := by
  cases hname : fatName filename with
  | some name => rfl
  | none =>
      unfold openProgram fsFindFile at h
      rw [hname] at h
      cases h

theorem execProgram_installs {argv : List (List UInt8)} {s s' : Machine} {r : Option ℕ}
    (h : execProgram argv s = .ok r s') :
    s'.processTable = s.processTable ∧ r = none ∨
      ∃ filename rest, argv = filename :: rest ∧ (fatName filename).isSome ∧
        Installs filename s s' r := by
  have hp := loaderBlind_processTable
  unfold execProgram at h
  cases argv with
  | nil =>
      cases h
      exact .inl ⟨rfl, rfl⟩
  | cons filename rest =>
      obtain ⟨opened, s1, h1, h⟩ := bind_eq_ok.mp h
      cases opened with
      | none =>
          cases h
          exact .inl ⟨(hp.openProgram _).ok h1, rfl⟩
      | some fileBuffer =>
          refine .inr ⟨filename, rest, rfl, openProgram_fatName h1, ?_⟩
          obtain ⟨magic, s2, h2, h⟩ := bind_eq_ok.mp h
          have hs2 : s2.processTable = s.processTable := by
            rw [(hp.load32 _).ok h2, (hp.openProgram _).ok h1]
          refine Installs.of_table hs2 ?_
          by_cases hmagic : magic ≠ elfMagic
          · rw [if_pos hmagic] at h
            obtain ⟨_, s3, h3, h⟩ := bind_eq_ok.mp h
            cases h
            exact .failed ((hp.free _).ok h3)
          · rw [if_neg hmagic, bind_of_ok (get_apply s2)] at h
            obtain ⟨newDir, s3, h3, h⟩ := bind_eq_ok.mp h
            refine Installs.of_table ((hp.pagingCloneDirectory _).ok h3) ?_
            by_cases hdir : newDir = 0
            · rw [if_pos hdir] at h
              obtain ⟨_, s4, h4, h⟩ := bind_eq_ok.mp h
              cases h
              exact .failed ((hp.free _).ok h4)
            · rw [if_neg hdir] at h
              exact loadProgram_installs h

end MyOS
