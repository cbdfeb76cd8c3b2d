import MyOS.Verification.Fs.Clusters

/-! `fs_read_file` with the buffer it gets from `malloc`, on a volume of any geometry and with
any FAT. -/

namespace MyOS

open Effect X86Paging Orbit

/-! ## The heap does not look at the disk -/

def Machine.withDisk (s : Machine) (disk : ℕ → ℕ → UInt8) : Machine := { s with disk }

section WithDisk

variable (disk : ℕ → ℕ → UInt8)

theorem load8_withDisk (va : ℕ) : Commutes (Machine.withDisk · disk) (load8 va) := by
  intro s
  have htranslate : (s.withDisk disk).translate va = s.translate va := rfl
  unfold load8
  rw [htranslate]
  cases s.translate va with
  | none => rfl
  | some pa => rfl

theorem store8_withDisk (va : ℕ) (b : UInt8) :
    Commutes (Machine.withDisk · disk) (store8 va b) := by
  intro s
  have htranslate : (s.withDisk disk).translate va = s.translate va := rfl
  unfold store8
  rw [htranslate]
  cases s.translate va with
  | none => rfl
  | some pa => rfl

theorem store32_withDisk (va v : ℕ) : Commutes (Machine.withDisk · disk) (store32 va v) := by
  intro s
  have htranslate : (s.withDisk disk).translate va = s.translate va := rfl
  unfold store32
  rw [htranslate]
  cases s.translate va with
  | none => rfl
  | some pa => rfl

theorem load16_withDisk (va : ℕ) : Commutes (Machine.withDisk · disk) (load16 va) :=
  (load8_withDisk disk _).bind fun _ => (load8_withDisk disk _).bind fun _ => commutes_pure _

theorem load32_withDisk (va : ℕ) : Commutes (Machine.withDisk · disk) (load32 va) :=
  (load8_withDisk disk _).bind fun _ => (load8_withDisk disk _).bind fun _ =>
    (load8_withDisk disk _).bind fun _ => (load8_withDisk disk _).bind fun _ => commutes_pure _

theorem allocFrame_withDisk : Commutes (Machine.withDisk · disk) allocFrame := fun _ => rfl

theorem pagingMapPage_withDisk (dir virtAddr physAddr flags : ℕ) :
    Commutes (Machine.withDisk · disk) (pagingMapPage dir virtAddr physAddr flags) := by
  refine Commutes.bind ?_ fun pte => commutes_ite (store32_withDisk disk _ _) (commutes_pure _)
  refine (load32_withDisk disk _).bind fun pde => commutes_ite (commutes_pure _) ?_
  refine commutes_ite ((allocFrame_withDisk disk).bind fun table => ?_) (commutes_pure _)
  refine commutes_ite (commutes_pure _) (Commutes.bind (commutes_modify ?_) fun _ => ?_)
  · intro s
    rfl
  · refine (commutes_forRange (fun _ => store8_withDisk disk _ _) _).bind fun _ => ?_
    exact (store32_withDisk disk _ _).bind fun _ => commutes_pure _

theorem mallocWalk_withDisk (size fuel : ℕ) (link : Link) :
    Commutes (Machine.withDisk · disk) (mallocWalk size fuel link) := by
  have hread : ∀ link : Link, Commutes (Machine.withDisk · disk) link.read := by
    intro link
    cases link with
    | head => exact commutes_get_bind (fun _ => rfl) fun _ => commutes_pure _
    | next addr => exact load32_withDisk disk _
  have hwrite : ∀ (v : ℕ) (link : Link), Commutes (Machine.withDisk · disk) (link.write v) := by
    intro v link
    cases link with
    | head => exact commutes_modify fun _ => rfl
    | next addr => exact store32_withDisk disk _ _
  induction fuel generalizing link with
  | zero => exact commutes_throw _
  | succ fuel ih =>
      refine (hread link).bind fun current => commutes_ite (commutes_pure _) ?_
      refine (load32_withDisk disk _).bind fun blockSize => commutes_ite ?_ (ih _)
      refine (load32_withDisk disk _).bind fun next => ?_
      exact (hwrite _ _).bind fun _ => commutes_pure _

theorem mallocGrow_withDisk (size fuel : ℕ) :
    Commutes (Machine.withDisk · disk) (mallocGrow size fuel) := by
  induction fuel with
  | zero => exact commutes_throw _
  | succ fuel ih =>
      refine commutes_get_bind (fun _ => rfl) fun s => commutes_ite ?_ (commutes_pure _)
      refine (allocFrame_withDisk disk).bind fun frame => commutes_ite (commutes_pure _) ?_
      refine (pagingMapPage_withDisk disk _ _ _ _).bind fun _ => ?_
      refine Commutes.bind (commutes_modify ?_) fun _ => ih
      intro s
      rfl

theorem malloc_withDisk (size : ℕ) : Commutes (Machine.withDisk · disk) (malloc size) := by
  have hcarve : Commutes (Machine.withDisk · disk) (mallocCarve size) := by
    refine commutes_get_bind (fun _ => rfl) fun s => ?_
    refine Commutes.bind (commutes_modify ?_) fun _ => ?_
    · intro s
      rfl
    · refine (store32_withDisk disk _ _).bind fun _ => ?_
      exact (store32_withDisk disk _ _).bind fun _ => commutes_pure _
  unfold malloc
  refine commutes_ite (commutes_pure _) ((mallocWalk_withDisk disk _ _ _).bind fun found => ?_)
  cases found with
  | some p => exact commutes_pure _
  | none =>
      refine Commutes.bind (commutes_modify ?_) fun _ => ?_
      · intro s
        change (if s.heapTop % 4 ≠ 0 then _ else _) = Machine.withDisk (if _ then _ else _) disk
        split <;> rfl
      · refine commutes_get_bind (fun _ => rfl) fun s => ?_
        exact (mallocGrow_withDisk disk _ _).bind fun _ => commutes_ite hcarve (commutes_pure _)

end WithDisk

/-! ## Buffer and directory entry -/

/-- A request has been served with memory of the caller's own, and the cached volume and the
directory entry are as they were. -/
structure MallocServes (s : Machine) (g : Geometry) (entry size buf : ℕ) (t : Machine) : Prop where
  run : malloc size s = .ok buf t
  ne_zero : buf ≠ 0
  own : OwnMemory t (FatCell t g.fatBytes) buf size
  kept : ∀ va, FatCell s g.fatBytes va ∨ (∃ k < 32, va = entry + k) →
    ∀ b, load8 va s = .ok b s → load8 va t = .ok b t

/-- The fields of the directory entry that are read. -/
structure FileEntry (s : Machine) (entry size first : ℕ) : Prop where
  file_size : load32 (entry + 28) s = .ok size s
  first_cluster : load16 (entry + 26) s = .ok first s

variable {s t : Machine} {fat : ℕ → UInt8} {g : Geometry} {entry size first buf : ℕ}

/-- The heap does not touch the driver's variables. -/
theorem heapBlind_driver : HeapBlind fun s t : Machine =>
    (t.bpb, t.fatBuffer, t.disk, t.dataAreaStartSector, t.dmaBuffer) =
      (s.bpb, s.fatBuffer, s.disk, s.dataAreaStartSector, s.dmaBuffer) where
  toChain := chain_eq fun s : Machine =>
    (s.bpb, s.fatBuffer, s.disk, s.dataAreaStartSector, s.dmaBuffer)
  mem := fun _ _ => rfl
  pmm := fun _ _ => rfl
  trace := fun _ _ => rfl
  heapTop := fun _ _ => rfl
  heapEnd := fun _ _ => rfl
  freeListHead := fun _ _ => rfl

theorem MallocServes.driver (h : MallocServes s g entry size buf t) :
    t.bpb = s.bpb ∧ t.fatBuffer = s.fatBuffer ∧ t.disk = s.disk ∧
      t.dataAreaStartSector = s.dataAreaStartSector ∧ t.dmaBuffer = s.dmaBuffer := by
  have hvars := (heapBlind_driver.malloc size).ok h.run
  simpa only [Prod.mk.injEq] using hvars

theorem MallocServes.volume (h : MallocServes s g entry size buf t) (hv : FatVolume s fat g) :
    FatVolume t fat g :=
  hv.transfer h.driver.1 h.driver.2.1 fun va hva b hb => h.kept va (.inl hva) b hb

theorem MallocServes.fileEntry (h : MallocServes s g entry size buf t) {n : ℕ}
    (he : FileEntry s entry n first) : FileEntry t entry n first :=
  ⟨load32_transfer (fun k hk b hb => h.kept _ (.inr ⟨28 + k, by omega, by omega⟩) b hb)
      he.file_size,
    load16_transfer (fun k hk b hb => h.kept _ (.inr ⟨26 + k, by omega, by omega⟩) b hb)
      he.first_cluster⟩

/-- What is copied does not depend on the state of the heap. -/
theorem MallocServes.chainByte (h : MallocServes s g entry size buf t) :
    chainByte t = chainByte s := by
  obtain ⟨-, -, hdisk, hstart, hdma⟩ := h.driver
  funext next first clusterBytes i
  rw [MyOS.chainByte, MyOS.chainByte, bounceByte, bounceByte, clusterLba, clusterLba, hdisk, hstart,
    hdma]

/-! ## The disk may hold anything -/

theorem FatVolume.withDisk (hv : FatVolume s fat g) (disk : ℕ → ℕ → UInt8) :
    FatVolume (s.withDisk disk) fat g :=
  hv.transfer rfl rfl fun va _ _ hb => (load8_withDisk disk va).ok hb

theorem FileEntry.withDisk (he : FileEntry s entry size first) (disk : ℕ → ℕ → UInt8) :
    FileEntry (s.withDisk disk) entry size first :=
  ⟨(load32_withDisk disk _).ok he.file_size, (load16_withDisk disk _).ok he.first_cluster⟩

theorem load8_of_withDisk {disk : ℕ → ℕ → UInt8} {va : ℕ} {b : UInt8}
    (h : load8 va (s.withDisk disk) = .ok b (s.withDisk disk)) : load8 va s = .ok b s := by
  obtain ⟨pa, hpa, hb, -⟩ := load8_ok h
  rw [hb]
  exact load8_eq hpa

theorem MallocServes.withDisk (h : MallocServes s g entry size buf t)
    (disk : ℕ → ℕ → UInt8) : MallocServes (s.withDisk disk) g entry size buf (t.withDisk disk) where
  run := (malloc_withDisk disk size).ok h.run
  ne_zero := h.ne_zero
  own := ⟨h.own.mapped, h.own.apart, h.own.tables, h.own.cells⟩
  kept := fun va hva b hb => (load8_withDisk disk va).ok (h.kept va hva b (load8_of_withDisk hb))

/-! ## `fs_read_file` -/

/-- With a buffer, what is left is the loop. -/
theorem fsReadFile_loop (he : load32 (entry + 28) s = .ok size s) (hpos : 0 < size)
    (hrun : malloc size s = .ok buf t) (hbuf : buf ≠ 0)
    (hfirst : load16 (entry + 26) t = .ok first t) (hv : FatVolume t fat g) :
    fsReadFile entry s = (do
      readClusters buf size g.clusterBytes (2 ^ 45) 0 first
      return buf : Kernel ℕ) t := by
  rw [fsReadFile, bind_of_ok he, if_neg (by omega), bind_of_ok hrun, if_neg hbuf,
    bind_of_ok hfirst, bind_of_ok (get_apply t), bind_of_ok hv.cluster_size,
    bind_of_ok hv.sector_size]
  rfl

theorem fsReadFile_eq (hv : FatVolume s fat g) (he : FileEntry s entry size first)
    (hpos : 0 < size) (hmalloc : MallocServes s g entry size buf t) :
    fsReadFile entry s = (do
      readClusters buf size g.clusterBytes (2 ^ 45) 0 first
      return buf : Kernel ℕ) t :=
  fsReadFile_loop he.file_size hpos hmalloc.run hmalloc.ne_zero (hmalloc.fileEntry he).first_cluster
    (hmalloc.volume hv)

/-- Without a buffer `NULL` is returned. -/
theorem fsReadFile_null (he : FileEntry s entry size first) (hpos : 0 < size)
    (hmalloc : malloc size s = .ok 0 t) : fsReadFile entry s = .ok 0 t := by
  rw [fsReadFile, bind_of_ok he.file_size, if_neg (by omega), bind_of_ok hmalloc]
  rfl

/-- Along a chain that ends, the buffer is filled as far as the chain reaches. -/
theorem fsReadFile_path (hv : FatVolume s fat g) (he : FileEntry s entry size first)
    (hpos : 0 < size) (hmalloc : MallocServes s g entry size buf t) {clusters : List ℕ}
    (hchain : Path (g.next fat) IsCluster first clusters) :
    ∃ u, fsReadFile entry s = .ok buf u ∧
      Filled t buf (chainByte s (g.next fat) first g.clusterBytes)
        (min size (clusters.length * g.clusterBytes)) u := by
  have hlength := length_chain_le hchain
  obtain ⟨u, hu, hrun⟩ := readClusters_path hmalloc.own (hmalloc.volume hv) hchain
    (Nat.min_le_left _ _) (show clusters.length < 2 ^ 45 by omega)
  rw [hmalloc.chainByte] at hu
  refine ⟨u, ?_, hu⟩
  rw [fsReadFile_eq hv he hpos hmalloc, bind_of_ok hrun]
  rfl

/-- Along a chain that does not end, nothing is returned. -/
theorem fsReadFile_endless (hv : FatVolume s fat g) (he : FileEntry s entry size first)
    (hpos : 0 < size) (hmalloc : MallocServes s g entry size buf t)
    (hlive : ∀ j, IsCluster ((g.next fat)^[j] first)) :
    ∃ u, fsReadFile entry s = .error .spin u := by
  obtain ⟨u, hrun⟩ := readClusters_endless hmalloc.own (hmalloc.volume hv) hlive (2 ^ 45)
  refine ⟨u, ?_⟩
  rw [fsReadFile_eq hv he hpos hmalloc]
  exact bind_of_error hrun

/-- The byte at `i` of the filled buffer, and behind it. -/
theorem Filled.byte {cell : ℕ → Prop} {content : ℕ → UInt8} {n i : ℕ} {u : Machine}
    (hown : OwnMemory t cell buf size) (h : Filled t buf content n u) (hn : n ≤ size)
    (hi : i < size) : ∃ pa, t.translate (buf + i) = some pa ∧
      MyOS.load8 (buf + i) u = .ok (if i < n then content i else t.mem pa) u := by
  obtain ⟨pa, hpa⟩ := hown.mapped i hi
  refine ⟨pa, hpa, ?_⟩
  rw [load8_eq ((h.translate hown hn _).trans hpa)]
  by_cases hin : i < n
  · rw [if_pos hin, h.inside i hin pa hpa]
  · rw [if_neg hin, h.outside pa]
    intro j hj htr
    have := hown.apart i hi j (by omega) (hpa.trans htr.symm)
    omega

end MyOS
