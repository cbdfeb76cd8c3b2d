import MyOS.Verification.Fs.Caches
import MyOS.Verification.Fs.DriverHeap

/-! The cached volume while the heap stays below the windows: after `init_fs` it is that of the
disk, and calls to `malloc` and `free` leave it as it was. -/

namespace MyOS

open Effect X86Paging ByteMemory PageTables Ownership BlockHeap

variable {s s' s₀ : Machine} {g : Layout} {v : HeapView} {n size p entry page : ℕ}
  {fat : ℕ → UInt8} {geo : Geometry} {live : List (ℕ × ℕ)} {carved : List ℕ}

/-! ## The mounted volume -/

/-- The driver has a volume: its parameter block is on the heap, its FAT in the first of the `n`
pages of the windows. -/
structure Mounted (s : Machine) (n : ℕ) (fat : ℕ → UInt8) (geo : Geometry) : Prop where
  heap : ∃ g v, DriverHeap s n g v
  fatBuffer : s.fatBuffer = fatVirtAddr
  fat_fits : geo.fatBytes ≤ 4096 * n
  volume : FatVolume s fat geo

/-- A directory entry in the windows. -/
def EntryCached (n entry : ℕ) : Prop :=
  fatVirtAddr ≤ entry ∧ entry + sizeofFatDirEntry ≤ fatVirtAddr + 4096 * n

theorem Mounted.driverCell (h : Mounted s n fat geo) {va : ℕ}
    (hva : FatCell s geo.fatBytes va) : DriverCell s n va := by
  rcases hva with hbpb | ⟨o, ho, rfl⟩
  · exact .inl hbpb
  · have hfits := h.fat_fits
    rw [h.fatBuffer]
    exact .inr ⟨by omega, by omega⟩

theorem Mounted.of_kept (h : Mounted s n fat geo) (hheap : ∃ g v, DriverHeap s' n g v)
    (hbpb : s'.bpb = s.bpb) (hfat : s'.fatBuffer = s.fatBuffer) (hkept : CellsKept n s s') :
    Mounted s' n fat geo :=
  ⟨hheap, hfat.trans h.fatBuffer, h.fat_fits,
    h.volume.transfer hbpb hfat fun va hva => hkept va (h.driverCell hva)⟩

theorem FileEntry.of_kept {size first : ℕ} (he : FileEntry s entry size first)
    (hcached : EntryCached n entry) (hkept : CellsKept n s s') :
    FileEntry s' entry size first := by
  obtain ⟨hlow, hhigh⟩ := hcached
  unfold sizeofFatDirEntry at hhigh
  exact ⟨load32_transfer (fun k hk => hkept _ (.inr ⟨by omega, by omega⟩)) he.file_size,
    load16_transfer (fun k hk => hkept _ (.inr ⟨by omega, by omega⟩)) he.first_cluster⟩

/-- A request below the windows leaves the volume mounted, and serves a file if there is room. -/
theorem Mounted.malloc (h : Mounted s n fat geo) (hpos : size ≠ 0)
    (hbelow : BelowWindows s size) :
    ∃ p s', MyOS.malloc size s = .ok p s' ∧ (p ≠ 0 ↔ HasRoom s size) ∧ Mounted s' n fat geo ∧
      s'.heapEnd ≤ fatVirtAddr ∧
      ∀ entry, EntryCached n entry → p ≠ 0 → MallocServes s geo entry size p s' := by
  obtain ⟨g, v, hheap⟩ := h.heap
  obtain ⟨p, s', g', v', hrun, hroom, hheap', hend, hkept, -, hown⟩ := hheap.malloc hpos hbelow
  have hdriver := (heapBlind_driver.malloc size).ok hrun
  simp only [Prod.mk.injEq] at hdriver
  obtain ⟨hbpb, hfat, -⟩ := hdriver
  have h' := h.of_kept ⟨g', v', hheap'⟩ hbpb hfat hkept
  refine ⟨p, s', hrun, hroom, h', hend, ?_⟩
  intro entry hentry hp
  obtain ⟨hmapped, hapart, htables, hcells⟩ := hown hp
  refine ⟨hrun, hp, ⟨hmapped, hapart, htables, ?_⟩, ?_⟩
  · intro i hi va hva
    exact hcells i hi va (h'.driverCell hva)
  · intro va hva b hb
    refine hkept va ?_ b hb
    rcases hva with hva | ⟨k, hk, rfl⟩
    · exact h.driverCell hva
    · obtain ⟨hlow, hhigh⟩ := hentry
      unfold sizeofFatDirEntry at hhigh
      exact .inr ⟨by omega, by omega⟩

theorem Mounted.malloc_kept (h : Mounted s n fat geo) (hpos : size ≠ 0)
    (hbelow : BelowWindows s size) (hrun : MyOS.malloc size s = .ok p s') :
    CellsKept n s s' ∧ (p ≠ 0 → s'.trace = s.trace) := by
  obtain ⟨g, v, hheap⟩ := h.heap
  obtain ⟨q, t, -, -, hmalloc, -, -, -, hkept, htrace, -⟩ := hheap.malloc hpos hbelow
  rw [hmalloc] at hrun
  obtain ⟨rfl, rfl⟩ := EStateM.Result.ok.inj hrun
  exact ⟨hkept, htrace⟩

/-! ## After boot -/

/-- The volume is mounted, and the heap ends below the windows. -/
structure MountedBelow (s : Machine) (page n : ℕ) (fat : ℕ → UInt8) (geo : Geometry) : Prop
    extends Mounted s n fat geo where
  below : s.heapEnd ≤ fatVirtAddr
  bpb : s.bpb = 4096 * page + 8

/-- The FAT in the sectors behind the reserved ones. -/
def diskFat (disk : ℕ → ℕ → UInt8) (o : ℕ) : UInt8 := disk (bpbWord disk 14 + o / 512) (o % 512)

/-- What the parameter block says. -/
def diskGeometry (disk : ℕ → ℕ → UInt8) : Geometry := ⟨bpbWord disk 11, disk 0 13, bpbWord disk 22⟩

theorem FsCaches.mounted {disk : ℕ → ℕ → UInt8} (h : FsCaches disk page s)
    (hfs : FsState disk page (windowPages disk) s) (hpage : page < 768)
    (hbelow : windowPages disk ≤ 256) (hsector : bpbWord disk 11 = 512) :
    MountedBelow s page (windowPages disk) (diskFat disk) (diskGeometry disk) := by
  have hfatBytes : (diskGeometry disk).fatBytes = bpbWord disk 22 * 512 := by
    unfold Geometry.fatBytes diskGeometry
    rw [hsector]
  have hend : s.heapEnd = 4096 * (page + 1) := hfs.heap.end_eq
  refine ⟨⟨⟨_, _, ⟨⟨hfs.space, hfs.heap, hfs.cr3⟩, fsLayout_windows_length _ _, hbelow, 4096 * page,
    hfs.bpb, List.mem_singleton.mpr rfl⟩⟩, h.fatBuffer, ?_, ⟨⟨?_, ?_, ?_⟩, ?_⟩⟩, ?_, hfs.bpb⟩
  · rw [hfatBytes]
    unfold windowPages fatPages
    rw [hsector]
    omega
  · exact hfs.load16 (by omega) (by decide)
  · exact hfs.load16 (by omega) (by decide)
  · intro o ho
    refine h.load8_fat hfs hpage hbelow hsector ?_
    rw [← hfatBytes]
    exact ho
  · exact hfs.load8 (by omega) (by decide)
  · unfold fatVirtAddr
    omega

/-! ## Whole runs -/

theorem WindowInv.other_block
    (h : WindowInv page n s (live ++ [(4096 * page + 8, sizeofBpb)]) carved g v)
    (hp : (p, size) ∈ live) :
    ∃ a, (a, size) ∈ v.live ∧ p = a + 8 ∧ (4096 * page, sizeofBpb) ∈ v.live ∧ a ≠ 4096 * page := by
  obtain ⟨a, ha, rfl⟩ := h.live_block (List.mem_append_left _ hp)
  obtain ⟨b, hb, heq⟩ := h.live_block (List.mem_append_right live (List.mem_singleton.mpr rfl))
  obtain rfl : 4096 * page = b := by omega
  refine ⟨a, ha, rfl, hb, ?_⟩
  rintro rfl
  have hnodup : (v.live.map Prod.fst).Nodup := (List.nodup_append.mp h.heap.heap.nodup).1
  have hshift : ((live ++ [(4096 * page + 8, sizeofBpb)]).map Prod.fst).Nodup := by
    rw [h.live_eq, List.map_map]
    have hinj : Function.Injective fun x => x + 8 := fun x y hxy => Nat.add_right_cancel hxy
    have := hnodup.map hinj
    rwa [List.map_map] at this
  rw [List.map_append] at hshift
  exact (List.nodup_append.mp hshift).2.2 _ (List.mem_map.mpr ⟨_, hp, rfl⟩) _
    (List.mem_singleton.mpr rfl) rfl

theorem WindowInv.driverHeap
    (h : WindowInv page n s (live ++ [(4096 * page + 8, sizeofBpb)]) carved g v)
    (hbpb : s.bpb = 4096 * page + 8) : DriverHeap s n g v := by
  obtain ⟨b, hb, heq⟩ := h.live_block (List.mem_append_right live (List.mem_singleton.mpr rfl))
  refine ⟨⟨h.space, h.heap, h.cr3⟩, h.windows, ?_, b, hbpb.trans heq, hb⟩
  rw [← h.windows]
  exact h.noGap.windows_le

theorem WindowInv.apart_bpb
    (h : WindowInv page n s (live ++ [(4096 * page + 8, sizeofBpb)]) carved g v)
    (hbpb : s.bpb = 4096 * page + 8) (hp : (p, size) ∈ live) :
    ∃ a, (a, size) ∈ v.live ∧ p = a + 8 ∧ (a + 8 + size ≤ s.bpb - 8 ∨ s.bpb + sizeofBpb ≤ a) := by
  obtain ⟨a, ha, hpa, hblock, hne⟩ := h.other_block hp
  have := h.heap.live_apart ha hblock hne
  exact ⟨a, ha, hpa, by omega⟩

theorem MountedBelow.malloc (h : MountedBelow s page n fat geo)
    (hbelow : size ≠ 0 → BelowWindows s size) (hrun : MyOS.malloc size s = .ok p s') :
    MountedBelow s' page n fat geo := by
  by_cases hzero : size = 0
  · rw [hzero] at hrun
    obtain ⟨-, rfl⟩ := EStateM.Result.ok.inj (show EStateM.Result.ok 0 s = .ok p s' from hrun)
    exact h
  · obtain ⟨q, t, hmalloc, -, hmounted, hend, -⟩ := h.toMounted.malloc hzero (hbelow hzero)
    rw [hmalloc] at hrun
    obtain ⟨rfl, rfl⟩ := EStateM.Result.ok.inj hrun
    have hdriver := (heapBlind_driver.malloc size).ok hmalloc
    simp only [Prod.mk.injEq] at hdriver
    exact ⟨hmounted, hend, hdriver.1.trans h.bpb⟩

theorem MountedBelow.write (h : MountedBelow s page n fat geo) (hheap : DriverHeap s n g v)
    {m : ByteMemory} (head : ℕ) (v' : HeapView) (written : ℕ → Prop)
    (hheap' : DriverHeap { s with mem := m, freeListHead := head } n g v')
    (hwritten : ∀ x, written x → g.InHeap x ∧ ∀ k < sizeofBpb, x ≠ s.bpb + k)
    (hmem : ∀ x, (∀ va, written va → x ≠ g.phys va) → m x = s.mem x) :
    MountedBelow { s with mem := m, freeListHead := head } page n fat geo := by
  rw [← g.extend_nil] at hheap' hwritten
  refine ⟨h.toMounted.of_kept ⟨_, _, hheap'⟩ rfl rfl ?_, h.below, h.bpb⟩
  refine hheap.cellsKept hheap' h.below rfl hwritten ?_
  rw [g.extend_nil]
  exact fun x _ => hmem x

theorem MountedBelow.free (h : MountedBelow s page n fat geo) (hinv : WindowRunInv page n s live)
    (hp : (p, size) ∈ live) (hrun : MyOS.free p s = .ok () s') :
    MountedBelow s' page n fat geo := by
  obtain ⟨carved, g, v, hwin⟩ := hinv
  have hheap := hwin.driverHeap h.bpb
  obtain ⟨a, ha, rfl, hout⟩ := hwin.apart_bpb h.bpb hp
  obtain ⟨m, hfree, hm, hspace, hinv'⟩ := hwin.heap.free_spec hwin.space (.inl hwin.cr3) ha
  rw [hfree] at hrun
  obtain ⟨-, rfl⟩ := EStateM.Result.ok.inj hrun
  obtain ⟨k, hk, -⟩ := hwin.heap.heap.live_block ha
  obtain ⟨⟨hlow, -⟩, ⟨-, hhigh⟩, haligned, -, -⟩ := hwin.heap.block_bounds hk
  obtain ⟨c, hc, hblock⟩ := hheap.block
  refine h.write hheap a (v.release a size) (fun x => ∃ i < 4, x = a + 4 + i)
    ⟨⟨hspace, hinv', hwin.cr3⟩, hheap.windows, hheap.windows_le, c, hc, ?_⟩ ?_ ?_
  · refine (List.mem_erase_of_ne ?_).mpr hblock
    intro heq
    injection heq
    omega
  · rintro x ⟨i, hi, rfl⟩
    exact ⟨⟨by omega, by omega⟩, fun k hk => by omega⟩
  · intro x hx
    rw [hm]
    refine set32_of_outside _ _ ?_
    by_contra hin
    refine hx (a + 4 + (x - g.phys (a + 4))) ⟨_, by omega, rfl⟩ ?_
    rw [phys_add g (by omega)]
    omega

theorem MountedBelow.store8 (h : MountedBelow s page n fat geo) (hinv : WindowRunInv page n s live)
    (hp : (p, size) ∈ live) {i : ℕ} {b : UInt8} (hi : i < size)
    (hrun : MyOS.store8 (p + i) b s = .ok () s') : MountedBelow s' page n fat geo := by
  obtain ⟨carved, g, v, hwin⟩ := hinv
  have hheap := hwin.driverHeap h.bpb
  obtain ⟨a, ha, rfl, hout⟩ := hwin.apart_bpb h.bpb hp
  obtain ⟨hstore, hspace, hinv'⟩ := hwin.heap.write hwin.space (.inl hwin.cr3) ha hi b
  rw [hstore] at hrun
  obtain ⟨-, rfl⟩ := EStateM.Result.ok.inj hrun
  refine h.write hheap s.freeListHead v (fun x => x = a + 8 + i)
    ⟨⟨hspace, hinv', hwin.cr3⟩, hheap.windows, hheap.windows_le, hheap.block⟩ ?_ ?_
  · rintro x rfl
    exact ⟨(hwin.heap.live_bounds ha hi).1, fun k hk => by omega⟩
  · intro x hx
    exact set8_of_ne _ _ (hx _ rfl)

/-- The volume stays mounted over every run of calls whose requests stay below the windows. -/
theorem HeapCalls.mounted (hs₀ : WindowRunInv page n s₀ [])
    (hmounted : MountedBelow s₀ page n fat geo)
    (h : HeapCalls (fun s size => size ≠ 0 → BelowWindows s size) s₀ s live) :
    MountedBelow s page n fat geo := by
  induction h with
  | start => exact hmounted
  | malloc _ _ hbelow hrun ih => exact ih.malloc hbelow hrun
  | free hcalls hp hrun ih => exact ih.free (hcalls.inv hs₀) hp hrun
  | write hcalls hp hi hrun ih => exact ih.store8 (hcalls.inv hs₀) hp hi hrun

end MyOS
