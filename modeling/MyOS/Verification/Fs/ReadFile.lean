import Mathlib.Data.List.GetD
import MyOS.Verification.Fs.FullHeap

/-! `fs_read_file` against the volume: following a cluster chain of the FAT, it returns the
sectors of the chain one after the other, unless the heap grows over the FAT for the buffer. -/

namespace MyOS

open Effect X86Paging ByteMemory PageTables Ownership BlockHeap Orbit

/-! ## The volume -/

/-- The chain from a cluster on, up to an end mark. -/
inductive FatChain (next : ℕ → ℕ) : ℕ → List ℕ → Prop where
  | last {c : ℕ} : 0xFF8 ≤ c → FatChain next c []
  | cons {c : ℕ} {cs : List ℕ} : 2 ≤ c → c ≤ 0xFF7 → FatChain next (next c) cs →
      FatChain next c (c :: cs)

/-- The sector of a cluster, by its 28-bit address. -/
def dataSector (s : Machine) (cluster : ℕ) : List UInt8 :=
  (List.range 512).map (s.disk ((s.dataAreaStartSector + cluster - 2) % 2 ^ 28))

variable {s t : Machine} {f : DiskFile} {g : Layout} {v : HeapView}

theorem FatChain.path {next : ℕ → ℕ} {c : ℕ} {cs : List ℕ} (h : FatChain next c cs) :
    Path next IsCluster c cs := by
  induction h with
  | last hend => exact .stop (by unfold IsCluster; omega)
  | cons _ hlt _ ih => exact .step (by unfold IsCluster; omega) ih

theorem dataSector_length (s : Machine) (c : ℕ) : (dataSector s c).length = 512 := by
  simp [dataSector]

theorem getD_dataSector (s : Machine) (c : ℕ) {i : ℕ} (hi : i < 512) :
    (dataSector s c).getD i 0 = s.disk ((s.dataAreaStartSector + c - 2) % 2 ^ 28) i := by
  simp [dataSector, List.getD_eq_getElem?_getD, hi]

/-- The sectors of the chain one after the other are the bytes copied. -/
theorem getD_dataSectors {next : ℕ → ℕ} {first : ℕ} {clusters : List ℕ}
    (hchain : FatChain next first clusters) {i : ℕ} (hi : i < 512 * clusters.length) :
    (clusters.flatMap (dataSector s)).getD i 0 = chainByte s next first 512 i := by
  induction hchain generalizing i with
  | last _ => simp at hi
  | @cons c cs hc hlt _ ih =>
      rw [List.length_cons] at hi
      rw [List.flatMap_cons]
      by_cases hhead : i < 512
      · rw [List.getD_append _ _ _ _ (by rw [dataSector_length]; omega), chainByte,
          Nat.div_eq_of_lt hhead, Nat.mod_eq_of_lt hhead, Function.iterate_zero_apply, bounceByte,
          if_pos hhead, clusterLba,
          show (s.dataAreaStartSector + c + (2 ^ 32 - 2)) % 2 ^ 32 % 2 ^ 28 =
            (s.dataAreaStartSector + c - 2) % 2 ^ 28 by omega]
        exact getD_dataSector s c hhead
      · rw [List.getD_append_right _ _ _ _ (by rw [dataSector_length]; omega), dataSector_length,
          ih (by omega), chainByte, chainByte, show i / 512 = (i - 512) / 512 + 1 by omega,
          Function.iterate_succ_apply, show i % 512 = (i - 512) % 512 by omega]

/-! ## `fs_read_file` -/

/-- When the heap stays below the windows for it, the buffer that `fs_read_file` returns begins
with the file: the sectors of its cluster chain one after the other. -/
theorem fs_read_file_exact (s t : Machine) (n : ℕ) (fat : ℕ → UInt8) (geo : Geometry)
    (entry size first buf : ℕ) (clusters : List ℕ) (hmounted : Mounted s n fat geo)
    (hsector : geo.bytesPerSector = 512) (hcluster : geo.sectorsPerCluster = 1)
    (hcached : EntryCached n entry) (hentry : FileEntry s entry size first) (hpos : 0 < size)
    (hchain : FatChain (geo.next fat) first clusters) (hlen : size ≤ 512 * clusters.length)
    (hmalloc : malloc size s = .ok buf t) (hbuf : buf ≠ 0) (hbelow : BelowWindows s size) :
    ∃ u, fsReadFile entry s = .ok buf u ∧
      ∀ i < size, load8 (buf + i) u = .ok ((clusters.flatMap (dataSector s)).getD i 0) u := by
  obtain ⟨p, s', hrun, -, -, -, hserves⟩ := hmounted.malloc (by omega) hbelow
  rw [hmalloc] at hrun
  obtain ⟨rfl, rfl⟩ := EStateM.Result.ok.inj hrun
  have hserves := hserves entry hcached hbuf
  have hbytes : geo.clusterBytes = 512 := by
    unfold Geometry.clusterBytes
    rw [hsector, hcluster]
    rfl
  obtain ⟨u, hread, hu⟩ := fsReadFile_path hmounted.volume hentry hpos hserves hchain.path
  rw [hbytes] at hu
  refine ⟨u, hread, ?_⟩
  intro i hi
  obtain ⟨pa, -, hload⟩ := hu.byte hserves.own (Nat.min_le_left _ _) hi
  rw [hload, if_pos (by omega), getD_dataSectors hchain (by omega)]

theorem DiskFile.fatChain (f : DiskFile) :
    FatChain ((diskGeometry f.disk).next (diskFat f.disk)) 2 [2, 3] := by
  obtain ⟨h2, h3⟩ := f.next_fat
  refine .cons (by omega) (by omega) ?_
  rw [h2]
  refine .cons (by omega) (by omega) ?_
  rw [h3]
  exact .last (by omega)

/-- A file of 600 bytes in two clusters. -/
theorem fs_read_file_exact_two_clusters :
    ∃ s buf u, FileMachine ⟨1, 600, UInt8.ofNat⟩ s ∧
      fsReadFile s.rootDirectoryBuffer s = .ok buf u ∧ ∀ i < 600, load8 (buf + i) u =
        .ok (([2, 3].flatMap (dataSector s)).getD i 0) u := by
  obtain ⟨s, hs⟩ := exists_fileMachine ⟨1, 600, UInt8.ofNat⟩
  have hbelow : BelowWindows s 600 := hs.belowWindows (by omega)
  obtain ⟨buf, t, hmalloc, hroom, -⟩ := hs.mounted.toMounted.malloc (by omega) hbelow
  obtain ⟨u, hread, hbytes⟩ := fs_read_file_exact s t 4 _ _ s.rootDirectoryBuffer 600 2 buf [2, 3]
    hs.mounted.toMounted rfl rfl hs.entryCached (hs.fileEntry (show 600 < 2 ^ 16 by omega))
    (by omega) (DiskFile.fatChain _) (by decide) hmalloc (hroom.mpr (hs.hasRoom (by omega))) hbelow
  exact ⟨s, buf, u, hs, hread, hbytes⟩

/-- A heap that is used up to the windows takes the first page of the FAT for the block. The FAT
then ends the chain after one cluster, and byte 512 is what the new frame held. -/
theorem fs_read_file_exact_grows :
    ∃ s buf t u, Mounted s 4 (diskFat (DiskFile.mk 1 600 fun _ => 0).disk)
        (diskGeometry (DiskFile.mk 1 600 fun _ => 0).disk) ∧
      EntryCached 4 0x302000 ∧ FileEntry s 0x302000 600 2 ∧
      FatChain ((diskGeometry (DiskFile.mk 1 600 fun _ => 0).disk).next
        (diskFat (DiskFile.mk 1 600 fun _ => 0).disk)) 2 [2, 3] ∧
      malloc 600 s = .ok buf t ∧ buf ≠ 0 ∧ fsReadFile 0x302000 s = .ok buf u ∧
      load8 (buf + 512) u = .ok 0xFF u ∧ ([2, 3].flatMap (dataSector s)).getD 512 0 = 0 := by
  obtain ⟨s, g, v, h⟩ := exists_fullMachine ⟨1, 600, fun _ => 0⟩ (show 600 < 2 ^ 16 by omega)
  obtain ⟨a, t, v', hw⟩ := h.malloc
  obtain ⟨fat, hfat⟩ : ∃ fat : ℕ → UInt8,
      fat = fun o => t.mem ((g.extend [a]).phys (0x300000 + o)) := ⟨_, rfl⟩
  have hvolume := h.volume hw
  rw [← hfat] at hvolume
  have hbyte : ∀ o < 88, fat o = 0xFF := by
    intro o ho
    rw [hfat]
    simp only
    rw [hw.phys (by omega), h.block_marked hw ho]
  have hnext : (diskGeometry (DiskFile.mk 1 600 fun _ => 0).disk).next fat 2 = 0xFFF := by
    have hbytes : (diskGeometry (DiskFile.mk 1 600 fun _ => 0).disk).fatBytes = 9 * 512 := rfl
    simp [fatNext, hbytes, hbyte 3 (by omega), hbyte 4 (by omega)]
  have hpath : Path ((diskGeometry (DiskFile.mk 1 600 fun _ => 0).disk).next fat) IsCluster 2 [2] := by
    refine .step (show 2 < 0xFF8 by omega) ?_
    rw [hnext]
    exact .stop (show ¬0xFFF < 0xFF8 by omega)
  have hcluster : (diskGeometry (DiskFile.mk 1 600 fun _ => 0).disk).clusterBytes = 512 := rfl
  have hown := h.own hw
  have hentry : FileEntry t 0x302000 600 2 :=
    ⟨load32_transfer (fun k hk b hb => h.kept hw (.inr ⟨by omega, by omega⟩) hb) h.file.file_size,
      load16_transfer (fun k hk b hb => h.kept hw (.inr ⟨by omega, by omega⟩) hb)
        h.file.first_cluster⟩
  have hlast : min 600 ([2].length * (diskGeometry
      (DiskFile.mk 1 600 fun _ => 0).disk).clusterBytes) ≤ 512 := by
    rw [hcluster]
    decide
  obtain ⟨u, hu, hrun⟩ :=
    readClusters_path hown hvolume hpath hlast (show [2].length < 2 ^ 45 by decide)
  rw [hcluster, show min 600 ([2].length * 512) = 512 by decide] at hu
  have hread : fsReadFile 0x302000 s = .ok 0x2FFE00 u := by
    rw [fsReadFile_loop h.file.file_size (show 0 < 600 by omega) hw.run (by omega)
      hentry.first_cluster hvolume, bind_of_ok hrun]
    rfl
  have h' := h.heap.malloced hw.malloced hw.driver.1
  have htranslate : t.translate 0x300000 = some a := by
    rw [h'.translate (.inr (by unfold fatVirtAddr; omega)), ← Nat.add_zero 0x300000,
      hw.phys (by omega), Nat.add_zero]
  refine ⟨s, 0x2FFE00, t, u, h.mounted, by unfold EntryCached; decide, h.file,
    DiskFile.fatChain _, hw.run, by omega, hread, ?_, ?_⟩
  · rw [load8_eq ((hu.translate hown (by decide) 0x300000).trans htranslate), hu.outside]
    · rw [← Nat.add_zero a, h.block_marked hw (by omega)]
    · intro i hi
      rw [← htranslate]
      refine (hown.cells i hi 0x300000 (.inr ⟨0, by decide, ?_⟩)).symm
      rw [hw.driver.2.1, h.mounted.fatBuffer]
      rfl
  · rw [List.flatMap_cons, List.getD_append_right _ _ _ _ (by rw [dataSector_length]),
      dataSector_length, List.flatMap_cons,
      List.getD_append _ _ _ _ (by rw [dataSector_length]; omega), getD_dataSector _ _ (by omega),
      h.disk, h.dataArea]
    rfl

end MyOS
