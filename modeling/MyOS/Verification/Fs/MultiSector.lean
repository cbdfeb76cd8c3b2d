import Mathlib.Data.List.GetD
import MyOS.Verification.Fs.AnyVolume

/-! Volumes with several sectors in a cluster. `fs_read_file` scales `bytes_per_cluster`, but
neither the sector number nor the number of sectors it reads. -/

namespace MyOS

open Effect X86Paging Orbit

def sectorBytes (s : Machine) (lba : ℕ) : List UInt8 :=
  (List.range 512).map (s.disk (lba % 2 ^ 28))

/-- All sectors of a cluster. -/
def clusterSectors (s : Machine) (sectorsPerCluster c : ℕ) : List UInt8 :=
  (List.range sectorsPerCluster).flatMap fun j =>
    sectorBytes s (s.dataAreaStartSector + (c - 2) * sectorsPerCluster + j)

/-- The file is read: its bytes are those of all sectors of its clusters, and no round copies
more than the bounce buffer holds. -/
def ReadsWholeClusters (s : Machine) (g : Geometry) (entry size : ℕ) (clusters : List ℕ) : Prop :=
  (∃ buf u, fsReadFile entry s = .ok buf u ∧ buf ≠ 0 ∧ ∀ i < size, load8 (buf + i) u =
    .ok ((clusters.flatMap (clusterSectors s g.sectorsPerCluster.toNat)).getD i 0) u) ∧
  ∀ k < clusters.length, toCopy size g.clusterBytes k ≤ 512

variable {s t : Machine} {fat : ℕ → UInt8} {g : Geometry} {entry size first buf : ℕ}

theorem length_sectorBytes (s : Machine) (lba : ℕ) : (sectorBytes s lba).length = 512 := by
  simp [sectorBytes]

theorem getD_clusterSectors (s : Machine) {sectorsPerCluster : ℕ} (hpos : 0 < sectorsPerCluster)
    (c : ℕ) (clusters : List ℕ) {i : ℕ} (hi : i < 512) :
    ((c :: clusters).flatMap (clusterSectors s sectorsPerCluster)).getD i 0 =
      s.disk ((s.dataAreaStartSector + (c - 2) * sectorsPerCluster) % 2 ^ 28) i := by
  obtain ⟨n, rfl⟩ : ∃ n, sectorsPerCluster = n + 1 := ⟨sectorsPerCluster - 1, by omega⟩
  rw [List.flatMap_cons, clusterSectors, List.range_succ_eq_map, List.flatMap_cons,
    List.append_assoc, List.getD_append _ _ _ _ (by rw [length_sectorBytes]; omega), Nat.add_zero]
  simp [sectorBytes, List.getD_eq_getElem?_getD, hi]

/-- With a buffer, a file is read right exactly when it is not longer than a sector and the sector
read for its first cluster happens to begin like the first sector of that cluster. -/
theorem MallocServes.readsWholeClusters_iff (hmalloc : MallocServes s g entry size buf t)
    (hvolume : FatVolume s fat g) (hentry : FileEntry s entry size first) (hpos : 0 < size)
    (hsector : g.bytesPerSector = 512)
    (hcluster : ∃ e, 1 ≤ e ∧ e ≤ 7 ∧ g.sectorsPerCluster.toNat = 2 ^ e) {clusters : List ℕ}
    (hchain : Path (g.next fat) IsCluster first clusters) (hdata : ∀ c ∈ clusters, 2 ≤ c)
    (hlong : size ≤ clusters.length * g.clusterBytes) :
    ReadsWholeClusters s g entry size clusters ↔
      size ≤ 512 ∧ ∀ i < size,
        s.disk ((s.dataAreaStartSector + (first - 2)) % 2 ^ 28) i =
          s.disk ((s.dataAreaStartSector + (first - 2) * g.sectorsPerCluster.toNat) % 2 ^ 28) i := by
  have hbytes : 1024 ≤ g.clusterBytes := by
    obtain ⟨e, he, -, hspc⟩ := hcluster
    have htwo : 2 ^ 1 ≤ 2 ^ e := Nat.pow_le_pow_right (by omega) he
    rw [Geometry.clusterBytes, hspc, hsector]
    omega
  have hspc : 0 < g.sectorsPerCluster.toNat := by
    by_contra hzero
    rw [Geometry.clusterBytes, show g.sectorsPerCluster.toNat = 0 by omega] at hbytes
    omega
  -- the file has a first cluster, and the chain starts with it
  obtain ⟨rest, rfl⟩ : ∃ rest, clusters = first :: rest := by
    cases hchain with
    | stop _ =>
        rw [List.length_nil, Nat.zero_mul] at hlong
        omega
    | step _ _ => exact ⟨_, rfl⟩
  have hfirst : 2 ≤ first := hdata first List.mem_cons_self
  have hcopy : (∀ k < (first :: rest).length, toCopy size g.clusterBytes k ≤ 512) ↔
      size ≤ 512 := by
    simp only [toCopy_eq]
    constructor
    · intro h
      have h0 := h 0 (by simp)
      omega
    · intro h k _
      omega
  have hlba : clusterLba s first = (s.dataAreaStartSector + (first - 2)) % 2 ^ 28 := by
    unfold clusterLba
    omega
  have hbyte : size ≤ 512 → ∀ i < size,
      MyOS.chainByte s (g.next fat) first g.clusterBytes i =
        s.disk ((s.dataAreaStartSector + (first - 2)) % 2 ^ 28) i := by
    intro hsmall i hi
    rw [MyOS.chainByte, Nat.div_eq_of_lt (by omega), Nat.mod_eq_of_lt (by omega),
      Function.iterate_zero_apply, bounceByte, if_pos (by omega), hlba]
  obtain ⟨u, hread, hu⟩ := fsReadFile_path hvolume hentry hpos hmalloc hchain
  have hload : ∀ i < size, load8 (buf + i) u =
      .ok (MyOS.chainByte s (g.next fat) first g.clusterBytes i) u := by
    intro i hi
    obtain ⟨pa, -, hload⟩ := hu.byte hmalloc.own (Nat.min_le_left _ _) hi
    rw [hload, if_pos (by omega)]
  rw [ReadsWholeClusters, hcopy]
  constructor
  · rintro ⟨⟨buf', v, hread', -, hbytes'⟩, hsmall⟩
    refine ⟨hsmall, ?_⟩
    intro i hi
    obtain ⟨rfl, rfl⟩ := EStateM.Result.ok.inj (hread.symm.trans hread')
    have heq := (hload i hi).symm.trans (hbytes' i hi)
    rw [hbyte hsmall i hi, getD_clusterSectors s hspc first rest (by omega)] at heq
    exact (EStateM.Result.ok.inj heq).1
  · rintro ⟨hsmall, hsame⟩
    refine ⟨⟨buf, u, hread, hmalloc.ne_zero, ?_⟩, hsmall⟩
    intro i hi
    rw [hload i hi, hbyte hsmall i hi, getD_clusterSectors s hspc first rest (by omega),
      hsame i hi]

/-- With 2 to 128 sectors in a cluster, and while the heap stays below the windows, a file is read
right exactly when there is room for it, it is not longer than a sector, and the sector read for
its first cluster happens to begin like the first sector of that cluster, as it does for
cluster 2. -/
theorem fs_read_file_multi_sector_iff (s : Machine) (n : ℕ) (fat : ℕ → UInt8) (g : Geometry)
    (entry size first : ℕ) (clusters : List ℕ) (hmounted : Mounted s n fat g)
    (hsector : g.bytesPerSector = 512)
    (hcluster : ∃ e, 1 ≤ e ∧ e ≤ 7 ∧ g.sectorsPerCluster.toNat = 2 ^ e)
    (hcached : EntryCached n entry) (hentry : FileEntry s entry size first) (hpos : 0 < size)
    (hchain : Path (g.next fat) IsCluster first clusters) (hdata : ∀ c ∈ clusters, 2 ≤ c)
    (hlong : size ≤ clusters.length * g.clusterBytes) (hbelow : BelowWindows s size) :
    ReadsWholeClusters s g entry size clusters ↔
      HasRoom s size ∧ size ≤ 512 ∧ ∀ i < size,
        s.disk ((s.dataAreaStartSector + (first - 2)) % 2 ^ 28) i =
          s.disk ((s.dataAreaStartSector + (first - 2) * g.sectorsPerCluster.toNat) % 2 ^ 28) i := by
  obtain ⟨p, s', hrun, hroom, -, -, hserves⟩ := hmounted.malloc (by omega) hbelow
  by_cases hp : p = 0
  · rw [hp] at hrun
    refine iff_of_false ?_ fun h => hroom.mpr h.1 hp
    rintro ⟨⟨buf, u, hread, hne, -⟩, -⟩
    rw [fsReadFile_null hentry hpos hrun] at hread
    exact hne (EStateM.Result.ok.inj hread).1.symm
  · rw [(hserves entry hcached hp).readsWholeClusters_iff hmounted.volume hentry hpos hsector
      hcluster hchain hdata hlong]
    simp [hroom.mp hp]

theorem fs_read_file_multi_sector_small :
    ∃ s, FileMachine ⟨2, 100, UInt8.ofNat⟩ s ∧ ReadsWholeClusters s
      (diskGeometry (DiskFile.mk 2 100 UInt8.ofNat).disk) s.rootDirectoryBuffer 100 [2, 3] := by
  obtain ⟨s, hs⟩ := exists_fileMachine ⟨2, 100, UInt8.ofNat⟩
  refine ⟨s, hs, (fs_read_file_multi_sector_iff s 4 _ _ s.rootDirectoryBuffer 100 2 [2, 3]
    hs.mounted.toMounted rfl ⟨1, by omega, by omega, rfl⟩ hs.entryCached
    (hs.fileEntry (show 100 < 2 ^ 16 by omega)) (by omega) (DiskFile.path _) (by decide) (by decide)
    (hs.belowWindows (by omega))).mpr ⟨hs.hasRoom (by omega), by omega, ?_⟩⟩
  intro i _
  rfl

/-- A file of 600 bytes in a cluster of two sectors: byte 512 is not read from the disk. -/
theorem fs_read_file_multi_sector_bounce :
    (∃ u, fsReadFile 0x4000 (sampleMachine (fileMemory 0x58 2 2 3) countingDisk) =
        .ok 0x10008 u ∧ load8 (0x10008 + 512) u = .ok 0 u) ∧
    ([2, 3].flatMap (clusterSectors (sampleMachine (fileMemory 0x58 2 2 3) countingDisk) 2)).getD
      512 0 = 34 ∧
    ¬ReadsWholeClusters (sampleMachine (fileMemory 0x58 2 2 3) countingDisk) (floppy 2) 0x4000 600
      [2, 3] := by
  have hvolume := fatVolume_fileMemory 0x58 2 2 3 countingDisk
  have hentry := fileEntry_fileMemory 0x58 2 2 3 countingDisk
  have hmalloc : MallocServes (sampleMachine (fileMemory 0x58 2 2 3) countingDisk) (floppy 2)
      0x4000 600 0x10008 (sampleMalloc (fileMemory 0x58 2 2 3) countingDisk 600) :=
    mallocServes_fileMemory 2 (by omega) (by omega)
  refine ⟨?_, ?_, ?_⟩
  · obtain ⟨u, hread, hu⟩ := fsReadFile_path hvolume hentry (by decide) hmalloc
      (path_fileMemory 0x58 2 2)
    obtain ⟨pa, -, hload⟩ := hu.byte hmalloc.own (Nat.min_le_left _ _) (show 512 < 600 by omega)
    refine ⟨u, hread, ?_⟩
    rw [hload, if_pos (by decide)]
    rfl
  · rw [List.flatMap_cons, clusterSectors, show List.range 2 = [0, 1] from rfl, List.flatMap_cons,
      List.append_assoc, List.getD_append_right _ _ _ _ (by rw [length_sectorBytes]),
      length_sectorBytes,
      List.flatMap_cons, List.append_assoc, List.getD_append _ _ _ _ (by rw [length_sectorBytes]; omega)]
    simp [sectorBytes, sampleMachine, countingDisk]
  · rintro ⟨-, hcopy⟩
    exact absurd (hcopy 0 (by decide)) (by decide)

end MyOS
