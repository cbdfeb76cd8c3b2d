import MyOS.Verification.Fs.FileDisk
import MyOS.Verification.Fs.SampleVolume

/-! What `fs_read_file` does with a volume as it finds it: it returns if the cluster chain does
not come back to itself, and the bytes it returns are those of the chain's sectors only as far
as the chain and the bounce buffer reach. -/

namespace MyOS

open Effect X86Paging Orbit

variable {s t : Machine} {fat : ℕ → UInt8} {g : Geometry} {n entry size first buf : ℕ}

/-! ## Whether it returns -/

theorem noRepeat_or_endless (next : ℕ → ℕ) (first : ℕ) :
    (∃ clusters, Path next IsCluster first clusters) ∨ ∀ j, IsCluster (next^[j] first) := by
  by_cases h : ∃ clusters, Path next IsCluster first clusters
  · exact .inl h
  · rw [exists_path_iff] at h
    push Not at h
    exact .inr h

/-- With a buffer, the loop and the call end exactly when no cluster of the chain comes twice. -/
theorem MallocServes.returns_iff (hmalloc : MallocServes s g entry size buf t)
    (hvolume : FatVolume s fat g) (hentry : FileEntry s entry size first) (hpos : 0 < size) :
    ((∃ r u, fsReadFile entry s = .ok r u) ↔ NoRepeat (g.next fat) IsCluster first) ∧
    ((∃ rounds u, readClusters buf size g.clusterBytes rounds 0 first t = .ok () u) ↔
      NoRepeat (g.next fat) IsCluster first) := by
  rw [← exists_path_iff_noRepeat finite_isCluster]
  rcases noRepeat_or_endless (g.next fat) first with ⟨clusters, hchain⟩ | hlive
  · obtain ⟨u, hread, -⟩ := fsReadFile_path hvolume hentry hpos hmalloc hchain
    obtain ⟨v, -, hloop⟩ := readClusters_path hmalloc.own (hmalloc.volume hvolume) hchain
      (Nat.min_le_left _ _) (Nat.lt_succ_self _)
    exact ⟨iff_of_true ⟨buf, u, hread⟩ ⟨clusters, hchain⟩,
      iff_of_true ⟨_, v, hloop⟩ ⟨clusters, hchain⟩⟩
  · have hnone : ¬∃ clusters, Path (g.next fat) IsCluster first clusters := by
      rw [exists_path_iff]
      push Not
      exact hlive
    obtain ⟨v, hspin⟩ := fsReadFile_endless hvolume hentry hpos hmalloc hlive
    refine ⟨iff_of_false ?_ hnone, iff_of_false ?_ hnone⟩
    · rintro ⟨r, u, hread⟩
      rw [hspin] at hread
      cases hread
    · rintro ⟨rounds, u, hloop⟩
      obtain ⟨w, hw⟩ := readClusters_endless hmalloc.own (hmalloc.volume hvolume) hlive rounds
      rw [hw] at hloop
      cases hloop

/-- While the heap stays below the windows, `fs_read_file` returns exactly when the file is empty,
there is no room for it, or no cluster of its chain comes twice; a chain that comes back to itself
keeps the loop going for any number of rounds. -/
theorem fs_read_file_returns_iff (s : Machine) (n : ℕ) (fat : ℕ → UInt8) (g : Geometry)
    (entry size first : ℕ) (hmounted : Mounted s n fat g) (hcached : EntryCached n entry)
    (hentry : FileEntry s entry size first) (hbelow : BelowWindows s (max size 1)) :
    ((∃ r u, fsReadFile entry s = .ok r u) ↔
      size = 0 ∨ ¬HasRoom s size ∨ NoRepeat (g.next fat) IsCluster first) ∧
    ∀ buf t, malloc size s = .ok buf t → buf ≠ 0 →
      ((∃ rounds u, readClusters buf size g.clusterBytes rounds 0 first t = .ok () u) ↔
        NoRepeat (g.next fat) IsCluster first) := by
  obtain ⟨p, s', hrun, hroom, -, -, hserves⟩ := hmounted.malloc (by omega) hbelow
  by_cases hzero : size = 0
  · subst hzero
    refine ⟨iff_of_true ⟨p, s', ?_⟩ (.inl rfl), ?_⟩
    · rw [fsReadFile, bind_of_ok hentry.file_size]
      exact hrun
    · intro buf t hmalloc hbuf
      have hnull : malloc 0 s = .ok 0 s := rfl
      rw [hnull] at hmalloc
      exact absurd (EStateM.Result.ok.inj hmalloc).1.symm hbuf
  · rw [show max size 1 = size by omega] at hrun hroom hserves
    by_cases hp : p = 0
    · rw [hp] at hrun
      refine ⟨iff_of_true ⟨0, s', fsReadFile_null hentry (by omega) hrun⟩ (.inr (.inl ?_)), ?_⟩
      · exact fun hfits => hroom.mpr hfits hp
      · intro buf t hmalloc hbuf
        rw [hrun] at hmalloc
        exact absurd (EStateM.Result.ok.inj hmalloc).1.symm hbuf
    · obtain ⟨hreturns, hloop⟩ :=
        (hserves entry hcached hp).returns_iff hmounted.volume hentry (by omega)
      refine ⟨?_, ?_⟩
      · rw [hreturns]
        simp [hzero, hroom.mp hp]
      · intro buf t hmalloc _
        rw [hrun] at hmalloc
        obtain ⟨rfl, rfl⟩ := EStateM.Result.ok.inj hmalloc
        exact hloop

/-- A file of 600 bytes in two clusters. -/
theorem fs_read_file_returns_two_clusters :
    ∃ s r u, FileMachine ⟨1, 600, UInt8.ofNat⟩ s ∧
      fsReadFile s.rootDirectoryBuffer s = .ok r u := by
  obtain ⟨s, hs⟩ := exists_fileMachine ⟨1, 600, UInt8.ofNat⟩
  obtain ⟨r, u, hread⟩ := (fs_read_file_returns_iff s 4 _ _ s.rootDirectoryBuffer 600 2
    hs.mounted.toMounted hs.entryCached (hs.fileEntry (show 600 < 2 ^ 16 by omega))
    (hs.belowWindows (by omega))).1.mpr (.inr (.inr
      ((exists_path_iff_noRepeat finite_isCluster).mp ⟨[2, 3], DiskFile.path _⟩)))
  exact ⟨s, r, u, hs, hread⟩

/-! A file that starts with cluster 2, of `size` bytes. Cluster `next` follows on cluster 2, and
cluster 3 is the last one. -/

def fileMemory (sizeLow sizeHigh sectorsPerCluster next : UInt8) : ByteMemory := fun x =>
  if x = 0x401A then 2
  else if x = 0x401C then sizeLow
  else if x = 0x401D then sizeHigh
  else if x = 0x700C then 0x02
  else if x = 0x700D then sectorsPerCluster
  else if x = 0x7016 then 1
  else if x = 0x8003 then next
  else if x = 0x8004 then 0xF0
  else if x = 0x8005 then 0xFF
  else 0

/-- The FAT of such a volume. -/
def sampleFat (m : ByteMemory) : ℕ → UInt8 := fun o => (sampleMachine m fun _ _ => 0).mem (0x8000 + o)

def floppy (sectorsPerCluster : UInt8) : Geometry := ⟨512, sectorsPerCluster, 1⟩

def countingDisk : ℕ → ℕ → UInt8 := fun lba i => UInt8.ofNat (lba + i)

theorem fatVolume_fileMemory (sizeLow sizeHigh spc next : UInt8) (disk : ℕ → ℕ → UInt8) :
    FatVolume (sampleMachine (fileMemory sizeLow sizeHigh spc next) disk)
      (sampleFat (fileMemory sizeLow sizeHigh spc next)) (floppy spc) :=
  fatVolume_sample rfl rfl rfl (by
    change 1 * 512 ≤ 0x8000
    omega)

theorem fileEntry_fileMemory (sizeLow sizeHigh spc next : UInt8) (disk : ℕ → ℕ → UInt8) :
    FileEntry (sampleMachine (fileMemory sizeLow sizeHigh spc next) disk) 0x4000
      (sizeLow.toNat + 256 * sizeHigh.toNat) 2 := by
  refine ⟨?_, ?_⟩
  · exact sampleMachine_load32 (show 0x401C + 3 < 2 ^ 22 by omega)
  · exact sampleMachine_load16 (show 0x401A + 1 < 2 ^ 22 by omega)

/-- The heap is clear. -/
theorem fileMemory_heap (sizeLow sizeHigh spc next : UInt8) (disk : ℕ → ℕ → UInt8) {x : ℕ}
    (hx : 0x9000 ≤ x) : (sampleMachine (fileMemory sizeLow sizeHigh spc next) disk).mem x = 0 := by
  change (if 0x1000 ≤ x ∧ x < 0x3000 then _ else fileMemory sizeLow sizeHigh spc next x) = 0
  unfold fileMemory
  simp (disch := omega) only [if_neg]

theorem mallocServes_fileMemory {m : ByteMemory} {disk : ℕ → ℕ → UInt8} {size : ℕ} (spc : UInt8)
    (hpos : 0 < size) (hsize : size ≤ 0xFF8) :
    MallocServes (sampleMachine m disk) (floppy spc) 0x4000 size 0x10008
      (sampleMalloc m disk size) :=
  mallocServes_sample hpos hsize (by
    change 1 * 512 ≤ 0x8000
    omega)

theorem next_fileMemory (sizeLow sizeHigh spc next : UInt8) :
    (floppy spc).next (sampleFat (fileMemory sizeLow sizeHigh spc next)) 2 = next.toNat ∧
    (floppy spc).next (sampleFat (fileMemory sizeLow sizeHigh spc next)) 3 = 0xFFF := by
  obtain ⟨fat, hfat⟩ : ∃ fat, fat = sampleFat (fileMemory sizeLow sizeHigh spc next) := ⟨_, rfl⟩
  have hbyte : fat 3 = next ∧ fat 4 = 0xF0 ∧ fat 5 = 0xFF := by
    rw [hfat]
    simp [sampleFat, sampleMachine, identityMachine, kmainEntry, fileMemory]
  obtain ⟨h3, h4, h5⟩ := hbyte
  have hbytes : (floppy spc).fatBytes = 512 := Nat.one_mul 512
  have hlt := next.toNat_lt
  rw [← hfat, Geometry.next, hbytes]
  refine ⟨?_, ?_⟩
  · simp [fatNext, h3, h4]
    omega
  · simp [fatNext, h4, h5]

/-- The chain of two clusters. -/
theorem path_fileMemory (sizeLow sizeHigh spc : UInt8) :
    Path ((floppy spc).next (sampleFat (fileMemory sizeLow sizeHigh spc 3))) IsCluster 2 [2, 3] := by
  obtain ⟨h2, h3⟩ := next_fileMemory sizeLow sizeHigh spc 3
  refine .step (show 2 < 0xFF8 by omega) ?_
  rw [h2]
  refine .step (show 3 < 0xFF8 by omega) ?_
  rw [show (3 : UInt8).toNat = 3 from rfl, h3]
  exact .stop (show ¬0xFFF < 0xFF8 by omega)

/-- Cluster 2 follows on itself, and the loop has no end. -/
theorem fs_read_file_endless_cycle :
    (∃ u, fsReadFile 0x4000 (sampleMachine (fileMemory 0x58 2 1 2) countingDisk) =
      .error .spin u) ∧
    ∀ rounds, ∃ u, readClusters 0x10008 600 512 rounds 0 2
      (sampleMalloc (fileMemory 0x58 2 1 2) countingDisk 600) = .error .spin u := by
  have hvolume := fatVolume_fileMemory 0x58 2 1 2 countingDisk
  have hentry := fileEntry_fileMemory 0x58 2 1 2 countingDisk
  have hmalloc : MallocServes (sampleMachine (fileMemory 0x58 2 1 2) countingDisk) (floppy 1)
      0x4000 600 0x10008 (sampleMalloc (fileMemory 0x58 2 1 2) countingDisk 600) :=
    mallocServes_fileMemory 1 (by omega) (by omega)
  have hnext : (floppy 1).next (sampleFat (fileMemory 0x58 2 1 2)) 2 = 2 :=
    (next_fileMemory 0x58 2 1 2).1
  have hlive : ∀ j, IsCluster (((floppy 1).next (sampleFat (fileMemory 0x58 2 1 2)))^[j] 2) := by
    intro j
    rw [Function.iterate_fixed hnext]
    exact show 2 < 0xFF8 by omega
  refine ⟨fsReadFile_endless hvolume hentry (by decide) hmalloc hlive, ?_⟩
  intro rounds
  exact readClusters_endless hmalloc.own (hmalloc.volume hvolume) hlive rounds

/-! ## Where the bytes come from -/

/-- Whatever the disk holds, every byte of a buffer returned is the byte of a sector of the
entry's chain, in the data area. -/
def ReadsChainOnly (s : Machine) (next : ℕ → ℕ) (entry size first : ℕ) : Prop :=
  ∀ disk r u, fsReadFile entry (s.withDisk disk) = .ok r u → r ≠ 0 → ∀ i < size,
    ∃ k c, next^[k] first = c ∧ (∀ j ≤ k, IsCluster (next^[j] first)) ∧ 2 ≤ c ∧
      ∃ o < 512, load8 (r + i) u = .ok (disk (clusterLba s c) o) u

/-- The chain is long enough for the file, no more is copied from the bounce buffer than it
holds, and the clusters that the file lies in are clusters of the data area. -/
structure ChainCovers (g : Geometry) (size : ℕ) (clusters : List ℕ) : Prop where
  long : size ≤ clusters.length * g.clusterBytes
  held : g.clusterBytes ≤ 512 ∨ size ≤ 512
  data : ∀ k c, clusters[k]? = some c → k * g.clusterBytes < size → 2 ≤ c

theorem clusterLba_withDisk (s : Machine) (disk : ℕ → ℕ → UInt8) (c : ℕ) :
    clusterLba (s.withDisk disk) c = clusterLba s c := by
  unfold clusterLba Machine.withDisk
  rfl

theorem clusterLba_inj {c d : ℕ} (hc : IsCluster c) (hd : IsCluster d)
    (h : clusterLba s c = clusterLba s d) : c = d := by
  unfold clusterLba at h
  unfold IsCluster at hc hd
  omega

theorem exists_ne_byte (v : UInt8) : ∃ w : UInt8, w ≠ v := by
  by_cases h : v = 0
  · exact ⟨1, by rw [h]; decide⟩
  · exact ⟨0, Ne.symm h⟩

/-- The bytes of the buffer returned, when the chain ends: those of the chain's sectors as far
as it reaches, and behind it what the block held before. -/
theorem fsReadFile_bytes (hv : FatVolume s fat g) (he : FileEntry s entry size first)
    (hpos : 0 < size) (hmalloc : MallocServes s g entry size buf t) {clusters : List ℕ}
    (hchain : Path (g.next fat) IsCluster first clusters) {i : ℕ} (hi : i < size) :
    ∃ stale, load8 (buf + i) t = .ok stale t ∧ ∀ disk, ∃ u,
      fsReadFile entry (s.withDisk disk) = .ok buf u ∧ load8 (buf + i) u =
        .ok (if i < clusters.length * g.clusterBytes then
          chainByte (s.withDisk disk) (g.next fat) first g.clusterBytes i else stale) u := by
  obtain ⟨pa, hpa⟩ := hmalloc.own.mapped i hi
  refine ⟨t.mem pa, load8_eq hpa, ?_⟩
  intro disk
  obtain ⟨u, hrun, hu⟩ := fsReadFile_path (hv.withDisk disk) (he.withDisk disk) hpos
    (hmalloc.withDisk disk) hchain
  obtain ⟨pa', hpa', hload⟩ := hu.byte (hmalloc.withDisk disk).own (Nat.min_le_left _ _) hi
  obtain rfl : pa = pa' := Option.some.inj (hpa.symm.trans hpa')
  refine ⟨u, hrun, hload.trans ?_⟩
  by_cases hin : i < clusters.length * g.clusterBytes
  · rw [if_pos (by omega), if_pos hin]
  · rw [if_neg (by omega), if_neg hin]
    rfl

/-- A byte that does not depend on the disk is not the byte of a sector. -/
theorem ReadsChainOnly.not_fixed {next : ℕ → ℕ} (h : ReadsChainOnly s next entry size first)
    {i : ℕ} (hi : i < size) (hbuf : buf ≠ 0) {v : UInt8}
    (hrun : ∀ disk, ∃ u, fsReadFile entry (s.withDisk disk) = .ok buf u ∧
      load8 (buf + i) u = .ok v u) : False := by
  obtain ⟨w, hw⟩ := exists_ne_byte v
  obtain ⟨u, hread, hload⟩ := hrun fun _ _ => w
  obtain ⟨k, c, -, -, -, o, -, hbyte⟩ := h _ _ _ hread hbuf i hi
  rw [hload] at hbyte
  injection hbyte with hv _
  exact hw hv.symm

theorem chainCovers_of_readsChainOnly (hv : FatVolume s fat g)
    (he : FileEntry s entry size first) (hpos : 0 < size)
    (hmalloc : MallocServes s g entry size buf t)
    (h : ReadsChainOnly s (g.next fat) entry size first) {clusters : List ℕ}
    (hchain : Path (g.next fat) IsCluster first clusters) : ChainCovers g size clusters := by
  have hlong : size ≤ clusters.length * g.clusterBytes := by
    by_contra hshort
    obtain ⟨stale, -, hrun⟩ := fsReadFile_bytes hv he hpos hmalloc hchain
      (show clusters.length * g.clusterBytes < size by omega)
    simp only [lt_irrefl, if_false] at hrun
    exact h.not_fixed (by omega) hmalloc.ne_zero hrun
  refine ⟨hlong, ?_, ?_⟩
  · by_contra hover
    rw [not_or] at hover
    obtain ⟨_, -, hrun⟩ := fsReadFile_bytes hv he hpos hmalloc hchain (show 512 < size by omega)
    have hbounce : ∀ disk, chainByte (s.withDisk disk) (g.next fat) first g.clusterBytes 512 =
        s.dmaBuffer 512 := by
      intro disk
      rw [chainByte, Nat.mod_eq_of_lt (by omega)]
      exact if_neg (by omega)
    simp only [show 512 < clusters.length * g.clusterBytes by omega, if_true, hbounce] at hrun
    exact h.not_fixed (by omega) hmalloc.ne_zero hrun
  · intro k c hk hlt
    by_contra hc
    have hklt : k < clusters.length := (List.getElem?_eq_some_iff.mp hk).1
    have hcluster : 0 < g.clusterBytes := by
      by_contra hzero
      rw [show g.clusterBytes = 0 by omega, Nat.mul_zero] at hlong
      omega
    have hpoint : (g.next fat)^[k] first = c := by
      rw [hchain.getElem? hklt] at hk
      exact Option.some.inj hk
    -- a disk that is marked in the sector of the cluster only
    obtain ⟨_, -, hrun⟩ := fsReadFile_bytes hv he hpos hmalloc hchain hlt
    obtain ⟨mark, hmark⟩ : ∃ mark, mark = clusterLba s c := ⟨_, rfl⟩
    obtain ⟨u, hread, hload⟩ := hrun fun lba _ => if lba = mark then 1 else 0
    have hin : k * g.clusterBytes < clusters.length * g.clusterBytes :=
      Nat.mul_lt_mul_of_pos_right hklt hcluster
    rw [if_pos hin, chainByte, Nat.mul_div_cancel _ hcluster, Nat.mul_mod_left, hpoint] at hload
    rw [bounceByte, if_pos (by omega), clusterLba_withDisk, ← hmark] at hload
    obtain ⟨j, d, hd, hlive, hdata, o, -, hbyte⟩ := h _ _ _ hread hmalloc.ne_zero _ hlt
    have hsame : clusterLba s d = clusterLba s c := by
      by_contra hne
      rw [hload, if_neg (by rwa [hmark])] at hbyte
      have hone : (if mark = mark then (1 : UInt8) else 0) = 0 := (EStateM.Result.ok.inj hbyte).1
      rw [if_pos rfl] at hone
      exact absurd hone (by decide)
    have hlived : IsCluster d := hd ▸ hlive j le_rfl
    have hlivec : IsCluster c := hchain.mem_live c (List.mem_of_getElem? hk)
    have := clusterLba_inj hlived hlivec hsame
    omega

/-- With a buffer, `fs_read_file` returns nothing but bytes of the file exactly when its chain, if
it ends at all, covers the file. -/
theorem MallocServes.readsChainOnly_iff (hmalloc : MallocServes s g entry size buf t)
    (hvolume : FatVolume s fat g) (hentry : FileEntry s entry size first) (hpos : 0 < size) :
    ReadsChainOnly s (g.next fat) entry size first ↔
      ∀ clusters, Path (g.next fat) IsCluster first clusters → ChainCovers g size clusters := by
  constructor
  · intro h clusters hchain
    exact chainCovers_of_readsChainOnly hvolume hentry hpos hmalloc h hchain
  · intro hcover disk r u hread hne i hi
    rcases noRepeat_or_endless (g.next fat) first with ⟨clusters, hchain⟩ | hlive
    · obtain ⟨hlong, hheld, hdata⟩ := hcover clusters hchain
      have hcluster : 0 < g.clusterBytes := by
        by_contra hzero
        rw [show g.clusterBytes = 0 by omega, Nat.mul_zero] at hlong
        omega
      obtain ⟨_, -, hrun⟩ := fsReadFile_bytes hvolume hentry hpos hmalloc hchain hi
      obtain ⟨u', hread', hload⟩ := hrun disk
      rw [hread'] at hread
      injection hread with hr hu
      subst hr hu
      have hklt : i / g.clusterBytes < clusters.length :=
        (Nat.div_lt_iff_lt_mul hcluster).mpr (by omega)
      have hpoint := hchain.getElem? hklt
      have hstart : i / g.clusterBytes * g.clusterBytes ≤ i := Nat.div_mul_le_self _ _
      have hoffset : i % g.clusterBytes < 512 := by
        have hmod := Nat.mod_lt i hcluster
        have hle := Nat.mod_le i g.clusterBytes
        omega
      refine ⟨i / g.clusterBytes, _, rfl, ?_, hdata _ _ hpoint (by omega), i % g.clusterBytes,
        hoffset, ?_⟩
      · intro j hj
        exact hchain.mem_live _ (List.mem_of_getElem? (hchain.getElem? (by omega)))
      · rw [hload, if_pos (by omega), MyOS.chainByte, bounceByte, if_pos hoffset]
        rfl
    · obtain ⟨v, hspin⟩ := fsReadFile_endless (hvolume.withDisk disk) (hentry.withDisk disk) hpos
        (hmalloc.withDisk disk) hlive
      rw [hspin] at hread
      cases hread

/-- While the heap stays below the windows, `fs_read_file` returns nothing but bytes of the file
exactly when there is no room for it or its chain, if it ends at all, covers the file: it is long
enough, its clusters lie in the data area, and no round copies more than the sector that was
read. -/
theorem fs_read_file_genuine_iff (s : Machine) (n : ℕ) (fat : ℕ → UInt8) (g : Geometry)
    (entry size first : ℕ) (hmounted : Mounted s n fat g) (hcached : EntryCached n entry)
    (hentry : FileEntry s entry size first) (hpos : 0 < size) (hbelow : BelowWindows s size) :
    ReadsChainOnly s (g.next fat) entry size first ↔ ¬HasRoom s size ∨
      ∀ clusters, Path (g.next fat) IsCluster first clusters → ChainCovers g size clusters := by
  obtain ⟨p, s', hrun, hroom, -, -, hserves⟩ := hmounted.malloc (by omega) hbelow
  by_cases hp : p = 0
  · rw [hp] at hrun
    refine iff_of_true ?_ (.inl fun hfits => hroom.mpr hfits hp)
    intro disk r u hread hr
    rw [fsReadFile_null (hentry.withDisk disk) hpos ((malloc_withDisk disk size).ok hrun)] at hread
    exact absurd (EStateM.Result.ok.inj hread).1.symm hr
  · rw [(hserves entry hcached hp).readsChainOnly_iff hmounted.volume hentry hpos]
    simp [hroom.mp hp]

/-- A file of 600 bytes in two clusters. -/
theorem fs_read_file_genuine_two_clusters :
    ∃ s, FileMachine ⟨1, 600, UInt8.ofNat⟩ s ∧
      ReadsChainOnly s ((diskGeometry (DiskFile.mk 1 600 UInt8.ofNat).disk).next
        (diskFat (DiskFile.mk 1 600 UInt8.ofNat).disk)) s.rootDirectoryBuffer 600 2 := by
  obtain ⟨s, hs⟩ := exists_fileMachine ⟨1, 600, UInt8.ofNat⟩
  refine ⟨s, hs, (fs_read_file_genuine_iff s 4 _ _ s.rootDirectoryBuffer 600 2
    hs.mounted.toMounted hs.entryCached (hs.fileEntry (show 600 < 2 ^ 16 by omega)) (by omega)
    (hs.belowWindows (by omega))).mpr (.inr ?_)⟩
  intro clusters hchain
  obtain rfl := hchain.unique (DiskFile.path _)
  refine ⟨by decide, .inl (by decide), ?_⟩
  intro k c hk _
  have hmem := List.mem_of_getElem? hk
  simp only [List.mem_cons, List.not_mem_nil, or_false] at hmem
  omega

/-- A file of 1100 bytes whose chain has two sectors: its end is what the heap block held. -/
theorem fs_read_file_stale_tail :
    (∃ u, fsReadFile 0x4000 (sampleMachine (fileMemory 0x4C 4 1 3) fun _ _ => 1) = .ok 0x10008 u ∧
      load8 (0x10008 + 1024) u = .ok 0 u) ∧
    ¬ReadsChainOnly (sampleMachine (fileMemory 0x4C 4 1 3) fun _ _ => 1)
      ((floppy 1).next (sampleFat (fileMemory 0x4C 4 1 3))) 0x4000 1100 2 := by
  have hvolume := fatVolume_fileMemory 0x4C 4 1 3 fun _ _ => 1
  have hentry := fileEntry_fileMemory 0x4C 4 1 3 fun _ _ => 1
  have hmalloc : MallocServes (sampleMachine (fileMemory 0x4C 4 1 3) fun _ _ => 1) (floppy 1)
      0x4000 1100 0x10008 (sampleMalloc (fileMemory 0x4C 4 1 3) (fun _ _ => 1) 1100) :=
    mallocServes_fileMemory 1 (by omega) (by omega)
  have hchain := path_fileMemory 0x4C 4 1
  refine ⟨?_, ?_⟩
  · obtain ⟨stale, hstale, hrun⟩ := fsReadFile_bytes hvolume hentry (by decide) hmalloc hchain
      (show 1024 < 1100 by omega)
    obtain ⟨u, hread, hload⟩ := hrun fun _ _ => 1
    refine ⟨u, hread, ?_⟩
    rw [hload, if_neg (by decide)]
    rw [load8_eq (sampleMalloc_translate (by omega)), sampleMalloc_block (by omega),
      fileMemory_heap _ _ _ _ _ (by omega)] at hstale
    rw [← (EStateM.Result.ok.inj hstale).1]
  · intro h
    have hcover := chainCovers_of_readsChainOnly hvolume hentry (by decide) hmalloc h hchain
    exact absurd hcover.long (by decide)

end MyOS
