import MyOS.Verification.Fs.InitFs

/-! What `init_fs` caches: the FAT and the root directory, byte for byte as they are on the disk,
for every geometry whose windows fit. -/

namespace MyOS

open Effect X86Paging ByteMemory PageTables Ownership BlockHeap

variable {disk : ℕ → ℕ → UInt8} {page n : ℕ} {s : Machine}

/-- Every page of the windows lies in a frame of its own. -/
theorem FsState.translate_window (h : FsState disk page n s) (hpage : page < 768) (hn : n ≤ 256)
    {i o : ℕ} (hi : i < n) (ho : o < 4096) :
    s.translate (0x300000 + 4096 * i + o) = some (4096 * (page + 6 + i) + o) := by
  have hva : 0x300000 + 4096 * i + o = 4096 * 768 + (4096 * i + o) := by omega
  have htranslate := h.space.translate_phys h.isDir
    (show 4096 * 768 + (4096 * i + o) < 2 ^ 22 by omega)
  rw [h.phys_window hpage (by omega)] at htranslate
  rw [hva, htranslate, windowAt]
  congr 1
  omega

/-- A sector number of the driver fits in the 28 bits of the disk. -/
theorem rootDirStart_lt (disk : ℕ → ℕ → UInt8) : rootDirStart disk < 2 ^ 25 := by
  have hfats := (disk 0 16).toNat_lt
  have hprod : (disk 0 16).toNat * bpbWord disk 22 ≤ 255 * 65535 :=
    Nat.mul_le_mul (by omega) (Nat.le_of_lt_succ (bpbWord_lt disk 22))
  have hreserved := bpbWord_lt disk 14
  unfold rootDirStart
  omega

theorem FsCaches.load8_fat (h : FsCaches disk page s) (hfs : FsState disk page (windowPages disk) s)
    (hpage : page < 768) (hbelow : windowPages disk ≤ 256) (hsector : bpbWord disk 11 = 512) {o : ℕ}
    (ho : o < bpbWord disk 22 * 512) :
    load8 (s.fatBuffer + o) s = .ok (disk (bpbWord disk 14 + o / 512) (o % 512)) s := by
  have hpages : o < 4096 * windowPages disk := by
    unfold windowPages fatPages
    rw [hsector]
    omega
  have hreserved := bpbWord_lt disk 14
  have hsectors := bpbWord_lt disk 22
  have hbyte := h.fat (o / 512) (by omega) (o % 512) (by omega)
  rw [hsector, Nat.mod_eq_of_lt (show bpbWord disk 14 + o / 512 < 2 ^ 28 by omega),
    Nat.div_add_mod' o 512] at hbyte
  rw [h.fatBuffer, ← hbyte]
  exact hfs.load8_window hpage hbelow hpages

theorem FsCaches.load8_rootDirectory (h : FsCaches disk page s)
    (hfs : FsState disk page (windowPages disk) s) (hpage : page < 768)
    (hbelow : windowPages disk ≤ 256) {o : ℕ} (ho : o < rootDirSectors disk * 512) :
    load8 (s.rootDirectoryBuffer + o) s = .ok (disk (rootDirStart disk + o / 512) (o % 512)) s := by
  have hpages : 4096 * fatPages disk + o < 4096 * windowPages disk := by
    unfold windowPages rootPages
    omega
  have hstart := rootDirStart_lt disk
  have hroot : rootDirSectors disk * 512 ≤ 4096 * rootPages disk := by
    unfold rootPages
    omega
  have hbyte := h.rootDirectory (o / 512) (by omega) (o % 512) (by omega)
  have hlba : rootDirStart disk + o / 512 < 2 ^ 28 := by
    unfold windowPages at hbelow
    omega
  rw [Nat.mod_eq_of_lt hlba, Nat.add_assoc, Nat.div_add_mod' o 512] at hbyte
  rw [h.rootDirectoryBuffer, ← hbyte, Nat.mul_add, Nat.add_assoc]
  exact hfs.load8_window hpage hbelow hpages

/-- After `init_fs` the windows mirror the disk: the FAT and the whole sectors of the root
directory lie in pages mapped for them, each page in a frame of its own, and the data area
begins behind the root directory. -/
theorem init_fs_mirrors_disk (mem : ByteMemory) (disk : ℕ → ℕ → UInt8) (stack : ℕ → ℕ)
    (stale : ℕ → BitVec 32) (kernelEnd : UInt32)
    (hend : kernelEnd.toNat + bitmapBytes memSize ≤ 761 * 4096)
    (hsector : bpbWord disk 11 = 512) (hfit : windowPages disk ≤ 256) :
    ∃ (s : Machine) (frame : ℕ → ℕ),
      bootKernel stale kernelEnd (kmainEntry mem disk stack) = .ok () s ∧
      (∀ i < windowPages disk, ∀ o < 4096,
        s.translate (0x300000 + 4096 * i + o) = some (4096 * frame i + o)) ∧
      (∀ i < windowPages disk, ∀ j < windowPages disk, frame i = frame j → i = j) ∧
      s.fatBuffer = 0x300000 ∧
      (∀ o < bpbWord disk 22 * 512, o / 4096 < fatPages disk ∧
        load8 (s.fatBuffer + o) s = .ok (disk (bpbWord disk 14 + o / 512) (o % 512)) s) ∧
      s.rootDirectoryBuffer = 0x300000 + 4096 * fatPages disk ∧
      s.rootDirectorySize = bpbWord disk 17 * 32 ∧
      (∀ o < (bpbWord disk 17 * 32 + 511) / 512 * 512, o / 4096 < rootPages disk ∧
        load8 (s.rootDirectoryBuffer + o) s = .ok
          (disk (bpbWord disk 14 + (disk 0 16).toNat * bpbWord disk 22 + o / 512) (o % 512)) s) ∧
      s.dataAreaStartSector =
        bpbWord disk 14 + (disk 0 16).toNat * bpbWord disk 22 +
          (bpbWord disk 17 * 32 + 511) / 512 := by
  have hpage : (kernelEnd.toNat + 4607) / 4096 < 768 := by
    have := page_lt_of_end hend
    omega
  obtain ⟨s, hboot, hfs, hcaches⟩ :=
    bootKernel_fsState mem stack stale hend ⟨Nat.le_of_eq hsector.symm, hfit⟩
  have hsectors : rootDirSectors disk = (bpbWord disk 17 * 32 + 511) / 512 := by
    unfold rootDirSectors
    rw [hsector]
    rfl
  refine ⟨s, fun i => (kernelEnd.toNat + 4607) / 4096 + 6 + i, hboot, ?_, ?_, hcaches.fatBuffer, ?_,
    ?_, hcaches.rootDirectorySize, ?_, ?_⟩
  · intro i hi o ho
    exact hfs.translate_window hpage hfit hi ho
  · intro i _ j _ hij
    exact Nat.add_left_cancel hij
  · intro o ho
    refine ⟨?_, hcaches.load8_fat hfs hpage hfit hsector ho⟩
    unfold fatPages
    rw [hsector]
    omega
  · rw [hcaches.rootDirectoryBuffer]
    omega
  · intro o ho
    rw [← hsectors] at ho
    refine ⟨?_, hcaches.load8_rootDirectory hfs hpage hfit ho⟩
    unfold rootPages
    omega
  · rw [hcaches.dataAreaStartSector, hsectors]
    rfl

/-- The boot disk: 9 sectors of FAT from sector 150 on, 14 sectors of root directory. -/
theorem init_fs_mirrors_boot_disk :
    ∃ (s : Machine) (frame : ℕ → ℕ),
      bootKernel (fun _ => 0#32) 0x20000 (kmainEntry (fun _ => 0) bootDisk fun _ => 0) =
        .ok () s ∧
      (∀ i < windowPages bootDisk, ∀ o < 4096,
        s.translate (0x300000 + 4096 * i + o) = some (4096 * frame i + o)) ∧
      s.dataAreaStartSector = 182 := by
  obtain ⟨s, frame, hboot, hmapped, -, -, -, -, -, -, hstart⟩ := init_fs_mirrors_disk (fun _ => 0)
    bootDisk (fun _ => 0) (fun _ => 0#32) 0x20000 (by decide) (by decide) bootDisk_fits.below
  refine ⟨s, frame, hboot, hmapped, hstart.trans ?_⟩
  decide

end MyOS
