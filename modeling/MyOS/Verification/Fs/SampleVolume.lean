import MyOS.Verification.Fs.Buffers

/-! Small machines with a volume: a directory entry at `0x4000`, the BPB at `0x7000`, a FAT of
one sector at `0x8000` and an empty heap at `0x10000`. -/

namespace MyOS

open Effect X86Paging

def sampleMachine (m : ByteMemory) (disk : ℕ → ℕ → UInt8) : Machine :=
  { identityMachine m with
    heapTop := 0x10000
    heapEnd := 0x11000
    disk := disk
    bpb := 0x7000
    fatBuffer := 0x8000
    dataAreaStartSector := 33 }

/-- The machine with a block of `size` bytes at the bottom of the heap. -/
def sampleMalloc (m : ByteMemory) (disk : ℕ → ℕ → UInt8) (size : ℕ) : Machine :=
  { sampleMachine m disk with
    heapTop := (0x10000 + sizeofBlockHeader + size) % 2 ^ 32
    mem := ((sampleMachine m disk).mem.set32 0x10000 size).set32 0x10004 0 }

variable {m : ByteMemory} {disk : ℕ → ℕ → UInt8} {size : ℕ}

/-- The tables are in place, whatever the heap holds. -/
theorem sampleMachine_translate {top va : ℕ} {mem : ByteMemory}
    (hmem : ∀ x < 0x3000, mem x = (sampleMachine m disk).mem x) (hva : va < 2 ^ 22) :
    ({ sampleMachine m disk with heapTop := top, mem := mem } : Machine).translate va =
      some va := by
  rw [translate_eq rfl (by omega)]
  refine HasIdentity.translate ?_ hva
  intro x hx hx'
  exact (hmem x hx').trans (hasIdentity_identityMachine m x hx hx')

theorem sampleMachine_load8 {va : ℕ} (hva : va < 2 ^ 22) :
    load8 va (sampleMachine m disk) = .ok ((sampleMachine m disk).mem va) (sampleMachine m disk) :=
  load8_eq (sampleMachine_translate (fun _ _ => rfl) hva)

theorem sampleMachine_load16 {va : ℕ} (hva : va + 1 < 2 ^ 22) :
    load16 va (sampleMachine m disk) =
      .ok ((sampleMachine m disk).mem.get16 va) (sampleMachine m disk) :=
  load16_bytes fun _ _ => sampleMachine_load8 (by omega)

theorem sampleMachine_load32 {va : ℕ} (hva : va + 3 < 2 ^ 22) :
    load32 va (sampleMachine m disk) =
      .ok ((sampleMachine m disk).mem.get32 va) (sampleMachine m disk) :=
  load32_bytes fun _ _ => sampleMachine_load8 (by omega)

theorem sampleMalloc_mem {x : ℕ} (hx : x < 0x10000) :
    (sampleMalloc m disk size).mem x = (sampleMachine m disk).mem x :=
  (ByteMemory.set32_of_outside _ _ (by omega)).trans (ByteMemory.set32_of_outside _ _ (by omega))

/-- Behind the header the block holds what was there before. -/
theorem sampleMalloc_block {x : ℕ} (hx : 0x10008 ≤ x) :
    (sampleMalloc m disk size).mem x = (sampleMachine m disk).mem x :=
  (ByteMemory.set32_of_outside _ _ (by omega)).trans (ByteMemory.set32_of_outside _ _ (by omega))

theorem sampleMalloc_translate {va : ℕ} (hva : va < 2 ^ 22) :
    (sampleMalloc m disk size).translate va = some va :=
  sampleMachine_translate (fun _ hx => sampleMalloc_mem (by omega)) hva

theorem malloc_sampleMachine (hpos : 0 < size) (hsize : size ≤ 0xFF8) :
    malloc size (sampleMachine m disk) = .ok 0x10008 (sampleMalloc m disk size) := by
  have hwalk : mallocWalk size (2 ^ 32) .head (sampleMachine m disk) =
      .ok none (sampleMachine m disk) := by
    rw [show (2 : ℕ) ^ 32 = 4294967295 + 1 from rfl, mallocWalk]
    rfl
  obtain ⟨top, htop⟩ : ∃ top, top = (0x10000 + sizeofBlockHeader + size) % 2 ^ 32 := ⟨_, rfl⟩
  have hstore : store32 0x10000 size { sampleMachine m disk with heapTop := top } =
      .ok () { sampleMachine m disk with
        heapTop := top, mem := (sampleMachine m disk).mem.set32 0x10000 size } :=
    store32_eq _ (sampleMachine_translate (fun _ _ => rfl) (by omega))
  have hstore' : store32 (0x10000 + 4) 0 { sampleMachine m disk with
      heapTop := top, mem := (sampleMachine m disk).mem.set32 0x10000 size } =
      .ok () (sampleMalloc m disk size) := by
    rw [htop]
    exact store32_eq _ (sampleMachine_translate
      (fun x hx => ByteMemory.set32_of_outside _ _ (by omega)) (by omega))
  have hcarve : mallocCarve size (sampleMachine m disk) =
      .ok 0x10008 (sampleMalloc m disk size) := by
    rw [mallocCarve, bind_of_ok (get_apply _), bind_of_ok (modify_apply _ _)]
    change (do
      store32 0x10000 size
      store32 (0x10000 + 4) 0
      return (0x10000 + sizeofBlockHeader) % 2 ^ 32 : Kernel ℕ) { sampleMachine m disk with
        heapTop := (0x10000 + sizeofBlockHeader + size) % 2 ^ 32 } = _
    rw [← htop, bind_of_ok hstore, bind_of_ok hstore']
    rfl
  have halign : (if (sampleMachine m disk).heapTop % 4 ≠ 0 then { sampleMachine m disk with
      heapTop := ((sampleMachine m disk).heapTop + 3) % 2 ^ 32 / 4 * 4 }
      else sampleMachine m disk) = sampleMachine m disk := if_neg (by
    change ¬(0x10000 % 4 ≠ 0)
    decide)
  have hgrow : ∀ fuel, mallocGrow size (fuel + 1) (sampleMachine m disk) =
      .ok true (sampleMachine m disk) := by
    intro fuel
    have hroom : ¬(0x10000 + 8 + size) % 2 ^ 32 > 0x11000 := by omega
    rw [mallocGrow, bind_of_ok (get_apply _)]
    exact congrFun (if_neg hroom) _
  rw [malloc, if_neg (by omega), bind_of_ok hwalk]
  simp only
  rw [bind_of_ok (modify_apply _ _), halign, bind_of_ok (get_apply _), bind_of_ok (hgrow _),
    if_pos rfl, hcarve]

/-- The block is the caller's own. -/
theorem mallocServes_sample {g : Geometry} (hpos : 0 < size) (hsize : size ≤ 0xFF8)
    (hfat : g.fatBytes ≤ 0x8000) :
    MallocServes (sampleMachine m disk) g 0x4000 size 0x10008 (sampleMalloc m disk size) := by
  have hcell : ∀ va, FatCell (sampleMachine m disk) g.fatBytes va → va < 0x10000 := by
    rintro va (⟨k, hk, rfl⟩ | ⟨o, ho, rfl⟩)
    · change 0x7000 + k < _
      omega
    · change 0x8000 + o < _
      omega
  refine ⟨malloc_sampleMachine hpos hsize, by decide, ⟨?_, ?_, ?_, ?_⟩, ?_⟩
  · intro i hi
    exact ⟨_, sampleMalloc_translate (by omega)⟩
  · intro i hi j hj h
    rw [sampleMalloc_translate (by omega), sampleMalloc_translate (by omega)] at h
    have := Option.some.inj h
    omega
  · intro i hi pa hpa hin
    rw [sampleMalloc_translate (by omega)] at hpa
    have hpa := Option.some.inj hpa
    have hid : HasIdentity (sampleMalloc m disk size).mem := by
      intro x hx hx'
      rw [sampleMalloc_mem (by omega)]
      exact hasIdentity_identityMachine m x hx hx'
    have htables := hid.inTables hin
    omega
  · intro i hi va hva h
    have hbound := hcell va hva
    rw [sampleMalloc_translate (by omega), sampleMalloc_translate (by omega)] at h
    have := Option.some.inj h
    omega
  · intro va hva b hb
    have hbound : va < 0x10000 := by
      rcases hva with hva | ⟨k, hk, rfl⟩
      · exact hcell va hva
      · omega
    rw [sampleMachine_load8 (by omega)] at hb
    rw [load8_eq (sampleMalloc_translate (by omega)), sampleMalloc_mem hbound]
    injection hb with hb _
    rw [hb]

/-- The volume, read off the memory. -/
theorem fatVolume_sample {g : Geometry}
    (hsector : (sampleMachine m disk).mem.get16 0x700B = g.bytesPerSector)
    (hcluster : (sampleMachine m disk).mem 0x700D = g.sectorsPerCluster)
    (hfat : (sampleMachine m disk).mem.get16 0x7016 = g.sectorsPerFat)
    (hsmall : g.fatBytes ≤ 0x8000) :
    FatVolume (sampleMachine m disk) (fun o => (sampleMachine m disk).mem (0x8000 + o)) g := by
  refine ⟨⟨?_, ?_, ?_⟩, ?_⟩
  · rw [← hfat]
    exact sampleMachine_load16 (show 0x7016 + 1 < 2 ^ 22 by omega)
  · rw [← hsector]
    exact sampleMachine_load16 (show 0x700B + 1 < 2 ^ 22 by omega)
  · intro o ho
    have ho : o < g.fatBytes := ho
    exact sampleMachine_load8 (show 0x8000 + o < 2 ^ 22 by omega)
  · rw [← hcluster]
    exact sampleMachine_load8 (show 0x700D < 2 ^ 22 by omega)

end MyOS
