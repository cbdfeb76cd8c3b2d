import MyOS.Lib.Nibbles
import MyOS.Verification.Memory.Identity

/-! The cached FAT: `fs_get_fat_entry` undoes the packing of two 12-bit entries in three
bytes, for a FAT of any length. -/

namespace MyOS

open Effect X86Paging Nibbles

/-- A 12-bit entry of the FAT, two of which share three bytes. Behind the end of the FAT every
chain ends. -/
def fatNext (fat : ℕ → UInt8) (fatBytes cluster : ℕ) : ℕ :=
  let fatOffset := cluster * 3 / 2
  if fatOffset + 1 ≥ fatBytes then 0xFFF
  else
    let entry := (fat (fatOffset + 1)).toNat * 256 + (fat fatOffset).toNat
    if cluster % 2 = 0 then entry % 4096 else entry / 16

/-- The driver has a FAT in memory. Its bytes can be read; nothing is known of what lies behind
them, not even that it is mapped. -/
structure CachedFat (s : Machine) (fat : ℕ → UInt8) (sectorsPerFat bytesPerSector : ℕ) : Prop where
  fat_size : load16 (s.bpb + 22) s = .ok sectorsPerFat s
  sector_size : load16 (s.bpb + 11) s = .ok bytesPerSector s
  fat_bytes : ∀ o < sectorsPerFat * bytesPerSector, load8 (s.fatBuffer + o) s = .ok (fat o) s

variable {s : Machine} {fat : ℕ → UInt8} {sectorsPerFat bytesPerSector : ℕ}

/-- `fs_get_fat_entry` reads the entry. -/
theorem CachedFat.fsGetFatEntry (h : CachedFat s fat sectorsPerFat bytesPerSector)
    (cluster : ℕ) : fsGetFatEntry cluster s =
      .ok (fatNext fat (sectorsPerFat * bytesPerSector) cluster) s := by
  rw [MyOS.fsGetFatEntry, bind_of_ok (get_apply s), bind_of_ok h.fat_size,
    bind_of_ok h.sector_size, fatNext]
  simp only
  split
  · rfl
  · rename_i hlt
    rw [bind_of_ok (h.fat_bytes _ (by omega)), Nat.add_assoc,
      bind_of_ok (h.fat_bytes _ (by omega))]
    rfl

/-- The entry is the value of three half bytes. -/
theorem fatNext_eq (fat : ℕ → UInt8) (fatBytes cluster : ℕ) :
    fatNext fat fatBytes cluster =
      if 3 * cluster + 2 < 2 * fatBytes then triple fat cluster else 0xFFF := by
  unfold fatNext
  simp only
  by_cases hin : cluster * 3 / 2 + 1 < fatBytes
  · rw [if_neg (show ¬cluster * 3 / 2 + 1 ≥ fatBytes by omega),
      if_pos (show 3 * cluster + 2 < 2 * fatBytes by omega)]
    rcases Nat.even_or_odd' cluster with ⟨k, rfl | rfl⟩
    · have hlow := (fat (3 * k)).toNat_lt
      rw [if_pos (by omega), triple_two_mul, show 2 * k * 3 / 2 = 3 * k by omega]
      omega
    · rw [if_neg (by omega), triple_two_mul_add_one,
        show (2 * k + 1) * 3 / 2 = 3 * k + 1 by omega, Nat.add_assoc]
      omega
  · rw [if_pos (by omega), if_neg (by omega)]

/-- `fs_get_fat_entry` returns the value stored in the half bytes `3 n`, `3 n + 1` and
`3 n + 2` if these lie inside the FAT, and an end mark otherwise; a packed list of entries is
read back entry by entry. Only bytes of the FAT need to be readable. -/
theorem fs_get_fat_entry_unpacks (s : Machine) (fat : ℕ → UInt8)
    (sectorsPerFat bytesPerSector : ℕ) (hfat : CachedFat s fat sectorsPerFat bytesPerSector) :
    (∀ n, fsGetFatEntry n s = .ok
      (if 3 * n + 2 < 2 * (sectorsPerFat * bytesPerSector) then
        nibble fat (3 * n) + 16 * nibble fat (3 * n + 1) + 256 * nibble fat (3 * n + 2)
      else 0xFFF) s) ∧
    ∀ values : List ℕ, (∀ v ∈ values, v < 4096) →
      (pack12 values).length ≤ sectorsPerFat * bytesPerSector →
      (∀ k b, (pack12 values)[k]? = some b → fat k = b) →
      ∀ i v, values[i]? = some v → fsGetFatEntry i s = .ok v s := by
  refine ⟨?_, ?_⟩
  · intro n
    rw [hfat.fsGetFatEntry, fatNext_eq]
    rfl
  · intro values hsmall hlength hpacked i v hi
    have hlt : i < values.length := (List.getElem?_eq_some_iff.mp hi).1
    rw [length_pack12] at hlength
    rw [hfat.fsGetFatEntry, fatNext_eq, if_pos (by omega),
      triple_pack12 values hsmall i v hi fat hpacked]

/-! A FAT of one sector at the very end of the mapped memory, and its first entries. -/

def fatEdgeMemory : ByteMemory := fun x =>
  if x = 0x700C then 0x02
  else if x = 0x7016 then 1
  else if x = 0x3FFE00 then 0xF0
  else if x = 0x3FFE01 then 0xFF
  else if x = 0x3FFE02 then 0xFF
  else if x = 0x3FFE03 then 0x03
  else if x = 0x3FFE04 then 0xF0
  else if x = 0x3FFE05 then 0xFF
  else 0

def fatEdgeMachine : Machine :=
  { identityMachine fatEdgeMemory with bpb := 0x7000, fatBuffer := 0x3FFE00 }

theorem fatEdgeMachine_load8 {va : ℕ} (hva : va < 2 ^ 22) :
    load8 va fatEdgeMachine = .ok (fatEdgeMachine.mem va) fatEdgeMachine := by
  refine load8_eq ?_
  rw [translate_eq rfl (by omega)]
  exact (hasIdentity_identityMachine fatEdgeMemory).translate hva

/-- The byte behind the FAT is not mapped, and the entries are read all the same. -/
theorem fs_get_fat_entry_unpacks_edge :
    load8 (fatEdgeMachine.fatBuffer + 512) fatEdgeMachine =
      .error (.pageFault 0x400000) fatEdgeMachine ∧
    fsGetFatEntry 2 fatEdgeMachine = .ok 3 fatEdgeMachine ∧
    fsGetFatEntry 340 fatEdgeMachine = .ok 0 fatEdgeMachine ∧
    fsGetFatEntry 341 fatEdgeMachine = .ok 0xFFF fatEdgeMachine := by
  have hfat : CachedFat fatEdgeMachine (fun o => fatEdgeMachine.mem (0x3FFE00 + o)) 1 512 := by
    refine ⟨?_, ?_, ?_⟩
    · exact load16_bytes fun k hk => fatEdgeMachine_load8 (show 0x7000 + 22 + k < 2 ^ 22 by omega)
    · exact load16_bytes fun k hk => fatEdgeMachine_load8 (show 0x7000 + 11 + k < 2 ^ 22 by omega)
    · intro o ho
      exact fatEdgeMachine_load8 (show 0x3FFE00 + o < 2 ^ 22 by omega)
  obtain ⟨hentry, hlist⟩ := fs_get_fat_entry_unpacks fatEdgeMachine
    (fun o => fatEdgeMachine.mem (0x3FFE00 + o)) 1 512 hfat
  refine ⟨?_, ?_, ?_, ?_⟩
  · rfl
  · refine hlist [0xFF0, 0xFFF, 3, 0xFFF] (by decide) (by decide) ?_ 2 3 rfl
    intro k b hk
    have hpacked : ∀ k < 6,
        (pack12 [0xFF0, 0xFFF, 3, 0xFFF])[k]? = some (fatEdgeMachine.mem (0x3FFE00 + k)) := by
      decide
    have hlt : k < 6 := (List.getElem?_eq_some_iff.mp hk).1
    rw [hpacked k hlt] at hk
    exact Option.some.inj hk
  · exact hentry 340
  · exact hentry 341

end MyOS
