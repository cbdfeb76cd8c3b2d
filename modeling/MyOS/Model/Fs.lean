import MyOS.Model.Memory

/-! The FAT12 driver of `kernel/fs/fs.c`: the windows `init_fs` sets up for the FAT and the root
directory, lookup by 8.3 name in the cached directory and reading along the cluster chain. -/

namespace MyOS

open Effect

def sizeofFatDirEntry : ℕ := 32

/-- The 8.3 conversion of `fs_find_file`: the 11 bytes looked for, or `none` when characters
are left over. The dot between the parts is optional. -/
def fatName (filename : List UInt8) : Option (List UInt8) :=
  let base := (filename.takeWhile (· ≠ 46)).take 8
  let rest := filename.drop base.length
  let rest := if rest.head? = some 46 then rest.tail else rest
  let ext := rest.take 3
  if rest.drop 3 = [] then
    some (base.map toupper ++ List.replicate (8 - base.length) 32 ++
      (ext.map toupper ++ List.replicate (3 - ext.length) 32))
  else
    none

/-- `memcmp` of a kernel string with memory, up to the first difference. -/
def memcmpEq : List UInt8 → ℕ → Kernel Bool
  | [], _ => return true
  | b :: bs, addr => do
      let c ← load8 addr
      if b = c then memcmpEq bs (addr + 1) else return false

/-- The directory search over `n` entries from `entry` on; the address of the entry found,
or `0`. -/
def searchDirectory (name : List UInt8) : ℕ → ℕ → Kernel ℕ
  | 0, _ => return 0
  | n + 1, entry => do
      let first ← load8 entry
      if first = 0x00 then
        return 0
      else if first = 0xE5 then
        searchDirectory name n (entry + sizeofFatDirEntry)
      else
        let attributes ← load8 (entry + 11)
        -- a long file name, or the volume label
        if attributes &&& 0x0F = 0x0F ∨ attributes &&& 0x08 ≠ 0 then
          searchDirectory name n (entry + sizeofFatDirEntry)
        else if ← memcmpEq (name.take 8) entry then
          if ← memcmpEq (name.drop 8) (entry + 8) then
            return entry
          else
            searchDirectory name n (entry + sizeofFatDirEntry)
        else
          searchDirectory name n (entry + sizeofFatDirEntry)

/-- `fs_find_file` -/
def fsFindFile (filename : List UInt8) : Kernel ℕ := do
  match fatName filename with
  | none => return 0
  | some name =>
      let s ← get
      searchDirectory name ((s.rootDirectorySize + sizeofFatDirEntry - 1) / sizeofFatDirEntry)
        s.rootDirectoryBuffer

/-- `fs_get_fat_entry` -/
def fsGetFatEntry (cluster : ℕ) : Kernel ℕ := do
  let s ← get
  let fatOffset := cluster * 3 / 2
  let sectorsPerFat ← load16 (s.bpb + 22)
  let bytesPerSector ← load16 (s.bpb + 11)
  if fatOffset + 1 ≥ sectorsPerFat * bytesPerSector then
    return 0xFFF
  else
    let byte1 ← load8 (s.fatBuffer + fatOffset)
    let byte2 ← load8 (s.fatBuffer + fatOffset + 1)
    let entry := byte2.toNat * 256 + byte1.toNat
    return if cluster % 2 = 0 then entry % 4096 else entry / 16

/-- `read_disk_sector` into the bounce buffer. -/
def readDiskSector (lba : ℕ) : Kernel Unit :=
  modify fun s =>
    { s with dmaBuffer := fun i => if i < 512 then s.disk (lba % 2 ^ 28) i else s.dmaBuffer i }

/-- The cluster loop of `fs_read_file`; `copied` is `current_pos - file_buffer`. After as many
rounds as there are pairs of a cluster and a position, the loop repeats itself. -/
def readClusters (fileBuffer size bytesPerCluster : ℕ) : ℕ → ℕ → ℕ → Kernel Unit
  | 0, _, _ => throw .spin
  | fuel + 1, copied, cluster => do
      if cluster < 0xFF8 then
        let s ← get
        readDiskSector ((s.dataAreaStartSector + cluster + (2 ^ 32 - 2)) % 2 ^ 32)
        let remaining := size - copied
        let toCopy := if remaining > bytesPerCluster then bytesPerCluster else remaining
        let dma := (← get).dmaBuffer
        memcpyFrom (fileBuffer + copied) dma toCopy
        let next ← fsGetFatEntry cluster
        readClusters fileBuffer size bytesPerCluster fuel (copied + toCopy) next
      else
        return ()

/-- `fs_read_file` for the directory entry at `entry`: the buffer, or `0`. -/
def fsReadFile (entry : ℕ) : Kernel ℕ := do
  let size ← load32 (entry + 28)
  if size = 0 then
    malloc 1
  else
    let fileBuffer ← malloc size
    if fileBuffer = 0 then
      return 0
    else
      let cluster ← load16 (entry + 26)
      let s ← get
      let sectorsPerCluster ← load8 (s.bpb + 13)
      let bytesPerSector ← load16 (s.bpb + 11)
      readClusters fileBuffer size (sectorsPerCluster.toNat * bytesPerSector) (2 ^ 45) 0 cluster
      return fileBuffer

/-! ## `init_fs` -/

/-- `sizeof(fat12_bpb_t)` -/
def sizeofBpb : ℕ := 36

/-- Where the cached FAT lies, with the cached root directory behind it. -/
def fatVirtAddr : ℕ := 0x300000

/-- `read_disk_sector` into memory: the bounce buffer is copied to `bufferOut`. -/
def readDiskSectorTo (lba bufferOut : ℕ) : Kernel Unit := do
  readDiskSector lba
  let dma := (← get).dmaBuffer
  memcpyFrom bufferOut dma 512

/-- The pages of a window, each with a frame of its own. Whether there was a frame is not
looked at. -/
def mapWindow (virtAddr pages : ℕ) : Kernel Unit :=
  forRange pages fun i => do
    let physFrame ← allocFrame
    let kernelDirectory := (← get).kernelDirectory
    pagingMapPage kernelDirectory ((virtAddr + i * pmmFrameSize) % 2 ^ 32) physFrame
      (pagingFlagPresent ||| pagingFlagRw)

/-- The loop that reads the FAT from sector `i` of it on; `sectors_per_fat` has 16 bits. The
parameter block is looked at in every round. -/
def readFat : ℕ → ℕ → Kernel Unit
  | 0, _ => return ()
  | n + 1, i => do
      let s ← get
      let sectorsPerFat ← load16 (s.bpb + 22)
      if i < sectorsPerFat then
        let reservedSectors ← load16 (s.bpb + 14)
        let bytesPerSector ← load16 (s.bpb + 11)
        readDiskSectorTo (reservedSectors + i) (s.fatBuffer + i * bytesPerSector)
        readFat n (i + 1)
      else
        return ()

/-- The parameter block from sector 0, by way of a frame that is given back. -/
def readBpb : Kernel Unit := do
  let tempBuffer ← allocFrame
  readDiskSectorTo 0 tempBuffer
  let bpb ← malloc sizeofBpb
  modify fun s => { s with bpb }
  memcpy bpb tempBuffer sizeofBpb
  freeFrame tempBuffer

/-- The window of the FAT; returns its size in pages. -/
def initFat : Kernel ℕ := do
  let bpb := (← get).bpb
  let sectorsPerFat ← load16 (bpb + 22)
  let bytesPerSector ← load16 (bpb + 11)
  let fatSizeBytes := sectorsPerFat * bytesPerSector
  let fatPagesNeeded := (fatSizeBytes + pmmFrameSize - 1) % 2 ^ 32 / pmmFrameSize
  modify fun s => { s with fatBuffer := fatVirtAddr }
  mapWindow fatVirtAddr fatPagesNeeded
  readFat (2 ^ 16) 0
  return fatPagesNeeded

/-- The window of the root directory. -/
def initRootDirectory (fatPagesNeeded : ℕ) : Kernel Unit := do
  let bpb := (← get).bpb
  let reservedSectors ← load16 (bpb + 14)
  let numFats ← load8 (bpb + 16)
  let sectorsPerFat ← load16 (bpb + 22)
  let rootDirStartSector := reservedSectors + numFats.toNat * sectorsPerFat
  let rootDirEntries ← load16 (bpb + 17)
  let rootDirectorySize := rootDirEntries * sizeofFatDirEntry
  modify fun s => { s with rootDirectorySize }
  let bytesPerSector ← load16 (bpb + 11)
  if bytesPerSector = 0 then
    throw .divideError
  else
    let rootDirSectors := (rootDirectorySize + bytesPerSector - 1) / bytesPerSector
    let rootDirVirtAddr := (fatVirtAddr + fatPagesNeeded * pmmFrameSize) % 2 ^ 32
    modify fun s => { s with rootDirectoryBuffer := rootDirVirtAddr }
    mapWindow rootDirVirtAddr ((rootDirSectors * 512 + pmmFrameSize - 1) / pmmFrameSize)
    forRange rootDirSectors fun i =>
      readDiskSectorTo (rootDirStartSector + i) (rootDirVirtAddr + i * 512)
    modify fun s => { s with dataAreaStartSector := rootDirStartSector + rootDirSectors }

/-- `init_fs` -/
def initFs : Kernel Unit := do
  readBpb
  let fatPagesNeeded ← initFat
  initRootDirectory fatPagesNeeded

end MyOS
