import MyOS.Lib.AtaDrive
import MyOS.Model.Fs

/-! The disk driver of `kernel/drivers/disk.c` at its ports. The file system's model takes for
`read_disk_sector` what this driver does to the bounce buffer. -/

namespace MyOS

open AtaDrive

/-- The drive, and the bounce buffer of `dma_buffer.asm`. -/
structure DiskPorts where
  drive : Drive
  dmaBuffer : ℕ → UInt8

/-- `wait_disk_ready`, which looks at the status at most `fuel` times here. -/
def waitDiskReady : ℕ → Drive → Option Drive
  | 0, _ => none
  | fuel + 1, d =>
      let (status, d) := d.readStatus
      if status &&& 0xC0 ≠ 0x40 then waitDiskReady fuel d
      else some d

/-- The first `n` rounds of the loop over the words of the sector. -/
def readWords : ℕ → DiskPorts → DiskPorts
  | 0, d => d
  | i + 1, d =>
      let d := readWords i d
      let (word, drive) := d.drive.readData
      let low := Function.update d.dmaBuffer (2 * i) (UInt8.ofNat (word % 256))
      { drive, dmaBuffer := Function.update low (2 * i + 1) (UInt8.ofNat (word / 256)) }

/-- The six writes of `read_disk_sector`: the block address, one sector, and the command. -/
def askForSector (lba : ℕ) (drive : Drive) : Drive :=
  let drive := drive.write 0x1F6 (0xE0 ||| (lba / 2 ^ 24 % 16))
  let drive := drive.write 0x1F2 1
  let drive := drive.write 0x1F3 (lba % 2 ^ 8)
  let drive := drive.write 0x1F4 (lba / 2 ^ 8 % 2 ^ 8)
  let drive := drive.write 0x1F5 (lba / 2 ^ 16 % 2 ^ 8)
  drive.write 0x1F7 0x20

/-- `read_disk_sector` up to the copy. -/
def readDiskSectorPorts (fuel lba : ℕ) (d : DiskPorts) : Option DiskPorts := do
  let drive ← waitDiskReady fuel d.drive
  let drive ← waitDiskReady fuel (askForSector lba drive)
  return readWords 256 { d with drive }

/-- `read_disk_sector`: from the drive to the bounce buffer, and from there to memory. -/
def readDiskSectorVia (fuel lba bufferOut : ℕ) (drive : Drive) (s : Machine) :
    Option (Drive × EStateM.Result Halt Machine Unit) := do
  let d ← readDiskSectorPorts fuel lba ⟨drive, s.dmaBuffer⟩
  return (d.drive, memcpyFrom bufferOut d.dmaBuffer 512 { s with dmaBuffer := d.dmaBuffer })

/-- Sectors read one after the other, until a copy faults. -/
def readSectorsVia (fuel : ℕ) : List (ℕ × ℕ) → Drive → Machine →
    Option (Drive × EStateM.Result Halt Machine Unit)
  | [], drive, s => some (drive, .ok () s)
  | (lba, bufferOut) :: reads, drive, s => do
      let (drive, result) ← readDiskSectorVia fuel lba bufferOut drive s
      match result with
      | .ok _ s => readSectorsVia fuel reads drive s
      | .error e s => return (drive, .error e s)

end MyOS
