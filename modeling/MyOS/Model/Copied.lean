import MyOS.Lib.Logged
import MyOS.Model.Fs

/-! `fs_read_file` with a log of what its cluster loop copies, and with the unsigned arithmetic of
the source: the same steps as `fsReadFile`. -/

namespace MyOS

open Effect Logged

/-- A byte was copied, to this offset of the file buffer and from that of `dma_buffer`; or a round
of the cluster loop is over. -/
inductive CopyEvent where
  | copy (offset source : ℕ)
  | round
  deriving DecidableEq

/-- The newest event is the last of the log. -/
abbrev Copying := EStateM Halt (Machine × List CopyEvent)

/-- `memcpy(current_pos, dma_buffer, n)` -/
def memcpyFromNoted (fileBuffer copied : ℕ) (src : ℕ → UInt8) (n : ℕ) : Copying Unit :=
  forRange n fun i => do
    quiet (store8 (fileBuffer + copied + i) (src i))
    note (.copy (copied + i) i)

def readClustersNoted (fileBuffer size bytesPerCluster : ℕ) : ℕ → ℕ → ℕ → Copying Unit
  | 0, _, _ => throw .spin
  | fuel + 1, copied, cluster => do
      if cluster < 0xFF8 then
        let start ← quiet (do return (← get).dataAreaStartSector)
        quiet (readDiskSector ((start + cluster + (2 ^ 32 - 2)) % 2 ^ 32))
        let remaining := (size + 2 ^ 32 - copied) % 2 ^ 32
        let toCopy := if remaining > bytesPerCluster then bytesPerCluster else remaining
        let dma ← quiet (do return (← get).dmaBuffer)
        memcpyFromNoted fileBuffer copied dma toCopy
        let next ← quiet (fsGetFatEntry cluster)
        note .round
        readClustersNoted fileBuffer size bytesPerCluster fuel ((copied + toCopy) % 2 ^ 32) next
      else
        return ()

/-- `fs_read_file`, with `fuel` rounds of the cluster loop. -/
def fsReadFileNoted (fuel entry : ℕ) : Copying ℕ := do
  let size ← quiet (load32 (entry + 28))
  if size = 0 then
    quiet (malloc 1)
  else
    let fileBuffer ← quiet (malloc size)
    if fileBuffer = 0 then
      return 0
    else
      let cluster ← quiet (load16 (entry + 26))
      let bpb ← quiet (do return (← get).bpb)
      let sectorsPerCluster ← quiet (load8 (bpb + 13))
      let bytesPerSector ← quiet (load16 (bpb + 11))
      readClustersNoted fileBuffer size (sectorsPerCluster.toNat * bytesPerSector) fuel 0 cluster
      return fileBuffer

end MyOS
