import MyOS.Model.Virtio

/-! `kernel/drivers/pci.c`: the scan of the bus for the virtio sound device, and the capabilities
in its configuration space. -/

namespace MyOS

open Effect

def virtioVendorId : ℕ := 0x1AF4
def virtioDevIdSound : ℕ := 0x1059

def virtioPciCapCommonCfg : UInt8 := 1
def virtioPciCapNotifyCfg : UInt8 := 2

/-- `VIRTIO_SND_NOTIFY_VIRT_ADDR` -/
def virtioSndNotifyVirtAddr : ℕ := 0xE0001000

/-- The bus: the bytes of the configuration space of function 0 in each slot, and what the CPU
reads at a physical address of a device. -/
structure Pci where
  config : ℕ → ℕ → ℕ → UInt8
  mmio : ℕ → ℕ

/-- `pci_config_read_word`; the offset has 8 bits and its two lowest are not used. -/
def Pci.readWord (p : Pci) (bus slot offset : ℕ) : ℕ :=
  let o := offset % 256 / 4 * 4
  (p.config bus slot o).toNat + 256 * (p.config bus slot (o + 1)).toNat +
    65536 * (p.config bus slot (o + 2)).toNat + 16777216 * (p.config bus slot (o + 3)).toNat

/-- `pci_config_read_byte` -/
def Pci.readByte (p : Pci) (bus slot offset : ℕ) : UInt8 :=
  UInt8.ofNat (p.readWord bus slot (offset % 256 / 4 * 4) / 256 ^ (offset % 4))

/-- The fields of `virtio_pci_cap_t` that are filled in. -/
structure VirtioPciCap where
  bar : ℕ
  offset : ℕ
  length : ℕ

/-- The loop of `pci_find_capability`: where the capability is. A pointer has 8 bits, so a walk
that goes on for more than 255 rounds has no end. -/
def Pci.findPointer (p : Pci) (bus slot : ℕ) (capId : UInt8) : ℕ → ℕ → Except Halt (Option ℕ)
  | 0, _ => .error .spin
  | fuel + 1, capPtr =>
      if capPtr = 0 then .ok none
      else if p.readByte bus slot capPtr = 0x09 ∧ p.readByte bus slot (capPtr + 3) = capId then
        .ok (some capPtr)
      else
        p.findPointer bus slot capId fuel (p.readByte bus slot (capPtr + 1)).toNat

/-- `pci_find_capability` -/
def Pci.findCapability (p : Pci) (bus slot : ℕ) (capId : UInt8) :
    Except Halt (Option VirtioPciCap) := do
  match ← p.findPointer bus slot capId 256 (p.readByte bus slot 0x34).toNat with
  | none => return none
  | some capPtr =>
      return some ⟨(p.readByte bus slot (capPtr + 4)).toNat, p.readWord bus slot (capPtr + 8),
        p.readWord bus slot (capPtr + 12)⟩

/-- The address a capability's structure has, from its BAR. -/
def Pci.capAddr (p : Pci) (bus slot : ℕ) (cap : VirtioPciCap) : ℕ :=
  (p.readWord bus slot (0x10 + cap.bar * 4) / 16 * 16 + cap.offset) % 2 ^ 32

/-- What `pci_scan` does with the device it has found. The page of the notification region is
mapped, and its first four bytes are taken for the multiplier. -/
def Pci.initSound (p : Pci) (bus slot : ℕ) : Driver Unit := do
  match p.findCapability bus slot virtioPciCapCommonCfg with
  | .error e => throw e
  | .ok none => return ()
  | .ok (some _) =>
      match p.findCapability bus slot virtioPciCapNotifyCfg with
      | .error e => throw e
      | .ok none => return ()
      | .ok (some notifyCap) =>
          let multiplier := p.mmio (p.capAddr bus slot notifyCap / 4096 * 4096)
          virtioSoundInit virtioSndNotifyVirtAddr multiplier

/-- The sound device is in this slot. -/
def Pci.IsSound (p : Pci) (bus slot : ℕ) : Prop :=
  p.readWord bus slot 0 % 65536 = virtioVendorId ∧ p.readWord bus slot 0 / 65536 = virtioDevIdSound

instance (p : Pci) (bus slot : ℕ) : Decidable (p.IsSound bus slot) := instDecidableAnd

/-- `pci_scan`: the first slot with the device, bus by bus. -/
def Pci.scan (p : Pci) : Driver Unit := do
  match (List.range (256 * 32)).find? fun k => decide (p.IsSound (k / 32) (k % 32)) with
  | none => return ()
  | some k => p.initSound (k / 32) (k % 32)

end MyOS
