import MyOS.Model.Machine

/-! The queues of the virtio sound device and how `kernel/drivers/virtio.c` sends on them. The
device works beside the driver: between two steps of the driver it does what an environment
says. -/

namespace MyOS

open Effect

def virtioSndMaxQueues : ℕ := 4

/-- `VIRTQ_DESC_F_NEXT`: the chain goes on. -/
def virtqDescFNext : ℕ := 1

/-- `VIRTQ_DESC_F_WRITE`: the device writes the buffer. -/
def virtqDescFWrite : ℕ := 2

/-- `struct virtq_desc` -/
structure VirtqDesc where
  addr : ℕ
  len : ℕ
  flags : ℕ
  next : ℕ
  deriving DecidableEq, Repr

/-- `virtqueue_info_t`: where the descriptor table and the two rings of a queue lie in memory, and
what the driver counts. -/
structure Virtq where
  descTable : ℕ
  availRing : ℕ
  usedRing : ℕ
  size : ℕ
  lastUsedIdx : UInt16
  nextAvailIdx : ℕ

/-- `desc_table[i]`, of 16 bytes. -/
def Virtq.descAddr (v : Virtq) (i : ℕ) : ℕ := v.descTable + 16 * i

def Virtq.desc (v : Virtq) (m : ByteMemory) (i : ℕ) : VirtqDesc :=
  ⟨m.get32 (v.descAddr i) + 2 ^ 32 * m.get32 (v.descAddr i + 4), m.get32 (v.descAddr i + 8),
    m.get16 (v.descAddr i + 12), m.get16 (v.descAddr i + 14)⟩

def Virtq.setDesc (v : Virtq) (m : ByteMemory) (i : ℕ) (d : VirtqDesc) : ByteMemory :=
  ((((m.set32 (v.descAddr i) d.addr).set32 (v.descAddr i + 4) (d.addr / 2 ^ 32)).set32
    (v.descAddr i + 8) d.len).set16 (v.descAddr i + 12) d.flags).set16 (v.descAddr i + 14) d.next

/-- `avail_ring->idx` -/
def Virtq.availIdx (v : Virtq) (m : ByteMemory) : UInt16 := UInt16.ofNat (m.get16 (v.availRing + 2))

/-- `avail_ring->ring[i]` -/
def Virtq.availEntryAddr (v : Virtq) (i : ℕ) : ℕ := v.availRing + 4 + 2 * i

def Virtq.availEntry (v : Virtq) (m : ByteMemory) (i : ℕ) : ℕ := m.get16 (v.availEntryAddr i)

/-- `used_ring->idx` -/
def Virtq.usedIdx (v : Virtq) (m : ByteMemory) : UInt16 := UInt16.ofNat (m.get16 (v.usedRing + 2))

/-- `used_ring->ring[i]`, of two words. -/
def Virtq.usedElemAddr (v : Virtq) (i : ℕ) : ℕ := v.usedRing + 4 + 8 * i

/-- A chain is put on the used ring. -/
def Virtq.pushUsed (v : Virtq) (m : ByteMemory) (head len : ℕ) : ByteMemory :=
  let a := v.usedElemAddr ((v.usedIdx m).toNat % v.size)
  ((m.set32 a head).set32 (a + 4) len).set16 (v.usedRing + 2) ((v.usedIdx m).toNat + 1)

/-- `virtio_pci_common_cfg_t`: what the device has to say, and what the driver has written. -/
structure CommonCfg where
  deviceFeature : ℕ → ℕ
  numQueues : ℕ
  queueSize : ℕ → ℕ
  queueNotifyOff : ℕ → ℕ
  acceptsFeatures : Bool
  deviceFeatureSelect : ℕ := 0
  driverFeatureSelect : ℕ := 0
  driverFeature : ℕ → ℕ := fun _ => 0
  deviceStatus : ℕ := 0
  queueSelect : ℕ := 0
  queueDesc : ℕ → ℕ := fun _ => 0
  queueAvail : ℕ → ℕ := fun _ => 0
  queueUsed : ℕ → ℕ := fun _ => 0
  queueEnable : ℕ → Bool := fun _ => false

/-- A chain that the device has taken from the available ring, with what it read from it. -/
structure TakenChain where
  head : ℕ
  chain : List VirtqDesc
  command : List UInt8

/-- A chain that the device has put on the used ring, with what it had written to it. -/
structure ServedChain where
  chain : List VirtqDesc
  command : List UInt8
  response : List UInt8

/-- Descriptors and buffers of a chain that was made available; a buffer is an address and a
length. -/
structure InFlight where
  descs : List ℕ
  buffers : List (ℕ × ℕ)

/-- The driver's variables, memory and the device. `inFlight` has the chains that were made
available and are not on the used ring yet, `overwritten` the addresses at which the driver wrote
to one of them, and `notified` the notifications, each an address and a value. -/
structure Sound where
  mem : ByteMemory
  pmm : Pmm
  dmaBuffer : ℕ
  virtioSoundCfg : CommonCfg
  notifyBaseAddr : ℕ
  notifyOffMultiplier : ℕ
  queues : ℕ → Virtq
  deviceIdx : ℕ → UInt16
  taken : ℕ → List TakenChain
  served : ℕ → List ServedChain
  inFlight : ℕ → List InFlight
  overwritten : List ℕ
  notified : List (ℕ × ℕ)
  time : ℕ

abbrev Driver := EStateM Halt Sound

/-! ## The device's side -/

def VirtqDesc.writable (d : VirtqDesc) : Prop := d.flags / 2 % 2 = 1

instance (d : VirtqDesc) : Decidable d.writable := instDecidableEqNat _ _

/-- The descriptors of a chain from index `i` on. The device stops at an index behind the table,
and a chain has no more descriptors than the table. -/
def walkChain (desc : ℕ → VirtqDesc) (size : ℕ) : ℕ → ℕ → List VirtqDesc
  | 0, _ => []
  | n + 1, i =>
      if i < size then
        desc i :: if (desc i).flags % 2 = 1 then walkChain desc size n (desc i).next else []
      else
        []

def bytesAt (m : ByteMemory) (addr len : ℕ) : List UInt8 :=
  (List.range len).map fun i => m (addr + i)

/-- The bytes of the buffers that are the device's to read, or to write. -/
def chainBytes (m : ByteMemory) (write : Bool) (chain : List VirtqDesc) : List UInt8 :=
  (chain.filter fun d => decide d.writable = write).flatMap fun d => bytesAt m d.addr d.len

/-- The device takes the next available chain. -/
def Sound.fetch (s : Sound) (q : ℕ) : Sound :=
  let v := s.queues q
  let head := v.availEntry s.mem ((s.deviceIdx q).toNat % v.size)
  let chain := walkChain (v.desc s.mem) v.size v.size head
  { s with
    deviceIdx := Function.update s.deviceIdx q (s.deviceIdx q + 1)
    taken := Function.update s.taken q
      (s.taken q ++ [⟨head, chain, chainBytes s.mem false chain⟩]) }

/-- It puts a chain on the used ring. -/
def Sound.complete (s : Sound) (q j len : ℕ) (c : TakenChain) : Sound :=
  { s with
    mem := (s.queues q).pushUsed s.mem c.head len
    taken := Function.update s.taken q ((s.taken q).eraseIdx j)
    served := Function.update s.served q
      (s.served q ++ [⟨c.chain, c.command, chainBytes s.mem true c.chain⟩])
    inFlight := Function.update s.inFlight q
      ((s.inFlight q).eraseP fun f => f.descs.head? = some c.head) }

/-- The device works on the queue: it is enabled, and there are descriptors. -/
def Sound.Works (s : Sound) (q : ℕ) : Prop :=
  s.virtioSoundCfg.queueEnable q = true ∧ 0 < (s.queues q).size

/-- What a device does that follows the ring protocol on the queues it was told of: it takes chains
in the order of the available ring, writes to the writable buffers of those it has taken, and puts
them on the used ring, in any order. -/
inductive DeviceStep (s : Sound) : Sound → Prop where
  | fetch (q : ℕ) : s.Works q → (s.queues q).availIdx s.mem ≠ s.deviceIdx q →
      DeviceStep s (s.fetch q)
  | write (q : ℕ) (c : TakenChain) (d : VirtqDesc) (a : ℕ) (b : UInt8) : s.Works q →
      c ∈ s.taken q → d ∈ c.chain → d.writable → d.addr ≤ a → a < d.addr + d.len →
      DeviceStep s { s with mem := s.mem.set8 a b }
  | complete (q j len : ℕ) (c : TakenChain) : s.Works q → (s.taken q)[j]? = some c →
      DeviceStep s (s.complete q j len c)

/-- What the device does between two steps of the driver, by the time. -/
abbrev Env := ℕ → Sound → Sound

def Sound.turn (s : Sound) (env : Env) : Sound := { env s.time s with time := s.time + 1 }

def turn (env : Env) : Driver Unit := modify fun s => s.turn env

/-! ## Writes of the driver -/

/-- The byte belongs to a buffer in flight, or to a descriptor of its chain. -/
def Sound.owns (s : Sound) (a : ℕ) : Bool :=
  (List.range virtioSndMaxQueues).any fun q => (s.inFlight q).any fun f =>
    (f.buffers.any fun b => decide (b.1 ≤ a ∧ a < b.1 + b.2)) ||
      f.descs.any fun i => decide ((s.queues q).descAddr i ≤ a ∧ a < (s.queues q).descAddr i + 16)

/-- A store of the driver to the `n` bytes at `a`, after which memory is `m`. -/
def Sound.stored (s : Sound) (a n : ℕ) (m : ByteMemory) : Sound :=
  { s with mem := m, overwritten := s.overwritten ++ (List.range' a n).filter s.owns }

/-- The driver takes the frames' addresses for virtual ones. Low memory is mapped to itself, and
nothing else that a frame could be. -/
def touch (a : ℕ) : Driver Unit := fun s => if a < 2 ^ 22 then .ok () s else .error (.pageFault a) s

/-- `dma_buffer[i] = b` -/
def writeDma (i : ℕ) (b : UInt8) : Driver Unit :=
  modify fun s => s.stored (s.dmaBuffer + i) 1 (s.mem.set8 (s.dmaBuffer + i) b)

/-- The four fields of `desc_table[i]`. -/
def writeDesc (q i : ℕ) (d : VirtqDesc) : Driver Unit := do
  touch (((← get).queues q).descAddr i)
  modify fun s => s.stored ((s.queues q).descAddr i) 16 ((s.queues q).setDesc s.mem i d)

/-- `memcpy` to `dma_buffer + i`. -/
def copyToDma (env : Env) : ℕ → List UInt8 → Driver Unit
  | _, [] => return ()
  | i, b :: bs => do
      writeDma i b
      turn env
      copyToDma env (i + 1) bs

/-- `memcpy` from the DMA buffer. -/
def copyFromDma (env : Env) (addr : ℕ) : ℕ → Driver (List UInt8)
  | 0 => return []
  | n + 1 => do
      let bs ← copyFromDma env addr n
      let b := (← get).mem (addr + n)
      turn env
      return bs ++ [b]

/-! ## Sending -/

/-- `notify_queue`: the offset is that of the queue selected last. -/
def notifyQueue (queueIdx : ℕ) : Driver Unit :=
  modify fun s =>
    let notifyOffset := s.virtioSoundCfg.queueNotifyOff s.virtioSoundCfg.queueSelect *
      s.notifyOffMultiplier % 2 ^ 32
    { s with
      notified := s.notified ++ [((s.notifyBaseAddr + notifyOffset) % 2 ^ 32, queueIdx)] }

/-- The head of a chain is put in the available ring. -/
def writeAvail (q headIdx : ℕ) : Driver Unit := do
  let s ← get
  let v := s.queues q
  let a := v.availEntryAddr ((v.availIdx s.mem).toNat % v.size)
  touch a
  modify fun s => s.stored a 2 (s.mem.set16 a headIdx)

/-- `avail_ring->idx++` makes it visible. -/
def publish (q : ℕ) (chain : InFlight) : Driver Unit :=
  modify fun s =>
    let v := s.queues q
    { s.stored (v.availRing + 2) 2
        (s.mem.set16 (v.availRing + 2) ((v.availIdx s.mem).toNat + 1)) with
      inFlight := Function.update s.inFlight q (s.inFlight q ++ [chain]) }

def makeAvailable (env : Env) (q headIdx : ℕ) (chain : InFlight) : Driver Unit := do
  writeAvail q headIdx
  turn env
  publish q chain
  turn env

def setNextAvailIdx (q idx : ℕ) : Driver Unit :=
  modify fun s =>
    { s with queues := Function.update s.queues q { s.queues q with nextAvailIdx := idx } }

/-- The polling loop, for at most `fuel` rounds. -/
def pollUsed (env : Env) (q : ℕ) : ℕ → Driver Unit
  | 0 => throw .spin
  | fuel + 1 => do
      let s ← get
      touch ((s.queues q).usedRing + 2)
      if (s.queues q).lastUsedIdx = (s.queues q).usedIdx s.mem then
        turn env
        pollUsed env q fuel
      else
        return ()

/-- The two descriptors of a command that is in the DMA buffer are set up and made available.
Returns where the response goes. -/
def offerCommand (env : Env) (qIdx cmdSize respSize : ℕ) : Driver ℕ := do
  let s ← get
  let dmaRespPhysAddr := s.dmaBuffer + cmdSize
  let headIdx := (s.queues qIdx).nextAvailIdx
  let size := (s.queues qIdx).size
  if size = 0 then
    throw .divideError
  else
    let respIdx := (headIdx + 1) % size
    writeDesc qIdx headIdx ⟨s.dmaBuffer, cmdSize, virtqDescFNext, respIdx⟩
    turn env
    writeDesc qIdx respIdx ⟨dmaRespPhysAddr, respSize, virtqDescFWrite, 0⟩
    turn env
    makeAvailable env qIdx headIdx
      ⟨[headIdx, respIdx], [(s.dmaBuffer, cmdSize), (dmaRespPhysAddr, respSize)]⟩
    setNextAvailIdx qIdx ((respIdx + 1) % size)
    notifyQueue qIdx
    return dmaRespPhysAddr

/-- `virtq_send_command_sync` up to the polling loop. -/
def submitCommand (env : Env) (qIdx : ℕ) (cmd : List UInt8) (respSize : ℕ) : Driver ℕ := do
  copyToDma env 0 cmd
  offerCommand env qIdx cmd.length respSize

def consumeUsed (qIdx : ℕ) : Driver Unit :=
  modify fun s =>
    { s with
      queues := Function.update s.queues qIdx
        { s.queues qIdx with lastUsedIdx := (s.queues qIdx).lastUsedIdx + 1 } }

/-- `virtq_send_command_sync`; returns what it copies to `resp`. -/
def virtqSendCommandSync (env : Env) (fuel qIdx : ℕ) (cmd : List UInt8) (respSize : ℕ) :
    Driver (List UInt8) := do
  let dmaRespPhysAddr ← submitCommand env qIdx cmd respSize
  pollUsed env qIdx fuel
  consumeUsed qIdx
  copyFromDma env dmaRespPhysAddr respSize

/-- `virtq_send_buffer` -/
def virtqSendBuffer (env : Env) (qIdx data len : ℕ) : Driver Unit := do
  let s ← get
  let headIdx := (s.queues qIdx).nextAvailIdx
  let size := (s.queues qIdx).size
  writeDesc qIdx headIdx ⟨data, len, 0, 0⟩
  turn env
  if size = 0 then
    throw .divideError
  else
    makeAvailable env qIdx headIdx ⟨[headIdx], [(data, len)]⟩
    setNextAvailIdx qIdx ((headIdx + 1) % size)
    notifyQueue qIdx

end MyOS
