import MyOS.Lib.ByteMemory

/-! The load loop of `boot/stage2.asm` in real mode. The BIOS is a parameter. `DS` is 0, as Stage 1
left it, so that the offset of a label is its address. -/

namespace MyOS

/-! ## Real mode -/

/-- The registers of 16 bits that the loop uses, and `ebx`. -/
structure Registers where
  ax : ℕ
  cx : ℕ
  dx : ℕ
  si : ℕ
  es : ℕ
  ebx : ℕ
  deriving DecidableEq

/-- `mov ah, v` -/
def Registers.setAh (r : Registers) (v : ℕ) : Registers := { r with ax := v * 256 + r.ax % 256 }

def Registers.ah (r : Registers) : ℕ := r.ax / 256
def Registers.dl (r : Registers) : ℕ := r.dx % 256

/-- `mov dl, v` -/
def Registers.setDl (r : Registers) (v : ℕ) : Registers := { r with dx := r.dx / 256 * 256 + v }

structure RealMode where
  regs : Registers
  cf : Bool
  mem : ByteMemory

/-- A Disk Address Packet: `count` sectors from `lba` on go to `segment:offset`. -/
structure Packet where
  count : ℕ
  offset : ℕ
  segment : ℕ
  lba : ℕ
  deriving DecidableEq

def packetAt (mem : ByteMemory) (si : ℕ) : Packet where
  count := mem.get16 (si + 2)
  offset := mem.get16 (si + 4)
  segment := mem.get16 (si + 6)
  lba := mem.get32 (si + 8) + 2 ^ 32 * mem.get32 (si + 12)

/-- The first address that the packet writes. -/
def Packet.start (p : Packet) : ℕ := p.segment * 16 + p.offset

/-- The read writes this address. -/
def Packet.Covers (p : Packet) (a : ℕ) : Prop := p.start ≤ a ∧ a < p.start + 512 * p.count

/-! ## The loop -/

/-- Where the assembler puts the data. The image of Stage 2 is the four sectors at `0x5000`. -/
structure Stage2Labels where
  bootDrive : ℕ
  start_le : 0x5000 ≤ bootDrive
  le_end : bootDrive + 41 ≤ 0x5800

/-- Behind `boot_drive` and the 20 bytes of `msg_disk_error`. -/
def Stage2Labels.currentLba (l : Stage2Labels) : ℕ := l.bootDrive + 21

def Stage2Labels.dap (l : Stage2Labels) : ℕ := l.bootDrive + 25

/-- The machine, and the packets passed to the BIOS so far. -/
structure Stage2 where
  machine : RealMode
  reads : List Packet

/-- `start` up to `load_loop`, in any state of the machine. The data section is in place, and `dl`
has the boot drive. -/
def loadStart (l : Stage2Labels) (s : RealMode) : Stage2 :=
  let mem := ((s.mem.set16 l.dap 0x10).set32 (l.dap + 8) 0).set32 (l.dap + 12) 0
  let mem := mem.set8 l.bootDrive (UInt8.ofNat s.regs.dl)
  let mem := mem.set32 l.currentLba 5
  { machine := { s with regs := { s.regs with cx := 16, ax := 0x1000, es := 0x1000 }, mem := mem }
    reads := [] }

/-- `load_loop` up to `int 0x13` -/
def setUpRead (l : Stage2Labels) (s : RealMode) : RealMode :=
  let mem := s.mem.set16 (l.dap + 2) 64
  let mem := mem.set16 (l.dap + 4) 0
  let mem := mem.set16 (l.dap + 6) s.regs.es
  let ebx := mem.get32 l.currentLba
  let mem := mem.set32 (l.dap + 8) ebx
  let regs := { s.regs with si := l.dap, ebx := ebx }
  { s with regs := (regs.setAh 0x42).setDl (mem l.bootDrive).toNat, mem := mem }

/-- The rest of the loop, up to `jnz`. -/
def nextChunk (l : Stage2Labels) (s : RealMode) : RealMode :=
  let ax := (s.regs.ax + 0x800) % 2 ^ 16
  { s with
    regs := { s.regs with ax := ax, es := ax, cx := (s.regs.cx + 0xFFFF) % 2 ^ 16 }
    mem := s.mem.set32 l.currentLba (s.mem.get32 l.currentLba + 64) }

inductive LoadResult where
  | running (s : Stage2)
  | diskError (s : Stage2)
  | loaded (s : Stage2)

/-- `load_loop`, for `n` turns. -/
def loadLoop (l : Stage2Labels) (int13 : RealMode → RealMode) : ℕ → Stage2 → LoadResult
  | 0, s => .running s
  | n + 1, s =>
      let called := setUpRead l s.machine
      let reads := s.reads ++ [packetAt called.mem called.regs.si]
      let returned := int13 called
      if returned.cf then .diskError ⟨returned, reads⟩
      else
        let next := nextChunk l returned
        if next.regs.cx = 0 then .loaded ⟨next, reads⟩ else loadLoop l int13 n ⟨next, reads⟩

/-! ## The BIOS -/

/-- What an extended read keeps: all memory but the sectors, the data of the BIOS and the stack. -/
def Kept (p : Packet) (a : ℕ) : Prop :=
  ¬p.Covers a ∧ (0x5000 ≤ a ∧ a < 0x5800 ∨ 0x9000 ≤ a)

/-- The contract of INT 13h with `AH` = 42h. `disk` gives the bytes of each sector of each drive. -/
structure ObeysEdd (disk : ℕ → ℕ → ℕ → UInt8) (int13 : RealMode → RealMode) : Prop where
  registers : ∀ s, s.regs.ah = 0x42 → (int13 s).cf = false →
    (int13 s).regs = s.regs.setAh 0
  stored : ∀ s, s.regs.ah = 0x42 → (int13 s).cf = false →
    ∀ i < 512 * (packetAt s.mem s.regs.si).count,
      (int13 s).mem ((packetAt s.mem s.regs.si).start + i) =
        disk s.regs.dl ((packetAt s.mem s.regs.si).lba + i / 512) (i % 512)
  kept : ∀ s, s.regs.ah = 0x42 → (int13 s).cf = false →
    ∀ a, Kept (packetAt s.mem s.regs.si) a → (int13 s).mem a = s.mem a

/-- A BIOS whose reads succeed. -/
def readSectors (disk : ℕ → ℕ → ℕ → UInt8) (s : RealMode) : RealMode :=
  let p := packetAt s.mem s.regs.si
  { regs := s.regs.setAh 0
    cf := false
    mem := s.mem.fill p.start (512 * p.count)
      fun i => disk s.regs.dl (p.lba + i / 512) (i % 512) }

end MyOS
