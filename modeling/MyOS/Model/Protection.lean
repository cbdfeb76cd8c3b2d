import MyOS.Lib.X86Protection
import MyOS.Model.Irq
import MyOS.Model.Process

/-! The descriptors of `gdt.c` and the task state segment of `tss.c`, and what the processor reads
of them when `gdt_install`, `idt_install` and `tss_install` have run. -/

namespace MyOS

/-! ## `gdt.c` -/

/-- `struct gdt_entry_struct`. -/
structure GdtEntry where
  limitLow : ℕ
  baseLow : ℕ
  baseMiddle : ℕ
  access : ℕ
  granularity : ℕ
  baseHigh : ℕ
  deriving DecidableEq, Repr

/-- `gdt_set_gate`. -/
def gdtSetGate (num base limit access gran : ℕ) (gdt : ℕ → GdtEntry) : ℕ → GdtEntry :=
  Function.update gdt num
    { baseLow := base % 2 ^ 16
      baseMiddle := base / 2 ^ 16 % 2 ^ 8
      baseHigh := base / 2 ^ 24 % 2 ^ 8
      limitLow := limit % 2 ^ 16
      granularity := limit / 2 ^ 16 % 2 ^ 4 ||| gran &&& 0xF0
      access := access }

/-- `gdt_install`. -/
def gdtInstall (gdt : ℕ → GdtEntry) : ℕ → GdtEntry :=
  let gdt := gdtSetGate 0 0 0 0 0 gdt
  let gdt := gdtSetGate 1 0 0xFFFFFFFF 0x9A 0xCF gdt
  let gdt := gdtSetGate 2 0 0xFFFFFFFF 0x92 0xCF gdt
  let gdt := gdtSetGate 3 0 0xFFFFFFFF 0xFA 0xCF gdt
  gdtSetGate 4 0 0xFFFFFFFF 0xF2 0xCF gdt

/-- An entry in memory, byte by byte. -/
def GdtEntry.byte (e : GdtEntry) : ℕ → ℕ
  | 0 => e.limitLow % 2 ^ 8
  | 1 => e.limitLow / 2 ^ 8
  | 2 => e.baseLow % 2 ^ 8
  | 3 => e.baseLow / 2 ^ 8
  | 4 => e.baseMiddle
  | 5 => e.access
  | 6 => e.granularity
  | _ => e.baseHigh

def GdtEntry.descriptor (e : GdtEntry) : X86Protection.Descriptor := .decode e.byte

/-! ## `tss.c` -/

def sizeofTssEntry : ℕ := 104

/-- The descriptor that `tss_install` adds. -/
def tssSetGate (base : ℕ) (gdt : ℕ → GdtEntry) : ℕ → GdtEntry :=
  gdtSetGate 5 base sizeofTssEntry 0x89 0x40 gdt

/-- `tss_flush`: `ltr` marks the segment as busy. -/
def tssFlush (gdt : ℕ → GdtEntry) : ℕ → GdtEntry :=
  Function.update gdt 5 { gdt 5 with access := (gdt 5).access ||| 2 }

/-- `tss_entry` in 32-bit words: `esp0`, which changes with the task, `ss0`, and `iomap_base` in
the upper half of the last one. -/
def tssEntry (esp0 : ℕ) : ℕ → ℕ
  | 1 => esp0
  | 2 => 0x10
  | 25 => sizeofTssEntry * 2 ^ 16
  | _ => 0

/-! ## The processor -/

/-- The table that `gdt_ptr` leads to, with the task state segment at `tssBase`. -/
def gdtEntries (tssBase : ℕ) (gdt : ℕ → GdtEntry) : ℕ → GdtEntry :=
  tssFlush (tssSetGate tssBase (gdtInstall gdt))

/-- The tables behind the registers of the processor, in a state of the kernel. What the memory of
the tables held before is arbitrary. -/
def protection (addr : Stub → ℕ) (tssBase : ℕ) (gdt : ℕ → GdtEntry) (idt : ℕ → IdtEntry)
    (s : Machine) : X86Protection.Tables where
  gdt i := (gdtEntries tssBase gdt (i / 8)).byte (i % 8)
  gdtLimit := 8 * 6 - 1
  gate v :=
    if v < 256 then
      ((idtInstall addr idt v).gate).map fun g => ⟨g.offset, g.selector, g.dpl⟩
    else none
  tss := tssEntry s.esp0
  tssLimit := (gdtEntries tssBase gdt 5).descriptor.last
  writable addr := (s.translate addr).isSome

end MyOS
