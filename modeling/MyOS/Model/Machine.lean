import MyOS.Lib.Effect
import MyOS.Lib.X86Paging
import MyOS.Model.Pmm
import Mathlib.Data.Int.Notation

/-! The machine the kernel runs on: physical memory behind the MMU, the kernel's global
variables, and the process table of `include/kernel/cpu/process.h`. -/

namespace MyOS

open Effect X86Paging

def maxProcesses : ℕ := 16
def maxArgs : ℕ := 16
def processNameLen : ℕ := 32
def userStackPages : ℕ := 4
def userStackTop : ℕ := 0xC0000000

/-- `task_state_t` -/
inductive TaskState where
  | unused
  | running
  | sleeping
  | waiting
  | zombie
  deriving DecidableEq, Repr

/-- `cpu_state_t`, in the order of its fields. -/
structure CpuState where
  edi : ℕ := 0
  esi : ℕ := 0
  ebp : ℕ := 0
  ebx : ℕ := 0
  edx : ℕ := 0
  ecx : ℕ := 0
  eax : ℕ := 0
  eip : ℕ := 0
  cs : ℕ := 0
  eflags : ℕ := 0
  esp : ℕ := 0
  ss : ℕ := 0
  cr3 : ℕ := 0
  deriving DecidableEq, Repr

/-- `task_struct_t`; the default value is a PCB cleared by `memset`. -/
structure Task where
  pid : ℕ := 0
  state : TaskState := .unused
  name : List UInt8 := List.replicate processNameLen 0
  userStack : ℕ := 0
  kernelStack : ℕ := 0
  pageDirectory : ℕ := 0
  cpuState : CpuState := {}
  wakeupTime : ℕ := 0
  deriving DecidableEq, Repr

/-- What a run leaves in the trace beside its effect on the state: a frame request that got
`NULL`, and each new page table with the physical address its zeroing reached. -/
inductive Event where
  | allocFailed
  | newTable (phys : ℕ) (reached : Option ℕ)
  deriving DecidableEq, Repr

/-- Why a computation does not return: `fault_handler` stops the machine, or a loop has no
end. -/
inductive Halt where
  | pageFault (addr : ℕ)
  | divideError
  | spin
  deriving DecidableEq, Repr

/-- The kernel's variables are fields of their own; `mem` is the physical memory outside the
kernel image. Kernel stacks are kept apart, as 32-bit words by address. -/
structure Machine where
  mem : ByteMemory
  paging : Bool
  cr3 : ℕ
  pmm : Pmm
  kernelDirectory : ℕ
  heapTop : ℕ
  heapEnd : ℕ
  freeListHead : ℕ
  disk : ℕ → ℕ → UInt8
  dmaBuffer : ℕ → UInt8
  bpb : ℕ
  fatBuffer : ℕ
  dataAreaStartSector : ℕ
  rootDirectoryBuffer : ℕ
  rootDirectorySize : ℕ
  processTable : ℕ → Task
  currentTask : ℕ
  multitaskingEnabled : Bool
  tick : ℕ
  esp0 : ℕ
  stack : ℕ → ℕ
  trace : List Event

/-- Kernel code: it may change the machine and may never return. -/
abbrev Kernel := EStateM Halt Machine

/-! ## Virtual memory -/

/-- The address a kernel access reaches. Ring 0 ignores the user and write bits. -/
def Machine.translate (s : Machine) (va : ℕ) : Option ℕ :=
  if s.paging then X86Paging.translate s.mem s.cr3 (va % 2 ^ 32) else some (va % 2 ^ 32)

def load8 (va : ℕ) : Kernel UInt8 := fun s =>
  match s.translate va with
  | some pa => .ok (s.mem pa) s
  | none => .error (.pageFault va) s

def store8 (va : ℕ) (b : UInt8) : Kernel Unit := fun s =>
  match s.translate va with
  | some pa => .ok () { s with mem := s.mem.set8 pa b }
  | none => .error (.pageFault va) s

def load16 (va : ℕ) : Kernel ℕ := do
  let b0 ← load8 va
  let b1 ← load8 (va + 1)
  return b0.toNat + 256 * b1.toNat

def load32 (va : ℕ) : Kernel ℕ := do
  let b0 ← load8 va
  let b1 ← load8 (va + 1)
  let b2 ← load8 (va + 2)
  let b3 ← load8 (va + 3)
  return b0.toNat + 256 * b1.toNat + 65536 * b2.toNat + 16777216 * b3.toNat

/-- Every 32-bit store of the kernel is aligned, so it is one access to one page. -/
def store32 (va v : ℕ) : Kernel Unit := fun s =>
  match s.translate va with
  | some pa => .ok () { s with mem := s.mem.set32 pa v }
  | none => .error (.pageFault va) s

/-! ## `kernel/lib/string.c` -/

def memset (buf : ℕ) (c : UInt8) (n : ℕ) : Kernel Unit :=
  forRange n fun i => store8 (buf + i) c

def memcpy (dest src n : ℕ) : Kernel Unit :=
  forRange n fun i => do
    let b ← load8 (src + i)
    store8 (dest + i) b

/-- `memcpy` from a kernel array that is not part of `mem`. -/
def memcpyFrom (dest : ℕ) (src : ℕ → UInt8) (n : ℕ) : Kernel Unit :=
  forRange n fun i => store8 (dest + i) (src i)

def toupper (c : UInt8) : UInt8 := if 97 ≤ c ∧ c ≤ 122 then c - 97 + 65 else c

/-- A string literal of the source. -/
def text (str : String) : List UInt8 := str.toList.map fun c => UInt8.ofNat c.toNat

/-- The `n` bytes `strncpy` writes: the string, cut at `n`, then zeros. -/
def strncpy (src : List UInt8) (n : ℕ) : List UInt8 :=
  src.take n ++ List.replicate (n - src.length) 0

/-- `atoi` on the characters before the terminator, in 32-bit two's complement. -/
def atoi (str : List UInt8) : ℤ :=
  str.foldl (fun res c => (res * 10 + c.toInt8.toInt - 48).bmod (2 ^ 32)) 0

/-! ## Frames -/

/-- `pmm_alloc_frame` on the machine; a `NULL` is noted in the trace. -/
def allocFrame : Kernel ℕ := fun s =>
  let (addr, pmm) := pmmAllocFrame s.pmm
  .ok addr { s with pmm, trace := if addr = 0 then .allocFailed :: s.trace else s.trace }

def freeFrame (addr : ℕ) : Kernel Unit :=
  modify fun s => { s with pmm := pmmFreeFrame s.pmm addr }

end MyOS
