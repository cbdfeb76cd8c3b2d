import MyOS.Model.Process

/-! The part of `kmain` that sets up memory and the process table, in its order. -/

namespace MyOS

open Effect

def memSize : UInt32 := 16777216

/-- The machine `kmain` finds: paging is off and the kernel's variables are zero. What memory,
disk and stack hold is arbitrary. -/
def kmainEntry (mem : ByteMemory) (disk : ℕ → ℕ → UInt8) (stack : ℕ → ℕ) : Machine where
  mem := mem
  paging := false
  cr3 := 0
  pmm := { pmmBitmap := fun _ => 0#32, pmmTotalFrames := 0, pmmBitmapSize := 0,
           pmmBitmapSize_le := by decide }
  kernelDirectory := 0
  heapTop := 0
  heapEnd := 0
  freeListHead := 0
  disk := disk
  dmaBuffer := fun _ => 0
  bpb := 0
  fatBuffer := 0
  dataAreaStartSector := 0
  rootDirectoryBuffer := 0
  rootDirectorySize := 0
  processTable := fun _ => {}
  currentTask := 0
  multitaskingEnabled := false
  tick := 0
  esp0 := 0
  stack := stack
  trace := []

/-- The frames `kmain` takes to test the allocator. Two of them stay in use. -/
def pmmSanityCheck : Kernel Unit := do
  let frame1 ← allocFrame
  let _frame2 ← allocFrame
  freeFrame frame1
  let _frame3 ← allocFrame

/-- `tss_install`, which gives interrupts from ring 3 a first kernel stack. -/
def tssInstall : Kernel Unit := do
  let stack ← allocFrame
  modify fun s => { s with esp0 := (stack + pmmFrameSize) % 2 ^ 32 / 16 * 16 }

/-- `kmain` up to `init_memory`; `stale` is what the memory behind the kernel held. -/
def bootMemory (stale : ℕ → BitVec 32) (kernelEnd : UInt32) : Kernel Unit := do
  modify fun s => { s with pmm := pmmInit stale memSize kernelEnd }
  pmmSanityCheck
  pagingInit
  tssInstall
  initMemory kernelEnd

/-- `kmain` up to `init_fs`. -/
def bootKernel (stale : ℕ → BitVec 32) (kernelEnd : UInt32) : Kernel Unit := do
  bootMemory stale kernelEnd
  initFs

/-- `kmain` up to `process_init`. -/
def bootProcesses (stale : ℕ → BitVec 32) (kernelEnd : UInt32) (idleTask shellTask : ℕ) :
    Kernel Unit := do
  bootKernel stale kernelEnd
  processInit idleTask shellTask

end MyOS
