import MyOS.Model.Machine

/-! `kernel/mm/paging.c`: page tables edited through the window the recursive directory entry
opens, and address spaces built and torn down through two temporary pages. -/

namespace MyOS

open Effect X86Paging

def pagingFlagPresent : ℕ := 0x1
def pagingFlagRw : ℕ := 0x2
def pagingFlagUser : ℕ := 0x4

def tempPagetableAddr : ℕ := 0xFFBFF000
def tempPagedirAddr : ℕ := 0xFFBFE000

/-- The tables of the active directory, one page each. -/
def currentPageTables : ℕ := 0xFFC00000

/-- The active directory itself. -/
def currentPageDir : ℕ := 0xFFFFF000

/-- `paging_get_page`: the address of the table entry for `virtAddr` in the window, or `0`.
The directory argument is not looked at: the active directory is edited. -/
def pagingGetPage (_dir virtAddr : ℕ) (create : Bool) (flags : ℕ) : Kernel ℕ := do
  let pdIdx := virtAddr / 2 ^ 22
  let ptIdx := virtAddr / 4096 % 1024
  let pte := currentPageTables + 4096 * pdIdx + 4 * ptIdx
  let pde ← load32 (currentPageDir + 4 * pdIdx)
  if present pde then
    return pte
  else if create then
    let newTablePhys ← allocFrame
    if newTablePhys = 0 then
      return 0
    else
      -- the table is zeroed at its physical address, whatever that address is mapped to
      modify fun s =>
        { s with trace := .newTable newTablePhys (s.translate newTablePhys) :: s.trace }
      memset newTablePhys 0 4096
      store32 (currentPageDir + 4 * pdIdx) (newTablePhys ||| (flags &&& 0x7))
      return pte
  else
    return 0

/-- `paging_map_page`; without a table entry it returns and nothing is mapped. -/
def pagingMapPage (dir virtAddr physAddr flags : ℕ) : Kernel Unit := do
  let pte ← pagingGetPage dir virtAddr true flags
  if pte ≠ 0 then
    store32 pte (physAddr ||| flags)
  else
    pure ()

def pagingSwitchDirectory (dir : ℕ) : Kernel Unit :=
  modify fun s => { s with cr3 := dir }

/-- `paging_init`: paging is still off, so both frames are filled at their physical address. -/
def pagingInit : Kernel Unit := do
  let kernelDirectory ← allocFrame
  modify fun s => { s with kernelDirectory }
  if kernelDirectory = 0 then
    return ()
  else
    memset kernelDirectory 0 4096
    let firstPt ← allocFrame
    if firstPt = 0 then
      return ()
    else
      memset firstPt 0 4096
      forRange 1024 fun i =>
        store32 (firstPt + 4 * i) (i * 0x1000 ||| pagingFlagPresent ||| pagingFlagRw)
      store32 kernelDirectory (firstPt ||| pagingFlagPresent ||| pagingFlagRw)
      store32 (kernelDirectory + 4 * 1023)
        (kernelDirectory ||| pagingFlagPresent ||| pagingFlagRw)
      pagingSwitchDirectory kernelDirectory
      modify fun s => { s with paging := true }

/-- The copies `paging_clone_directory` makes into the new directory, by entry. -/
def copyKernelEntries (newDirVirt : ℕ) : Kernel Unit := do
  let first ← load32 currentPageDir
  store32 newDirVirt first
  -- entries 768 to 1022: the upper 1 GiB without the recursive entry
  forRange 255 fun k => do
    let e ← load32 (currentPageDir + 4 * (768 + k))
    if present e then store32 (newDirVirt + 4 * (768 + k)) e else pure ()

/-- `paging_clone_directory`: a new directory that shares the kernel's tables, or `0`. -/
def pagingCloneDirectory (_src : ℕ) : Kernel ℕ := do
  let newDirPhys ← allocFrame
  if newDirPhys = 0 then
    return 0
  else
    pagingMapPage currentPageDir tempPagedirAddr newDirPhys (pagingFlagPresent ||| pagingFlagRw)
    memset tempPagedirAddr 0 4096
    copyKernelEntries tempPagedirAddr
    store32 (tempPagedirAddr + 4 * 1023) (newDirPhys ||| pagingFlagPresent ||| pagingFlagRw)
    pagingMapPage currentPageDir tempPagedirAddr 0 0
    return newDirPhys

/-- The inner loop of `paging_free_directory` over a table mapped at `ptVirt`. -/
def freeTableFrames (ptVirt : ℕ) : Kernel Unit :=
  forRange 1024 fun j => do
    let e ← load32 (ptVirt + 4 * j)
    if present e then freeFrame (frameOf e) else pure ()

/-- `paging_free_directory`: entries 1 to 767 own their tables and the frames behind them. -/
def pagingFreeDirectory (dirPhys : ℕ) : Kernel Unit := do
  if dirPhys = 0 then
    return ()
  else
    pagingMapPage currentPageDir tempPagedirAddr dirPhys (pagingFlagPresent ||| pagingFlagRw)
    forRange 767 fun k => do
      let pde ← load32 (tempPagedirAddr + 4 * (k + 1))
      if present pde then
        let kernelDirectory := (← get).kernelDirectory
        pagingMapPage kernelDirectory tempPagetableAddr (frameOf pde)
          (pagingFlagPresent ||| pagingFlagRw)
        freeTableFrames tempPagetableAddr
        pagingMapPage kernelDirectory tempPagetableAddr 0 0
        freeFrame (frameOf pde)
      else
        pure ()
    pagingMapPage currentPageDir tempPagedirAddr 0 0
    freeFrame dirPhys

end MyOS
