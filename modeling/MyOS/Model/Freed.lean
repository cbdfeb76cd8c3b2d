import MyOS.Lib.Logged
import MyOS.Model.Paging

/-! `paging_free_directory` with a log of its calls of `pmm_free_frame`: the same steps as
`pagingFreeDirectory`. -/

namespace MyOS

open Effect X86Paging Logged

/-- The log lists the addresses given to `pmm_free_frame`, the newest last. -/
abbrev Freeing := EStateM Halt (Machine × List ℕ)

def freeFrameNoted (addr : ℕ) : Freeing Unit := do
  quiet (freeFrame addr)
  note addr

def freeTableFramesNoted (ptVirt : ℕ) : Freeing Unit :=
  forRange 1024 fun j => do
    let e ← quiet (load32 (ptVirt + 4 * j))
    if present e then freeFrameNoted (frameOf e) else pure ()

def pagingFreeDirectoryNoted (dirPhys : ℕ) : Freeing Unit := do
  if dirPhys = 0 then
    return ()
  else
    quiet (pagingMapPage currentPageDir tempPagedirAddr dirPhys
      (pagingFlagPresent ||| pagingFlagRw))
    forRange 767 fun k => do
      let pde ← quiet (load32 (tempPagedirAddr + 4 * (k + 1)))
      if present pde then
        let kernelDirectory ← quiet (do return (← get).kernelDirectory)
        quiet (pagingMapPage kernelDirectory tempPagetableAddr (frameOf pde)
          (pagingFlagPresent ||| pagingFlagRw))
        freeTableFramesNoted tempPagetableAddr
        quiet (pagingMapPage kernelDirectory tempPagetableAddr 0 0)
        freeFrameNoted (frameOf pde)
      else
        pure ()
    quiet (pagingMapPage currentPageDir tempPagedirAddr 0 0)
    freeFrameNoted dirPhys

end MyOS
