import MyOS.Model.Paging

/-! The kernel heap of `kernel/mm/memory.c`: blocks carved from the top, a free list threaded
through their headers, and growth by whole pages. A header is the dword `size` followed by
the dword `next`. -/

namespace MyOS

open Effect

def sizeofBlockHeader : ℕ := 8

/-- `init_memory`, for the linker's `kernel_end`. -/
def initMemory (kernelEnd : UInt32) : Kernel Unit := do
  let s ← get
  let top := (kernelEnd.toNat + s.pmm.pmmBitmapSize) % 2 ^ 32
  let heapTop :=
    if top % pmmFrameSize ≠ 0 then (top / pmmFrameSize + 1) * pmmFrameSize % 2 ^ 32 else top
  modify fun s => { s with heapTop, heapEnd := (heapTop + pmmFrameSize) % 2 ^ 32 }
  let frame ← allocFrame
  pagingMapPage s.kernelDirectory heapTop frame (pagingFlagPresent ||| pagingFlagRw)

/-- The `block_header_t**` of `malloc`: the list head, or the `next` field at an address. -/
inductive Link where
  | head
  | next (addr : ℕ)

def Link.read : Link → Kernel ℕ
  | .head => do return (← get).freeListHead
  | .next addr => load32 addr

def Link.write (v : ℕ) : Link → Kernel Unit
  | .head => modify fun s => { s with freeListHead := v }
  | .next addr => store32 addr v

/-- The free-list walk. Links are 32-bit addresses, so a walk that is still going after
`2 ^ 32` blocks has come back to a block it passed and never ends. -/
def mallocWalk (size : ℕ) : ℕ → Link → Kernel (Option ℕ)
  | 0, _ => throw .spin
  | fuel + 1, link => do
      let current ← link.read
      if current = 0 then
        return none
      else
        let blockSize ← load32 current
        if size ≤ blockSize then
          let next ← load32 (current + 4)
          link.write next
          return some (current + sizeofBlockHeader)
        else
          mallocWalk size fuel (.next (current + 4))

/-- The expansion loop; `false` when a frame is missing. Each round takes a frame and none
comes back, so there are no more rounds than bits in the bitmap. -/
def mallocGrow (size : ℕ) : ℕ → Kernel Bool
  | 0 => throw .spin
  | fuel + 1 => do
      let s ← get
      if (s.heapTop + sizeofBlockHeader + size) % 2 ^ 32 > s.heapEnd then
        let frame ← allocFrame
        if frame = 0 then
          return false
        else
          pagingMapPage s.kernelDirectory s.heapEnd frame (pagingFlagPresent ||| pagingFlagRw)
          modify fun s => { s with heapEnd := (s.heapEnd + pmmFrameSize) % 2 ^ 32 }
          mallocGrow size fuel
      else
        return true

/-- A new block at the top of the heap. -/
def mallocCarve (size : ℕ) : Kernel ℕ := do
  let newBlock := (← get).heapTop
  modify fun s => { s with heapTop := (newBlock + sizeofBlockHeader + size) % 2 ^ 32 }
  store32 newBlock size
  store32 (newBlock + 4) 0
  return (newBlock + sizeofBlockHeader) % 2 ^ 32

def malloc (size : ℕ) : Kernel ℕ := do
  if size = 0 then
    return 0
  else
    match ← mallocWalk size (2 ^ 32) .head with
    | some p => return p
    | none =>
        modify fun s =>
          if s.heapTop % 4 ≠ 0 then { s with heapTop := (s.heapTop + 3) % 2 ^ 32 / 4 * 4 } else s
        let fuel := (← get).pmm.pmmBitmapSize * 8 + 1
        if ← mallocGrow size fuel then mallocCarve size else return 0

def free (ptr : ℕ) : Kernel Unit := do
  if ptr = 0 then
    return ()
  else
    let header := ptr - sizeofBlockHeader
    let head := (← get).freeListHead
    store32 (header + 4) head
    modify fun s => { s with freeListHead := header }

end MyOS
