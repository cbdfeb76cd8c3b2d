import Mathlib.Algebra.Ring.Nat
import Mathlib.Data.Nat.Notation
import Mathlib.Logic.Function.Basic

/-! The physical frame allocator of `kernel/mm/pmm.c`. The bitmap has one bit for each
4 KiB frame and is addressed by frame index and by dword and bit. -/

namespace MyOS

def pmmFrameSize : ℕ := 4096

/-- The allocator's globals. `pmmBitmap` is the memory at the bitmap pointer, dword by
dword, also past the end of the bitmap. A 32-bit memory size gives at most `2 ^ 17` bytes
of bitmap, so no frame index or frame address computed below wraps. -/
structure Pmm where
  pmmBitmap : ℕ → BitVec 32
  pmmTotalFrames : ℕ
  pmmBitmapSize : ℕ
  pmmBitmapSize_le : pmmBitmapSize ≤ 2 ^ 17

def pmmSetBit (bitmap : ℕ → BitVec 32) (frameIdx : ℕ) : ℕ → BitVec 32 :=
  Function.update bitmap (frameIdx / 32) (bitmap (frameIdx / 32) ||| 1#32 <<< (frameIdx % 32))

def pmmClearBit (bitmap : ℕ → BitVec 32) (frameIdx : ℕ) : ℕ → BitVec 32 :=
  Function.update bitmap (frameIdx / 32) (bitmap (frameIdx / 32) &&& ~~~(1#32 <<< (frameIdx % 32)))

/-- Bytes of bitmap for a memory size: one bit a frame, rounded up to whole dwords. -/
def bitmapBytes (memSizeBytes : UInt32) : ℕ :=
  let size := memSizeBytes.toNat / pmmFrameSize / 8
  if size % 4 ≠ 0 then (size / 4 + 1) * 4 else size

/-- Frames covered by the kernel and the bitmap behind it, in 32-bit arithmetic. -/
def reservedFrames (memSizeBytes kernelEnd : UInt32) : ℕ :=
  let reservedAreaEnd := (kernelEnd.toNat + bitmapBytes memSizeBytes) % 2 ^ 32
  (reservedAreaEnd + pmmFrameSize - 1) % 2 ^ 32 / pmmFrameSize

theorem bitmapBytes_le (memSizeBytes : UInt32) : bitmapBytes memSizeBytes ≤ 2 ^ 17 := by
  have h := memSizeBytes.toNat_lt
  unfold bitmapBytes pmmFrameSize
  grind

/-- `stale` is what the memory behind the kernel held before. Only the bitmap's own dwords
are cleared; then the reserved frames are marked one after the other. -/
def pmmInit (stale : ℕ → BitVec 32) (memSizeBytes kernelEnd : UInt32) : Pmm where
  pmmBitmap :=
    (List.range (reservedFrames memSizeBytes kernelEnd)).foldl pmmSetBit
      fun dword => if dword < bitmapBytes memSizeBytes / 4 then 0#32 else stale dword
  pmmTotalFrames := memSizeBytes.toNat / pmmFrameSize
  pmmBitmapSize := bitmapBytes memSizeBytes
  pmmBitmapSize_le := bitmapBytes_le memSizeBytes

/-- The two nested loops of `pmm_alloc_frame`, up to the bit they find. -/
def findFreeFrame (s : Pmm) : Option ℕ :=
  (List.range (s.pmmBitmapSize / 4)).findSome? fun dword =>
    -- a full dword is skipped without looking at its bits
    if s.pmmBitmap dword ≠ 0xFFFFFFFF#32 then
      ((List.range 32).find? fun bit => s.pmmBitmap dword &&& 1#32 <<< bit = 0#32).map
        (dword * 32 + ·)
    else none

/-- Returns the frame's address, or `0` when no frame is free. -/
def pmmAllocFrame (s : Pmm) : ℕ × Pmm :=
  match findFreeFrame s with
  | some frameIdx =>
      (frameIdx * pmmFrameSize, { s with pmmBitmap := pmmSetBit s.pmmBitmap frameIdx })
  | none => (0, s)

def pmmFreeFrame (s : Pmm) (addr : ℕ) : Pmm :=
  { s with pmmBitmap := pmmClearBit s.pmmBitmap (addr / pmmFrameSize) }

def pmmGetFreeFrameCount (s : Pmm) : ℕ :=
  ((List.range (s.pmmBitmapSize / 4)).map fun dword =>
    if s.pmmBitmap dword ≠ 0xFFFFFFFF#32 then
      (List.range 32).countP fun bit => s.pmmBitmap dword &&& 1#32 <<< bit = 0#32
    else 0).sum

end MyOS
