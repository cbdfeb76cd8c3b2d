import Mathlib.Algebra.Group.Nat.Defs
import Mathlib.Data.Nat.Notation
import Mathlib.Logic.Function.Basic

/-! Decimal output: `print_dec` of `kernel/drivers/vga.c`, from the most significant digit on,
and `qemu_debug_dec` of `kernel/debug.c`, which collects the digits in a buffer first. -/

namespace MyOS

/-- The characters of `print_dec`. -/
def printDec (n : ℕ) : List UInt8 :=
  if n = 0 then [48]
  else if 10 ≤ n then printDec (n / 10) ++ [UInt8.ofNat (n % 10 + 48)]
  else [UInt8.ofNat (n % 10 + 48)]

/-- `char buf[12]` and the index `i` behind its last digit; `written` lists the cells written so
far, the newest first. -/
structure DigitBuffer where
  buf : ℕ → UInt8
  i : ℕ
  written : List ℕ

/-- `buf[i++] = c` -/
def DigitBuffer.push (b : DigitBuffer) (c : UInt8) : DigitBuffer where
  buf := Function.update b.buf b.i c
  i := b.i + 1
  written := b.i :: b.written

/-- The first loop: digits, the least significant one first. -/
def collectDigits (n : ℕ) (b : DigitBuffer) : DigitBuffer :=
  if 0 < n then collectDigits (n / 10) (b.push (UInt8.ofNat (n % 10 + 48))) else b

/-- The second loop: what it sends to the port. -/
def emitDigits (buf : ℕ → UInt8) : ℕ → List UInt8
  | 0 => []
  | i + 1 => buf i :: emitDigits buf i

/-- `qemu_debug_dec`: the characters sent, and the buffer, which nothing has initialized. -/
def qemuDebugDec (buf : ℕ → UInt8) (n : ℕ) : List UInt8 × DigitBuffer :=
  if n = 0 then ([48], ⟨buf, 0, []⟩)
  else
    let b := collectDigits n ⟨buf, 0, []⟩
    (emitDigits b.buf b.i, b)

end MyOS
