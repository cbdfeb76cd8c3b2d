import MyOS.Model.Machine

/-! The text screen of `kernel/drivers/vga.c` and the system call of `kernel/syscall.c` that
prints to it. The screen is the memory of the video card, which is not part of `mem`. -/

namespace MyOS

open Effect

def vgaWidth : ℕ := 80
def vgaHeight : ℕ := 25

/-- `VGA_BUFFER`, and the address behind the card's text memory. -/
def vgaBuffer : ℕ := 0xB8000
def vgaBufferEnd : ℕ := 0xC0000

/-- The 16-bit cells of the text buffer, and the cursor. -/
structure Vga where
  cells : ℕ → UInt16
  cursorRow : ℕ
  cursorCol : ℕ

def vgaBlank : UInt16 := 0x0F20

/-- `c | (0x0F << 8)` as stored in a cell. A `char` from 128 on is negative, and its sign
covers the attribute. -/
def vgaCell (c : UInt8) : UInt16 :=
  if c < 128 then 0x0F00 + c.toUInt16 else 0xFF00 + c.toUInt16

/-- A cell is written at the cursor. -/
def Vga.put (v : Vga) (cell : UInt16) : Vga :=
  { v with cells := Function.update v.cells (v.cursorRow * vgaWidth + v.cursorCol) cell }

/-- The cursor steps back, over the line break if there is a line above. -/
def Vga.back (v : Vga) : Vga :=
  if 0 < v.cursorCol then { v with cursorCol := v.cursorCol - 1 }
  else if 0 < v.cursorRow then { v with cursorRow := v.cursorRow - 1, cursorCol := vgaWidth - 1 }
  else v

def Vga.wrap (v : Vga) : Vga :=
  if vgaWidth ≤ v.cursorCol then { v with cursorRow := v.cursorRow + 1, cursorCol := 0 } else v

/-- Every line moves up by one and the last one is cleared. -/
def Vga.scroll (v : Vga) : Vga :=
  if vgaHeight ≤ v.cursorRow then
    { v with
      cells := fun i =>
        if i < (vgaHeight - 1) * vgaWidth then v.cells (i + vgaWidth)
        else if i < vgaHeight * vgaWidth then vgaBlank
        else v.cells i
      cursorRow := vgaHeight - 1 }
  else
    v

def printChar (c : UInt8) (v : Vga) : Vga :=
  let v :=
    if c = 8 then v.back.put vgaBlank
    else if c = 10 then { v with cursorRow := v.cursorRow + 1, cursorCol := 0 }
    else { v.put (vgaCell c) with cursorCol := v.cursorCol + 1 }
  v.wrap.scroll

/-- The machine with its screen; `shown` lists what the screen has shown, the newest last. -/
structure Console where
  machine : Machine
  vga : Vga
  shown : List Vga

def Console.putChar (d : Console) (c : UInt8) : Console :=
  { d with vga := printChar c d.vga, shown := d.shown ++ [printChar c d.vga] }

/-- The byte at a physical address. -/
def Console.byte (d : Console) (pa : ℕ) : UInt8 :=
  if vgaBuffer ≤ pa ∧ pa < vgaBufferEnd then
    let cell := d.vga.cells ((pa - vgaBuffer) / 2)
    if pa % 2 = 0 then cell.toUInt8 else (cell >>> 8).toUInt8
  else
    d.machine.mem pa

def loadChar (va : ℕ) : EStateM Halt Console UInt8 := fun d =>
  match d.machine.translate va with
  | some pa => .ok (d.byte pa) d
  | none => .error (.pageFault va) d

/-- `print_string` from the address `str` on; there are no more addresses than the fuel. -/
def printString : ℕ → ℕ → EStateM Halt Console Unit
  | 0, _ => throw .spin
  | fuel + 1, str => do
      let c ← loadChar str
      if c ≠ 0 then
        modify fun d => d.putChar c
        printString fuel (str + 1)
      else
        return ()

/-- System call 1: the string at `ebx`, and a newline. -/
def sysTestPrint (ebx : ℕ) : EStateM Halt Console Unit := do
  printString (2 ^ 32) ebx
  modify fun d => d.putChar 10

end MyOS
