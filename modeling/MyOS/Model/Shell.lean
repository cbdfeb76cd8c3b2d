import MyOS.Lib.Logged
import MyOS.Model.Interrupt

/-! Commands of `kernel/shell.c`: those that deal with processes, and `ls`. -/

namespace MyOS

/-- The `run` command up to its yield: the shell waits for a child that was started. Returns
whether it yields. -/
def runCommand (argv : List (List UInt8)) : Kernel Bool := do
  match ← execProgram argv with
  | some _ =>
      modify fun s =>
        { s with
          processTable := Function.update s.processTable s.currentTask
            { s.processTable s.currentTask with state := .waiting } }
      return true
  | none => return false

/-- Reaping the zombie in slot `pid`. -/
def reap (pid : ℕ) : Kernel Unit := do
  let task := (← get).processTable pid
  pagingFreeDirectory task.pageDirectory
  freeFrame task.kernelStack
  modify fun s => { s with processTable := Function.update s.processTable pid {} }

/-- The `kill` command with its argument. -/
def killCommand (arg : List UInt8) : Kernel Unit := do
  let pidToKill := atoi arg
  if 0 < pidToKill ∧ pidToKill < maxProcesses then
    let task := (← get).processTable pidToKill.toNat
    if task.state = .zombie then reap pidToKill.toNat else pure ()
  else
    pure ()

/-- The same steps with a log of the slots that are reaped. -/
def killCommandNoted (arg : List UInt8) : EStateM Halt (Machine × List ℕ) Unit := do
  let pidToKill := atoi arg
  if 0 < pidToKill ∧ pidToKill < maxProcesses then
    let state ← Logged.quiet (do return ((← get).processTable pidToKill.toNat).state)
    if state = .zombie then
      Logged.note pidToKill.toNat
      Logged.quiet (reap pidToKill.toNat)
    else
      pure ()
  else
    pure ()

/-! ## `ls` -/

/-- The characters of `print_hex`. -/
def printHex (n : ℕ) : List UInt8 :=
  text "0x" ++ (List.range 8).map fun k =>
    let nibble := n / 16 ^ (7 - k) % 16
    UInt8.ofNat (if nibble > 9 then nibble - 10 + 65 else nibble + 48)

def loadBytes : ℕ → ℕ → Kernel (List UInt8)
  | 0, _ => return []
  | n + 1, addr => do
      let b ← load8 addr
      let bs ← loadBytes n (addr + 1)
      return b :: bs

/-- The line `ls` prints for the entry at `entry`. -/
def lsLine (entry : ℕ) : Kernel (List UInt8) := do
  let name ← loadBytes 8 entry
  let extension ← loadBytes 3 (entry + 8)
  let attributes ← load8 (entry + 11)
  let fileSize ← load32 (entry + 28)
  return name ++ text "  " ++ extension ++ text "  0x" ++ printHex attributes.toNat ++
    text "  " ++ printHex fileSize ++ text "\n"

/-- The loop of `ls` over `n` entries from `entry` on. -/
def lsLines : ℕ → ℕ → Kernel (List UInt8)
  | 0, _ => return []
  | n + 1, entry => do
      let first ← load8 entry
      if first = 0x00 then
        return []
      else if first = 0xE5 then
        lsLines n (entry + 32)
      else
        let attributes ← load8 (entry + 11)
        if attributes &&& 0x0F = 0x0F then
          lsLines n (entry + 32)
        else if attributes &&& 0x08 ≠ 0 then
          lsLines n (entry + 32)
        else
          let line ← lsLine entry
          let lines ← lsLines n (entry + 32)
          return line ++ lines

def lsHeader : List UInt8 :=
  text "Name      Ext  Attr  Size\n" ++ text "---------------------------\n"

/-- The characters `ls` prints. -/
def ls : Kernel (List UInt8) := do
  let s ← get
  let lines ← lsLines ((s.rootDirectorySize + 32 - 1) / 32) s.rootDirectoryBuffer
  return lsHeader ++ lines

end MyOS
