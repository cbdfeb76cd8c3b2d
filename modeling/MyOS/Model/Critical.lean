import MyOS.Model.Process

/-! `exec_program` with the interrupt flag: the same steps as `execProgram`, and between them
`cli`, `sti` and the error messages. Every `print_char` ends with `sti`. -/

namespace MyOS

/-- The machine with the interrupt flag. `flags` lists the flag at each step that worked on the
PMM bitmap, on page tables, on the heap or on the process table, the newest last. -/
structure Cpu where
  machine : Machine
  interruptFlag : Bool
  flags : List Bool

abbrev Critical := EStateM Halt Cpu

def cli : Critical Unit := modify fun c => { c with interruptFlag := false }

def sti : Critical Unit := modify fun c => { c with interruptFlag := true }

/-- Kernel code that touches none of the shared structures. -/
def plain {α : Type} (x : Kernel α) : Critical α := fun c =>
  match x c.machine with
  | .ok a s => .ok a { c with machine := s }
  | .error e s => .error e { c with machine := s }

/-- Kernel code that reads or writes the shared structures. -/
def touching {α : Type} (x : Kernel α) : Critical α := fun c =>
  match x c.machine with
  | .ok a s => .ok a { c with machine := s, flags := c.flags ++ [c.interruptFlag] }
  | .error e s => .error e { c with machine := s, flags := c.flags ++ [c.interruptFlag] }

/-- `print_string`: interrupts are off while a character is printed and on behind it. -/
def printMessage : List UInt8 → Critical Unit
  | [] => return ()
  | _ :: rest => do
      cli
      sti
      printMessage rest

/-- `installTask` with the flag. -/
def installTaskCritical (filename : List UInt8) (fileBuffer newDir userStackPtr : ℕ) :
    Critical (Option ℕ) := do
  match ← touching (do return findFreeSlot (← get).processTable) with
  | none =>
      printMessage (text "run: No free processes left.\n")
      touching (pagingFreeDirectory newDir)
      touching (free fileBuffer)
      sti
      return none
  | some newPid =>
      let kernelStack ← touching allocFrame
      let entry ← plain (load32 (fileBuffer + ehdrEntry))
      touching (modify fun s =>
        { s with
          processTable := Function.update s.processTable newPid
            (newTask newPid filename kernelStack newDir entry userStackPtr
              (s.processTable newPid).wakeupTime) })
      touching (free fileBuffer)
      return some newPid

/-- `loadProgram` with the flag. -/
def loadProgramCritical (filename : List UInt8) (argv : List (List UInt8))
    (fileBuffer newDir : ℕ) : Critical (Option ℕ) := do
  let oldDir := (← get).machine.cr3
  plain (pagingSwitchDirectory newDir)
  let phoff ← plain (load32 (fileBuffer + ehdrPhoff))
  if ← touching (loadSegments newDir fileBuffer (fileBuffer + phoff) (2 ^ 16) 0) then
    if ← touching (mapStackPages newDir userStackPages 0) then
      let userStackPtr ← plain (setupArguments argv)
      plain (pagingSwitchDirectory oldDir)
      installTaskCritical filename fileBuffer newDir userStackPtr
    else
      plain (pagingSwitchDirectory oldDir)
      touching (pagingFreeDirectory newDir)
      touching (free fileBuffer)
      sti
      return none
  else
    touching (pagingFreeDirectory newDir)
    touching (free fileBuffer)
    printMessage (text "run: Out of physical memory.\n")
    sti
    return none

/-- From the file buffer on: the magic number and the new directory. -/
def startProgramCritical (filename : List UInt8) (argv : List (List UInt8)) (fileBuffer : ℕ) :
    Critical (Option ℕ) := do
  let magic ← plain (load32 fileBuffer)
  if magic ≠ elfMagic then
    printMessage (text "run: Not an ELF executable.\n")
    touching (free fileBuffer)
    sti
    return none
  else
    let kernelDirectory := (← get).machine.kernelDirectory
    let newDir ← touching (pagingCloneDirectory kernelDirectory)
    if newDir = 0 then
      printMessage (text "run: Could not create address space.\n")
      touching (free fileBuffer)
      sti
      return none
    else
      loadProgramCritical filename argv fileBuffer newDir

/-- `exec_program` from its `cli` on, with the flag. -/
def execProgramCritical (argv : List (List UInt8)) : Critical (Option ℕ) := do
  cli
  match argv with
  | [] =>
      printMessage (text "run: Missing filename.\n")
      sti
      return none
  | filename :: _ =>
      let fileEntry ← plain (fsFindFile filename)
      if fileEntry = 0 then
        printMessage (text "run: File not found: ")
        printMessage filename
        sti
        return none
      else
        let fileBuffer ← touching (fsReadFile fileEntry)
        if fileBuffer = 0 then
          printMessage (text "run: Not enough memory to load program.\n")
          sti
          return none
        else
          startProgramCritical filename argv fileBuffer

end MyOS
