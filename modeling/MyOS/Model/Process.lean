import MyOS.Model.Fs

/-! `exec_program` and `process_init` of `kernel/cpu/process.c`. -/

namespace MyOS

open Effect

def elfMagic : ℕ := 0x464C457F
def ptLoad : ℕ := 1

/-- Flags of a page of a user program. -/
def userPageFlags : ℕ := pagingFlagPresent ||| pagingFlagRw ||| pagingFlagUser

/-- Fields of `Elf32_Ehdr` and `Elf32_Phdr` by their offset. -/
def ehdrEntry : ℕ := 24
def ehdrPhoff : ℕ := 28
def ehdrPhnum : ℕ := 44
def phdrType : ℕ := 0
def phdrOffset : ℕ := 4
def phdrVaddr : ℕ := 8
def phdrFilesz : ℕ := 16
def phdrMemsz : ℕ := 20
def sizeofPhdr : ℕ := 32

/-! ## Loading the segments -/

/-- The page loop of one segment from offset `p` on; `false` when a frame is missing. The
header is read again in every round. Each round takes a frame, which bounds the rounds. -/
def mapSegmentPages (newDir phdr : ℕ) : ℕ → ℕ → Kernel Bool
  | 0, _ => throw .spin
  | fuel + 1, p => do
      let memsz ← load32 (phdr + phdrMemsz)
      if p < memsz then
        let vaddr ← load32 (phdr + phdrVaddr)
        let virtAddr := (vaddr + p) % 2 ^ 32
        let physFrame ← allocFrame
        if physFrame = 0 then
          return false
        else
          pagingMapPage newDir virtAddr physFrame userPageFlags
          mapSegmentPages newDir phdr fuel ((p + pmmFrameSize) % 2 ^ 32)
      else
        return true

/-- The zeros between the file size and the memory size of a segment. -/
def clearBss (phdr : ℕ) : Kernel Unit := do
  let memsz ← load32 (phdr + phdrMemsz)
  let filesz ← load32 (phdr + phdrFilesz)
  if memsz > filesz then
    let vaddr ← load32 (phdr + phdrVaddr)
    memset (vaddr + filesz) 0 (memsz - filesz)
  else
    pure ()

/-- File data, then zeros up to the memory size. -/
def fillSegment (fileBuffer phdr : ℕ) : Kernel Unit := do
  let vaddr ← load32 (phdr + phdrVaddr)
  let offset ← load32 (phdr + phdrOffset)
  let filesz ← load32 (phdr + phdrFilesz)
  memcpy vaddr (fileBuffer + offset) filesz
  clearBss phdr

/-- One program header: only `PT_LOAD` segments are loaded. -/
def loadSegment (newDir fileBuffer phdr : ℕ) : Kernel Bool := do
  let type ← load32 (phdr + phdrType)
  if type = ptLoad then
    let fuel := (← get).pmm.pmmBitmapSize * 8 + 1
    if ← mapSegmentPages newDir phdr fuel 0 then
      fillSegment fileBuffer phdr
      return true
    else
      return false
  else
    return true

/-- The program headers from index `i` on, `phnum` of them in all; `phnum` has 16 bits. -/
def loadSegments (newDir fileBuffer phdrs : ℕ) : ℕ → ℕ → Kernel Bool
  | 0, _ => return true
  | n + 1, i => do
      let phnum ← load16 (fileBuffer + ehdrPhnum)
      if i < phnum then
        if ← loadSegment newDir fileBuffer (phdrs + sizeofPhdr * i) then
          loadSegments newDir fileBuffer phdrs n (i + 1)
        else
          return false
      else
        return true

/-! ## The user stack -/

/-- The stack pages from page `i` on, downwards; `false` when a frame is missing. -/
def mapStackPages (newDir : ℕ) : ℕ → ℕ → Kernel Bool
  | 0, _ => return true
  | n + 1, i => do
      let virtAddr := userStackTop - (i + 1) * pmmFrameSize
      let physFrame ← allocFrame
      if physFrame = 0 then
        return false
      else
        pagingMapPage newDir virtAddr physFrame userPageFlags
        mapStackPages newDir n (i + 1)

/-- `memcpy` of a kernel string with its terminator. -/
def pushString (dest : ℕ) (str : List UInt8) : Kernel Unit :=
  memcpyFrom dest (fun i => str.getD i 0) (str.length + 1)

/-- The strings, last argument first; returns the stack pointer and the string addresses. -/
def pushStrings : List (List UInt8) → ℕ → Kernel (ℕ × List ℕ)
  | [], stackPtr => return (stackPtr, [])
  | str :: rest, stackPtr => do
      let (below, addrs) ← pushStrings rest stackPtr
      let dest := (below + 2 ^ 32 - (str.length + 1)) % 2 ^ 32
      pushString dest str
      return (dest, dest :: addrs)

/-- Strings, `argv` array, pointer to the array and `argc`; returns the user's stack pointer. -/
def setupArguments (argv : List (List UInt8)) : Kernel ℕ := do
  let argc := argv.length
  let (stackPtr, userArgv) ← pushStrings argv userStackTop
  let aligned := stackPtr / 4 * 4
  let argvOnStack := (aligned + 2 ^ 32 - 4 * (argc + 1)) % 2 ^ 32
  forRange argc fun i => store32 (argvOnStack + 4 * i) (userArgv.getD i 0)
  store32 (argvOnStack + 4 * argc) 0
  let argvSlot := (argvOnStack + 2 ^ 32 - 4) % 2 ^ 32
  store32 argvSlot argvOnStack
  let argcSlot := (argvSlot + 2 ^ 32 - 4) % 2 ^ 32
  store32 argcSlot argc
  return argcSlot

/-! ## `exec_program` -/

/-- First slot of the table that is not in use. -/
def findFreeSlot (table : ℕ → Task) : Option ℕ :=
  (List.range maxProcesses).find? fun i => (table i).state = .unused

/-- The PCB of a new process. -/
def newTask (pid : ℕ) (filename : List UInt8) (kernelStack pageDirectory entry userStackPtr : ℕ)
    (wakeupTime : ℕ) : Task where
  pid := pid
  state := .running
  name := strncpy filename processNameLen
  userStack := userStackTop
  kernelStack := kernelStack
  pageDirectory := pageDirectory
  cpuState :=
    { eip := entry, esp := userStackPtr, cs := 0x1B, ss := 0x23, eflags := 0x202,
      cr3 := pageDirectory }
  wakeupTime := wakeupTime

/-- Finding and reading the file: `none` for a missing file or a failed allocation. -/
def openProgram (filename : List UInt8) : Kernel (Option ℕ) := do
  let fileEntry ← fsFindFile filename
  if fileEntry = 0 then
    return none
  else
    let fileBuffer ← fsReadFile fileEntry
    return if fileBuffer = 0 then none else some fileBuffer

/-- From the finished address space on: slot, kernel stack and PCB. -/
def installTask (filename : List UInt8) (fileBuffer newDir userStackPtr : ℕ) :
    Kernel (Option ℕ) := do
  match findFreeSlot (← get).processTable with
  | none =>
      pagingFreeDirectory newDir
      free fileBuffer
      return none
  | some newPid =>
      let kernelStack ← allocFrame
      let entry ← load32 (fileBuffer + ehdrEntry)
      modify fun s =>
        { s with
          processTable := Function.update s.processTable newPid
            (newTask newPid filename kernelStack newDir entry userStackPtr
              (s.processTable newPid).wakeupTime) }
      free fileBuffer
      return some newPid

/-- Loading an ELF image into a new address space, with `old_dir` active on entry. -/
def loadProgram (filename : List UInt8) (argv : List (List UInt8)) (fileBuffer newDir : ℕ) :
    Kernel (Option ℕ) := do
  let oldDir := (← get).cr3
  pagingSwitchDirectory newDir
  let phoff ← load32 (fileBuffer + ehdrPhoff)
  if ← loadSegments newDir fileBuffer (fileBuffer + phoff) (2 ^ 16) 0 then
    if ← mapStackPages newDir userStackPages 0 then
      let userStackPtr ← setupArguments argv
      pagingSwitchDirectory oldDir
      installTask filename fileBuffer newDir userStackPtr
    else
      pagingSwitchDirectory oldDir
      pagingFreeDirectory newDir
      free fileBuffer
      return none
  else
    -- the switch back to the old directory is commented out in the source
    pagingFreeDirectory newDir
    free fileBuffer
    return none

/-- `exec_program` for `argc = argv.length`: the new pid, or `none` for `-1`. -/
def execProgram (argv : List (List UInt8)) : Kernel (Option ℕ) := do
  match argv with
  | [] => return none
  | filename :: _ =>
      match ← openProgram filename with
      | none => return none
      | some fileBuffer =>
          let magic ← load32 fileBuffer
          if magic ≠ elfMagic then
            free fileBuffer
            return none
          else
            let kernelDirectory := (← get).kernelDirectory
            let newDir ← pagingCloneDirectory kernelDirectory
            if newDir = 0 then
              free fileBuffer
              return none
            else
              loadProgram filename argv fileBuffer newDir

/-! ## `userspace/user_entry.asm` -/

/-- `_start_user_program` on memory `m`: the `argc` and `argv` that `user_program_main` is called
with. -/
def startUserProgram (m : ByteMemory) (esp : ℕ) : ℕ × ℕ := (m.get32 esp, m.get32 (esp + 4))

/-! ## `process_init` -/

/-- PCB of a kernel task that starts at `entry` on a 4 KiB stack from the heap. -/
def kernelTask (pid : ℕ) (name : List UInt8) (kernelDirectory entry stackBase : ℕ) : Task where
  pid := pid
  state := .running
  name := strncpy name processNameLen
  pageDirectory := kernelDirectory
  cpuState :=
    { eip := entry, cs := 0x08, ss := 0x10, eflags := 0x202, esp := (stackBase + 4096) % 2 ^ 32,
      cr3 := kernelDirectory }

/-- `process_init`; `idleTask` and `shellTask` are the linked addresses of the two tasks. -/
def processInit (idleTask shellTask : ℕ) : Kernel Unit := do
  modify fun s => { s with processTable := fun _ => {} }
  let kernelDirectory := (← get).kernelDirectory
  let stackA ← malloc 4096
  modify fun s =>
    { s with
      processTable := Function.update s.processTable 0
        (kernelTask 0 [105, 100, 108, 101] kernelDirectory idleTask stackA) }
  let stackB ← malloc 4096
  modify fun s =>
    { s with
      processTable := Function.update s.processTable 1
        (kernelTask 1 [115, 104, 101, 108, 108] kernelDirectory shellTask stackB) }
  modify fun s => { s with currentTask := 0 }

end MyOS
