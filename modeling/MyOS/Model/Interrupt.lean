import MyOS.Model.Process

/-! Timer interrupts: `irq_common_stub` of `isr.asm`, `timer_handler` of `timer.c`, `schedule`
of `process.c` and `task_switch` of `switch.asm`. Interrupt frames are words on the kernel
stack; `registers_t` gives their order. Stack addresses wrap at 32 bits. -/

namespace MyOS

/-- Offsets in `registers_t`. -/
def regsEdi : ℕ := 16
def regsEsi : ℕ := 20
def regsEbp : ℕ := 24
def regsEsp : ℕ := 28
def regsEbx : ℕ := 32
def regsEdx : ℕ := 36
def regsEcx : ℕ := 40
def regsEax : ℕ := 44
def regsEip : ℕ := 56
def regsCs : ℕ := 60
def regsEflags : ℕ := 64
def regsUseresp : ℕ := 68
def regsSs : ℕ := 72

/-- What the processor holds when an interrupt arrives and after `iret`. -/
structure Context where
  edi : ℕ
  esi : ℕ
  ebp : ℕ
  ebx : ℕ
  edx : ℕ
  ecx : ℕ
  eax : ℕ
  eip : ℕ
  cs : ℕ
  eflags : ℕ
  esp : ℕ
  ss : ℕ
  gs : ℕ
  fs : ℕ
  es : ℕ
  ds : ℕ
  deriving DecidableEq, Repr

/-- The address `n` bytes below `addr`. -/
def below (addr n : ℕ) : ℕ := (addr + 2 ^ 32 - n) % 2 ^ 32

/-- The address of the field at offset `off` of the frame at `r`. -/
def field (r off : ℕ) : ℕ := (r + off) % 2 ^ 32

/-- Words stored from `addr` downwards, as a series of pushes does. -/
def pushWords (stack : ℕ → ℕ) (addr : ℕ) : List ℕ → ℕ → ℕ
  | [] => stack
  | v :: vs => pushWords (Function.update stack (below addr 4) v) (below addr 4) vs

/-- Where the pushes start: from ring 3 the processor moves to the stack in the TSS, from
ring 0 it stays on the stack. -/
def irqBase (c : Context) (s : Machine) : ℕ := if c.cs % 4 = 3 then s.esp0 else c.esp

/-- The words pushed by the processor and `irq_common_stub`, in order. From ring 3 `ss` and
`esp` come first. `pusha` stores the stack pointer from before it. -/
def irqWords (c : Context) (base : ℕ) : List ℕ :=
  let outer := if c.cs % 4 = 3 then [c.ss, c.esp] else []
  let espAtPusha := below base (4 * outer.length + 20)
  outer ++ [c.eflags, c.cs, c.eip, 0, 32,
    c.eax, c.ecx, c.edx, c.ebx, espAtPusha, c.ebp, c.esi, c.edi, c.ds, c.es, c.fs, c.gs]

/-- Interrupt entry up to the call of the handler, with the address of the frame. -/
def irqEntry (c : Context) (s : Machine) : ℕ × Machine :=
  let base := irqBase c s
  let words := irqWords c base
  (below base (4 * words.length), { s with stack := pushWords s.stack base words })

/-- The pops of `irq_common_stub` and `iret`. A return to ring 0 pops three words and stays on
the stack; a return to ring 3 also pops `esp` and `ss`. -/
def irqReturn (r : ℕ) (s : Machine) : Context where
  gs := s.stack (field r 0)
  fs := s.stack (field r 4)
  es := s.stack (field r 8)
  ds := s.stack (field r 12)
  edi := s.stack (field r regsEdi)
  esi := s.stack (field r regsEsi)
  ebp := s.stack (field r regsEbp)
  ebx := s.stack (field r regsEbx)
  edx := s.stack (field r regsEdx)
  ecx := s.stack (field r regsEcx)
  eax := s.stack (field r regsEax)
  eip := s.stack (field r regsEip)
  cs := s.stack (field r regsCs)
  eflags := s.stack (field r regsEflags)
  esp :=
    if s.stack (field r regsCs) % 4 = 3 then s.stack (field r regsUseresp)
    else field r regsUseresp
  ss := if s.stack (field r regsCs) % 4 = 3 then s.stack (field r regsSs) else 0x10

/-! ## `schedule` -/

/-- The registers `schedule` saves, by field name. -/
def savedState (stack : ℕ → ℕ) (r pageDirectory : ℕ) : CpuState where
  eax := stack (field r regsEax)
  ecx := stack (field r regsEcx)
  edx := stack (field r regsEdx)
  ebx := stack (field r regsEbx)
  ebp := stack (field r regsEbp)
  esi := stack (field r regsEsi)
  edi := stack (field r regsEdi)
  eip := stack (field r regsEip)
  cs := stack (field r regsCs)
  eflags := stack (field r regsEflags)
  cr3 := pageDirectory
  esp :=
    if stack (field r regsCs) = 0x1B then stack (field r regsUseresp) else stack (field r regsEsp)
  ss := if stack (field r regsCs) = 0x1B then stack (field r regsSs) else 0x10

/-- A zombie's state is not saved. -/
def saveCurrent (r : ℕ) (s : Machine) : Machine :=
  let task := s.processTable s.currentTask
  if task.state ≠ .zombie then
    { s with
      processTable := Function.update s.processTable s.currentTask
        { task with cpuState := savedState s.stack r task.pageDirectory } }
  else
    s

/-- The round-robin scan, starting behind `pid`. -/
def nextRunnable (table : ℕ → Task) (pid : ℕ) : Option ℕ :=
  (List.range maxProcesses).findSome? fun i =>
    let nextPid := (pid + (i + 1)) % maxProcesses
    if (table nextPid).state = .running then some nextPid else none

/-- The slot `schedule` selects; the idle task when nothing is runnable. -/
def selectTask (table : ℕ → Task) (pid : ℕ) : ℕ := (nextRunnable table pid).getD 0

/-- `schedule`: save, select, and point the TSS at the kernel stack of the selected task. -/
def schedule (r : ℕ) (s : Machine) : Machine :=
  let s := saveCurrent r s
  let next := selectTask s.processTable (s.processTable s.currentTask).pid
  { s with
    currentTask := next
    esp0 := ((s.processTable next).kernelStack + pmmFrameSize) % 2 ^ 32 }

/-! ## `task_switch` -/

/-- The dword of a `cpu_state_t` at a byte offset. -/
def CpuState.word (c : CpuState) : ℕ → ℕ
  | 0 => c.edi
  | 4 => c.esi
  | 8 => c.ebp
  | 12 => c.ebx
  | 16 => c.edx
  | 20 => c.ecx
  | 24 => c.eax
  | 28 => c.eip
  | 32 => c.cs
  | 36 => c.eflags
  | 40 => c.esp
  | 44 => c.ss
  | 48 => c.cr3
  | _ => 0

/-- The moves of `task_switch`: offset in `cpu_state_t`, offset in `registers_t`. -/
def switchMoves : List (ℕ × ℕ) :=
  [(0, 16), (4, 20), (8, 24), (12, 32), (16, 36), (20, 40), (24, 44), (28, 56), (32, 60), (36, 64),
    (40, 68), (44, 72)]

/-- Overwrite the interrupt frame at `r` with a saved state. -/
def loadFrame (c : CpuState) (r : ℕ) (stack : ℕ → ℕ) : ℕ → ℕ :=
  switchMoves.foldl (fun stack move => Function.update stack (field r move.2) (c.word move.1)) stack

/-- `task_switch`: schedule, then put the selected task's state into the frame and load CR3. -/
def taskSwitch (r : ℕ) (s : Machine) : Machine :=
  let s := schedule r s
  let c := (s.processTable s.currentTask).cpuState
  { s with stack := loadFrame c r s.stack, cr3 := c.word 48 }

/-! ## `timer_handler` and `sleep` -/

/-- The wake-up loop: sleeping tasks whose time has come become runnable. -/
def wakeTasks (tick : ℕ) (table : ℕ → Task) : ℕ → Task := fun i =>
  if i < maxProcesses ∧ (table i).state = .sleeping ∧ (table i).wakeupTime ≤ tick then
    { table i with state := .running }
  else
    table i

def timerHandler (r : ℕ) (s : Machine) : Machine :=
  let tick := (s.tick + 1) % 2 ^ 32
  let s := { s with tick, processTable := wakeTasks tick s.processTable }
  if s.multitaskingEnabled then taskSwitch r s else s

/-- A whole timer interrupt, from the interrupted context to the one `iret` loads. -/
def timerInterrupt (c : Context) (s : Machine) : Context × Machine :=
  let (r, s) := irqEntry c s
  let s := timerHandler r s
  (irqReturn r s, s)

/-- `sleep` up to the halt: state and wake-up time of the current task. -/
def sleep (milliseconds : ℕ) (s : Machine) : Machine :=
  let ticksToWait := if milliseconds / 10 = 0 then 1 else milliseconds / 10
  { s with
    processTable := Function.update s.processTable s.currentTask
      { s.processTable s.currentTask with
        state := .sleeping
        wakeupTime := (s.tick + ticksToWait) % 2 ^ 32 } }

/-! ## `sys_exit` -/

/-- `sys_exit` up to its yield: a waiting shell is woken and the current task becomes a
zombie. -/
def sysExit (s : Machine) : Machine :=
  let table :=
    if (s.processTable 1).state = .waiting then
      Function.update s.processTable 1 { s.processTable 1 with state := .running }
    else
      s.processTable
  { s with
    processTable := Function.update table s.currentTask
      { table s.currentTask with state := .zombie } }

end MyOS
