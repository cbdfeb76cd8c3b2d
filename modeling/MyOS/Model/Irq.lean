import Mathlib.Data.List.Basic
import MyOS.Lib.Intel8259

/-! From an interrupt line to its handler: `pic_remap` of `io.c`, the descriptor table of `idt.c`,
the stubs of `isr.asm`, and `irq_handler` of `irq.c` with the handlers installed there. -/

namespace MyOS

open Intel8259

/-! ## `io.c` -/

def pic1Cmd : ℕ := 0x20
def pic1Data : ℕ := 0x21
def pic2Cmd : ℕ := 0xA0
def pic2Data : ℕ := 0xA1

/-- `pic_remap`. An offset reaches the port as one byte. -/
def picRemap (offset1 offset2 : ℕ) (p : Pair) : Pair :=
  let a1 := p.read pic1Data
  let a2 := p.read pic2Data
  let p := p.out pic1Cmd 0x11
  let p := p.out pic2Cmd 0x11
  let p := p.out pic1Data (offset1 % 256)
  let p := p.out pic2Data (offset2 % 256)
  let p := p.out pic1Data 4
  let p := p.out pic2Data 2
  let p := p.out pic1Data 0x01
  let p := p.out pic2Data 0x01
  let p := p.out pic1Data a1
  p.out pic2Data a2

/-! ## `idt.c` -/

/-- `struct idt_entry_struct`. -/
structure IdtEntry where
  baseLow : ℕ
  selector : ℕ
  always0 : ℕ
  flags : ℕ
  baseHigh : ℕ
  deriving DecidableEq, Repr

/-- `idt_set_gate`. -/
def idtSetGate (num base selector flags : ℕ) (idt : ℕ → IdtEntry) : ℕ → IdtEntry :=
  Function.update idt num
    { baseLow := base % 2 ^ 16
      baseHigh := base / 2 ^ 16 % 2 ^ 16
      selector := selector
      always0 := 0
      flags := flags }

/-- The entry points of `isr.asm`. -/
inductive Stub
  | isr (n : Fin 32)
  | irq (n : Fin 16)
  | isr128
  deriving DecidableEq, Repr

/-- The number a stub pushes. -/
def Stub.number : Stub → ℕ
  | .isr n => n
  | .irq n => 32 + n
  | .isr128 => 128

/-- `idt_install`, for stubs at the addresses `addr`. -/
def idtInstall (addr : Stub → ℕ) (idt : ℕ → IdtEntry) : ℕ → IdtEntry :=
  let idt := (List.range 256).foldl (fun idt i => idtSetGate i 0 0 0 idt) idt
  let idt := (List.finRange 32).foldl
    (fun idt (n : Fin 32) => idtSetGate n.val (addr (.isr n)) 0x08 0x8F idt) idt
  let idt := (List.finRange 16).foldl
    (fun idt (n : Fin 16) => idtSetGate (32 + n.val) (addr (.irq n)) 0x08 0x8E idt) idt
  idtSetGate 128 (addr .isr128) 0x08 0xEE idt

/-- A gate as the processor reads it: `trap` gates leave the interrupt flag as it is. -/
structure Gate where
  offset : ℕ
  selector : ℕ
  dpl : ℕ
  trap : Bool
  deriving DecidableEq, Repr

/-- The gate in an entry: present, and an interrupt or trap gate of 32 bits. -/
def IdtEntry.gate (e : IdtEntry) : Option Gate :=
  if e.flags.testBit 7 ∧ (e.flags % 32 = 14 ∨ e.flags % 32 = 15) then
    some
      { offset := e.baseLow + 2 ^ 16 * e.baseHigh
        selector := e.selector
        dpl := e.flags / 32 % 4
        trap := e.flags % 32 = 15 }
  else none

/-! ## `irq.c` -/

/-- The handlers that are installed: `timer_handler` and `keyboard_handler`. -/
inductive IrqRoutine
  | timer
  | keyboard
  deriving DecidableEq, Repr

/-- `irq_install_handler`. -/
def irqInstallHandler (irq : ℕ) (handler : IrqRoutine) (routines : ℕ → Option IrqRoutine) :
    ℕ → Option IrqRoutine :=
  Function.update routines irq (some handler)

/-- The bytes a handler sends to the controllers: `task_switch` of `switch.asm` does so, which the
timer calls once `multitasking_enabled` is set. -/
def IrqRoutine.writes (multitaskingEnabled : Bool) : IrqRoutine → List (ℕ × ℕ)
  | .timer => if multitaskingEnabled then [(0xA0, 0x20), (0x20, 0x20)] else []
  | .keyboard => []

/-- The bytes `irq_handler` sends to the controllers, its handler's first. -/
def irqHandler (routines : ℕ → Option IrqRoutine) (multitaskingEnabled : Bool) (intNo : ℕ) :
    List (ℕ × ℕ) :=
  let handler := ((routines (intNo - 32)).map (·.writes multitaskingEnabled)).getD []
  handler ++ (if 40 ≤ intNo then [(0xA0, 0x20)] else []) ++ [(0x20, 0x20)]

/-! ## The processor -/

/-- Interrupt controllers and processor. `frames` are the handlers under way, the innermost first,
each with the bytes it has still to send; `committed` means that the processor has seen its
interrupt pin and will ask for the vector next. -/
structure IrqState where
  pics : Pair
  interruptFlag : Bool
  frames : List (List (ℕ × ℕ))
  committed : Bool

/-- What happens at the controllers. -/
inductive IrqEvent
  | raise (i : ℕ)
  | withdraw (i : ℕ)
  | deliver (vector : ℕ)
  | internal
  deriving DecidableEq, Repr

/-- A device line: line 2 belongs to the second controller. -/
def DeviceLine (i : ℕ) : Prop := i < 16 ∧ i ≠ 2

/-- Entry through the gate of `vector`: it leads to the stub of an interrupt line. The gate decides
about the interrupt flag. -/
structure Enters (addr : Stub → ℕ) (idt : ℕ → IdtEntry) (vector : ℕ) (gate : Gate) (n : Fin 16) :
    Prop where
  entry : (idt vector).gate = some gate
  stub : addr (.irq n) = gate.offset

/-- One step of the devices or of the processor, for a descriptor table and a table of handlers.
Between two steps of the processor any number of lines may change. -/
inductive IrqStep (addr : Stub → ℕ) (idt : ℕ → IdtEntry) (routines : ℕ → Option IrqRoutine) :
    IrqState → IrqEvent → IrqState → Prop
  | raise {s} (i : ℕ) : DeviceLine i →
      IrqStep addr idt routines s (.raise i) { s with pics := s.pics.raise i }
  | withdraw {s} (i : ℕ) : DeviceLine i →
      IrqStep addr idt routines s (.withdraw i) { s with pics := s.pics.withdraw i }
  | drop {s} : IrqStep addr idt routines s .internal { s with pics := s.pics.drop }
  /-- `cli`, `sti` and `popf` outside of the handlers. -/
  | flag {s} (b : Bool) : s.committed = false → s.frames = [] →
      IrqStep addr idt routines s .internal { s with interruptFlag := b }
  | sample {s} : s.committed = false → s.interruptFlag = true → s.pics.pin = true →
      IrqStep addr idt routines s .internal { s with committed := true }
  | accept {s} (vector : ℕ) (gate : Gate) (n : Fin 16) (multitaskingEnabled : Bool) :
      s.committed = true → s.pics.acknowledge.1 = some vector → Enters addr idt vector gate n →
      IrqStep addr idt routines s (.deliver vector)
        { pics := s.pics.acknowledge.2
          interruptFlag := s.interruptFlag && gate.trap
          frames := irqHandler routines multitaskingEnabled (Stub.irq n).number :: s.frames
          committed := false }
  /-- `int $0x20` in `sys_exit` and after `run`, and the switch it makes. -/
  | yield {s} (gate : Gate) (n : Fin 16) (multitaskingEnabled : Bool) :
      s.committed = false → s.frames = [] → Enters addr idt 0x20 gate n →
      IrqStep addr idt routines s .internal
        { s with
          interruptFlag := s.interruptFlag && gate.trap
          frames := irqHandler routines multitaskingEnabled (Stub.irq n).number :: s.frames }
  | send {s} {port byte : ℕ} {rest : List (ℕ × ℕ)} {frames : List (List (ℕ × ℕ))} :
      s.committed = false → s.frames = ((port, byte) :: rest) :: frames →
      IrqStep addr idt routines s .internal
        { s with pics := s.pics.out port byte, frames := rest :: frames }
  /-- `iret`, with the flag of the task that goes on. -/
  | iret {s} {frames : List (List (ℕ × ℕ))} (b : Bool) :
      s.committed = false → s.frames = [] :: frames →
      IrqStep addr idt routines s .internal { s with interruptFlag := b, frames := frames }

end MyOS
