import MyOS.Model.Interrupt

/-! `sleep` of `timer.c`, one access at a time, with what may happen between its steps. The
shell calls it with interrupts on; the system call keeps them off up to the halt. -/

namespace MyOS

/-- A tick is 10 ms; a short wait is still one tick. -/
def ticksToWait (milliseconds : UInt32) : ℕ :=
  if milliseconds.toNat / 10 = 0 then 1 else milliseconds.toNat / 10

/-- How far a call has come. `awake` is behind the `hlt`: the call returns as soon as its task
runs. -/
inductive SleepPc where
  | entered
  | loaded (startTick : ℕ)
  | marked (startTick : ℕ)
  | timed
  | halted
  | awake
  deriving DecidableEq

/-- `current_task->state = TASK_STATE_SLEEPING`. -/
def markSleeping (s : Machine) : Machine :=
  { s with
    processTable := Function.update s.processTable s.currentTask
      { s.processTable s.currentTask with state := .sleeping } }

/-- `current_task->wakeup_time = start_tick + ticks_to_wait`. -/
def setWakeupTime (milliseconds : UInt32) (startTick : ℕ) (s : Machine) : Machine :=
  { s with
    processTable := Function.update s.processTable s.currentTask
      { s.processTable s.currentTask with
        wakeupTime := (startTick + ticksToWait milliseconds) % 2 ^ 32 } }

/-- The next step of the call itself; a halted processor makes none. -/
def sleepStep (milliseconds : UInt32) (s : Machine) : SleepPc → Option (Machine × SleepPc)
  | .entered => some (s, .loaded s.tick)
  | .loaded startTick => some (markSleeping s, .marked startTick)
  | .marked startTick => some (setWakeupTime milliseconds startTick s, .timed)
  | .timed => some (s, .halted)
  | .halted => none
  | .awake => none

/-- A call under way; `ticks` counts the interrupts of the hardware timer since the call. -/
structure Sleeper where
  machine : Machine
  pc : SleepPc
  ticks : ℕ

/-- Any interrupt ends a `hlt`. -/
def Sleeper.interrupted (pid : ℕ) (σ : Sleeper) : SleepPc :=
  if σ.pc = .halted ∧ σ.machine.currentTask = pid then .awake else σ.pc

/-- What may happen next. A yield is `int 0x20` from another task, which runs the handler of
the timer interrupt; `other` is whatever else another task does. -/
inductive SleepEvent where
  | step
  | timer (r : ℕ)
  | keyboard
  | yield (r : ℕ)
  | other (s' : Machine)

/-- Another task leaves the tick, the current task and the sleeper's own entry to the
interrupt handler. -/
structure Elsewhere (pid : ℕ) (s s' : Machine) : Prop where
  tick : s'.tick = s.tick
  currentTask : s'.currentTask = s.currentTask
  multitaskingEnabled : s'.multitaskingEnabled = s.multitaskingEnabled
  state : (s'.processTable pid).state = (s.processTable pid).state
  wakeupTime : (s'.processTable pid).wakeupTime = (s.processTable pid).wakeupTime

/-- One event of a call made by task `pid`. -/
inductive SleepStep (pid : ℕ) (milliseconds : UInt32) : Sleeper → SleepEvent → Sleeper → Prop where
  | step {σ : Sleeper} {s' : Machine} {pc' : SleepPc} :
      σ.machine.currentTask = pid → sleepStep milliseconds σ.machine σ.pc = some (s', pc') →
      SleepStep pid milliseconds σ .step ⟨s', pc', σ.ticks⟩
  | timer {σ : Sleeper} (r : ℕ) :
      SleepStep pid milliseconds σ (.timer r)
        ⟨timerHandler r σ.machine, σ.interrupted pid, σ.ticks + 1⟩
  | keyboard {σ : Sleeper} :
      SleepStep pid milliseconds σ .keyboard ⟨σ.machine, σ.interrupted pid, σ.ticks⟩
  | yield {σ : Sleeper} (r : ℕ) : σ.machine.currentTask ≠ pid →
      SleepStep pid milliseconds σ (.yield r) ⟨timerHandler r σ.machine, σ.pc, σ.ticks⟩
  | other {σ : Sleeper} {s' : Machine} : σ.machine.currentTask ≠ pid →
      Elsewhere pid σ.machine s' →
      SleepStep pid milliseconds σ (.other s') ⟨s', σ.pc, σ.ticks⟩

/-- States reached from a call on `s₀` by events that all meet `P`. -/
inductive SleepRun (pid : ℕ) (milliseconds : UInt32) (P : Sleeper → SleepEvent → Prop)
    (s₀ : Machine) : Sleeper → Prop where
  | call : SleepRun pid milliseconds P s₀ ⟨s₀, .entered, 0⟩
  | next {σ σ' : Sleeper} {e : SleepEvent} : SleepRun pid milliseconds P s₀ σ → P σ e →
      SleepStep pid milliseconds σ e σ' → SleepRun pid milliseconds P s₀ σ'

end MyOS
