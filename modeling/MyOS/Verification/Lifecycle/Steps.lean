import MyOS.Model.Shell
import MyOS.Verification.Loader.Exec
import MyOS.Verification.Memory.Teardown
import MyOS.Verification.Process.Lifecycle

/-! Address spaces over whole process lifecycles: programs are started, run, exit and are reaped
while timer interrupts switch between them. Every reached state has a layout in which each used
slot above the shell has an address space and a kernel stack of its own. -/

namespace MyOS

open Effect X86Paging

/-! ## Steps -/

/-- A slot that holds a user process, running, asleep or a zombie. -/
def Machine.UserSlot (s : Machine) (i : ℕ) : Prop :=
  2 ≤ i ∧ i < maxProcesses ∧ (s.processTable i).state ≠ .unused

instance (s : Machine) (i : ℕ) : Decidable (s.UserSlot i) :=
  inferInstanceAs (Decidable (_ ∧ _ ∧ _))

/-- The kernel stacks of all processes are reached at their own addresses. -/
def Machine.StacksReached (s : Machine) : Prop :=
  ∀ i, s.UserSlot i → s.StackReached (s.processTable i).kernelStack

/-- What happens to the address spaces: a timer interrupt, a program that is started with every
frame it asks for, a zombie that is reaped, an exit, a halt, and a byte that a user task writes
at an address open to it. The image has segments on pages of their own, and after the start the
kernel stacks are still reached. `kmain` turns the scheduler on; the events recorded so far may be
dropped at any time, so that a start is judged by its own. -/
inductive SpaceStep : Machine → Machine → Prop where
  | enable (s : Machine) : SpaceStep s { s with multitaskingEnabled := true }
  | forget (s : Machine) : SpaceStep s { s with trace := [] }
  | timer (c : Context) (s : Machine) : SpaceStep s (timerInterrupt c s).2
  | run {s s' : Machine} (argv : List (List UInt8)) : s.currentTask = 1 → s.Executing →
      ReadsFile SeparateImage argv s → ArgsFit argv → runCommand argv s = .ok true s' →
      Clean s'.trace → s'.StacksReached → SpaceStep s s'
  | kill {s s' : Machine} (arg : List UInt8) : s.currentTask = 1 → s.Executing →
      killCommand arg s = .ok () s' → SpaceStep s s'
  | exit {s : Machine} : 2 ≤ s.currentTask → s.Executing → SpaceStep s (sysExit s)
  | sleep {s : Machine} (milliseconds : ℕ) : 1 ≤ s.currentTask → s.Executing →
      SpaceStep s (sleep milliseconds s)
  | store {s : Machine} (va pa : ℕ) (b : UInt8) : 2 ≤ s.currentTask → s.Executing →
      va < 2 ^ 32 → userAccessible s.mem s.cr3 va → X86Paging.translate s.mem s.cr3 va = some pa →
      SpaceStep s { s with mem := s.mem.set8 pa b }

theorem SpaceStep.kernelStep {s s' : Machine} (h : SpaceStep s s') : KernelStep s s' := by
  cases h with
  | enable => exact .work rfl rfl
  | forget => exact .work rfl rfl
  | timer c => exact .timer c _
  | run argv hcur hexec _ _ hrun _ _ => exact .run argv true hcur hexec hrun
  | kill arg hcur hexec hkill => exact .kill arg hcur hexec hkill
  | exit hcur hexec => exact .exit hcur hexec
  | sleep milliseconds hcur hexec => exact .sleep milliseconds hcur hexec
  | store va pa b _ _ _ _ _ => exact .work rfl rfl

/-! ## The invariant -/

/-- The slot of a process, its address space and its kernel stack belong together. -/
structure Layout.Backs (g : Layout) (i : ℕ) (t : Task) : Prop where
  space : ∃ sp, g.space i = some sp ∧ sp.dir = t.pageDirectory ∧
    ∀ k f, sp.table k = some f → k < 768
  stack : g.stack i = some t.kernelStack

/-- What holds between steps: the memory is laid out as `g` says, directories go by process
slot, and the directory of the current task is active. -/
structure Spaced (s : Machine) (g : Layout) (v : HeapView) : Prop where
  table : TableInvariant s
  space : KernelSpace s g
  heap : HeapInvariant s g v
  active : s.cr3 = (s.processTable s.currentTask).pageDirectory
  saved : ∀ i < maxProcesses, (s.processTable i).state ≠ .unused →
    (s.processTable i).cpuState.cr3 = (s.processTable i).pageDirectory
  kernel : ∀ i < 2, (s.processTable i).pageDirectory = g.root
  user : ∀ i, s.UserSlot i → g.Backs i (s.processTable i)
  stacksReached : s.StacksReached
  unused : ∀ i, ¬s.UserSlot i → g.space i = none ∧ g.stack i = none
  tidy : ∀ f, ¬g.loose f

variable {s s' : Machine} {g : Layout} {v : HeapView}

theorem Spaced.kernelHeap (h : Spaced s g v) (hcur : s.currentTask = 1) : KernelHeap s g v := by
  refine ⟨h.space, h.heap, ?_⟩
  rw [h.active, hcur]
  exact h.kernel 1 (by omega)

theorem Spaced.stack_aligned (h : Spaced s g v) {i : ℕ} (hi : s.UserSlot i) :
    (s.processTable i).kernelStack % 4096 = 0 :=
  (h.space.frame_bounds (o := .stack i) (h.user i hi).stack).1

/-- Kernel stacks are reached while the low pages stay where they are. -/
theorem Spaced.keeps_stacks (h : Spaced s g v) {g' : Layout} (hspace : KernelSpace s' g')
    (hlow : g'.lowFrame = g.lowFrame)
    (hslot : ∀ i, s'.UserSlot i → s.UserSlot i ∧
      (s'.processTable i).kernelStack = (s.processTable i).kernelStack) : s'.StacksReached := by
  intro i hi
  obtain ⟨hused, hstack⟩ := hslot i hi
  have haligned := h.stack_aligned hused
  rw [hstack, hspace.stackReached_iff haligned, hlow, ← h.space.stackReached_iff haligned]
  exact h.stacksReached i hused

theorem Spaced.of_slots (h : Spaced s g v) (htable : TableInvariant s')
    (hspace : KernelSpace s' g) (hheap : HeapInvariant s' g v)
    (hactive : s'.cr3 = (s'.processTable s'.currentTask).pageDirectory)
    (hstate : ∀ i, (s'.processTable i).state ≠ .unused ↔ (s.processTable i).state ≠ .unused)
    (hdir : ∀ i, (s'.processTable i).pageDirectory = (s.processTable i).pageDirectory)
    (hstack : ∀ i, (s'.processTable i).kernelStack = (s.processTable i).kernelStack)
    (hcr3 : ∀ i, (s'.processTable i).cpuState.cr3 = (s.processTable i).cpuState.cr3 ∨
      (s'.processTable i).cpuState.cr3 = (s'.processTable i).pageDirectory) :
    Spaced s' g v := by
  have hslot : ∀ i, s'.UserSlot i ↔ s.UserSlot i := by
    intro i
    unfold Machine.UserSlot
    rw [hstate i]
  refine ⟨htable, hspace, hheap, hactive, ?_, ?_, ?_,
    h.keeps_stacks hspace rfl fun i hi => ⟨(hslot i).mp hi, hstack i⟩, ?_, h.tidy⟩
  · intro i hi hused
    rcases hcr3 i with hsame | hnew
    · rw [hsame, hdir i]
      exact h.saved i hi ((hstate i).mp hused)
    · exact hnew
  · intro i hi
    rw [hdir i]
    exact h.kernel i hi
  · intro i hi
    obtain ⟨⟨sp, hsp, hspdir, hrange⟩, hkstack⟩ := h.user i ((hslot i).mp hi)
    refine ⟨⟨sp, hsp, ?_, hrange⟩, ?_⟩
    · rw [hdir i]
      exact hspdir
    · rw [hstack i]
      exact hkstack
  · intro i hi
    exact h.unused i fun hused => hi ((hslot i).mpr hused)

/-! ## Interrupts -/

/-- A timer interrupt changes tasks and stacks, and with them the active directory. -/
theorem timerInterrupt_tasks (c : Context) (s : Machine) :
    ∃ table current tick esp0 cr3 stack, (timerInterrupt c s).2 = { s with
      processTable := table, currentTask := current, tick := tick, esp0 := esp0, cr3 := cr3,
      stack := stack } := by
  have hsave : ∀ r t, ∃ table, saveCurrent r t = { t with processTable := table } := by
    intro r t
    unfold saveCurrent
    by_cases hz : (t.processTable t.currentTask).state ≠ .zombie
    · exact ⟨_, if_pos hz⟩
    · exact ⟨t.processTable, if_neg hz⟩
  rw [timerInterrupt_eq]
  by_cases hm : s.multitaskingEnabled = true
  · obtain ⟨table, htable⟩ := hsave (irqEntry c s).1 (ticked c s)
    rw [if_pos hm]
    unfold taskSwitch schedule
    rw [htable]
    exact ⟨_, _, _, _, _, _, rfl⟩
  · rw [if_neg hm]
    exact ⟨_, _, _, _, _, _, rfl⟩

theorem timerInterrupt_memory (c : Context) (s : Machine) :
    (timerInterrupt c s).2.mem = s.mem ∧ (timerInterrupt c s).2.paging = s.paging ∧
      (timerInterrupt c s).2.kernelDirectory = s.kernelDirectory ∧
      (timerInterrupt c s).2.pmm = s.pmm ∧ (timerInterrupt c s).2.heapTop = s.heapTop ∧
      (timerInterrupt c s).2.heapEnd = s.heapEnd ∧
      (timerInterrupt c s).2.freeListHead = s.freeListHead := by
  obtain ⟨table, current, tick, esp0, cr3, stack, heq⟩ := timerInterrupt_tasks c s
  rw [heq]
  exact ⟨rfl, rfl, rfl, rfl, rfl, rfl, rfl⟩

theorem timer_saved_cr3 (c : Context) (s : Machine) (i : ℕ) :
    ((timerInterrupt c s).2.processTable i).cpuState.cr3 = (s.processTable i).cpuState.cr3 ∨
      ((timerInterrupt c s).2.processTable i).cpuState.cr3 =
        ((timerInterrupt c s).2.processTable i).pageDirectory := by
  have hwake := wakeTasks_eq ((s.tick + 1) % 2 ^ 32) s.processTable i
  have hold : ((ticked c s).processTable i).cpuState.cr3 = (s.processTable i).cpuState.cr3 :=
    (congrArg (fun t : Task => t.cpuState.cr3) hwake).trans rfl
  rw [timerInterrupt_eq]
  cases s.multitaskingEnabled with
  | false => exact .inl hold
  | true =>
      have htable : (taskSwitch (irqEntry c s).1 (ticked c s)).processTable =
          (saveCurrent (irqEntry c s).1 (ticked c s)).processTable := rfl
      rw [if_pos rfl, htable]
      unfold saveCurrent
      by_cases hz : ((ticked c s).processTable (ticked c s).currentTask).state ≠ .zombie
      · rw [if_pos hz]
        by_cases hi : i = (ticked c s).currentTask
        · rw [hi]
          simp only [Function.update_self]
          exact .inr rfl
        · simp only [Function.update_of_ne hi]
          exact .inl hold
      · rw [if_neg hz]
        exact .inl hold

theorem timer_cr3 (c : Context) (s : Machine) :
    (timerInterrupt c s).2.cr3 = if s.multitaskingEnabled then
      ((timerInterrupt c s).2.processTable (timerInterrupt c s).2.currentTask).cpuState.cr3
    else s.cr3 := by
  rw [timerInterrupt_eq]
  cases s.multitaskingEnabled with
  | true => rfl
  | false => rfl

theorem Spaced.timer (h : Spaced s g v) (c : Context) : Spaced (timerInterrupt c s).2 g v := by
  obtain ⟨hmem, hpaging, hroot, hpmm, htop, hend, hhead⟩ := timerInterrupt_memory c s
  have htable := h.table.timer c
  have hslot : ∀ i, ((timerInterrupt c s).2.processTable i).pageDirectory =
      (s.processTable i).pageDirectory ∧
      ((timerInterrupt c s).2.processTable i).kernelStack = (s.processTable i).kernelStack := by
    intro i
    obtain ⟨state, cpu, hslot, -⟩ := timer_slot c s i
    rw [hslot]
    exact ⟨rfl, rfl⟩
  have hsaved := timer_saved_cr3 c s
  refine h.of_slots htable (h.space.same hmem hpaging hroot hpmm) ?_ ?_ (timer_used c)
    (fun i => (hslot i).1) (fun i => (hslot i).2) hsaved
  · refine h.heap.of_words htop hend hhead ?_
    intro b _
    unfold Machine.word
    rw [hmem]
    exact ⟨rfl, rfl⟩
  · rw [timer_cr3]
    cases hm : s.multitaskingEnabled with
    | true =>
        rw [if_pos rfl]
        rcases hsaved (timerInterrupt c s).2.currentTask with hold | hnew
        · rw [hold, (hslot _).1]
          exact h.saved _ htable.current_lt ((timer_used c _).mp htable.current_used)
        · exact hnew
    | false =>
        rw [if_neg (by decide), (hslot _).1, timer_currentTask_off c s hm]
        exact h.active

/-! ## The current task -/

/-- The scheduler's switch and the record of events are no part of the layout. -/
theorem Spaced.of_flags (h : Spaced s g v) {enabled : Bool} {trace : List Event}
    (htable : TableInvariant { s with multitaskingEnabled := enabled, trace }) :
    Spaced { s with multitaskingEnabled := enabled, trace } g v :=
  ⟨htable, h.space.same rfl rfl rfl rfl, h.heap.of_words rfl rfl rfl fun _ _ => ⟨rfl, rfl⟩,
    h.active, h.saved, h.kernel, h.user, h.stacksReached, h.unused, h.tidy⟩

theorem Spaced.sleep (h : Spaced s g v) (milliseconds : ℕ)
    (htable : TableInvariant (sleep milliseconds s)) : Spaced (sleep milliseconds s) g v := by
  have hslot : ∀ i, (MyOS.sleep milliseconds s).processTable i =
      { s.processTable i with
        state := ((MyOS.sleep milliseconds s).processTable i).state
        wakeupTime := ((MyOS.sleep milliseconds s).processTable i).wakeupTime } := by
    intro i
    by_cases hi : i = s.currentTask
    · simp [MyOS.sleep, hi]
    · simp [MyOS.sleep, hi]
  have hstate : ∀ i, ((MyOS.sleep milliseconds s).processTable i).state ≠ .unused ↔
      (s.processTable i).state ≠ .unused := by
    intro i
    by_cases hi : i = s.currentTask
    · have hused := h.table.current_used
      simp [MyOS.sleep, hi, hused]
    · simp [MyOS.sleep, hi]
  refine h.of_slots htable (h.space.same rfl rfl rfl rfl) (h.heap.of_words rfl rfl rfl
    fun _ _ => ⟨rfl, rfl⟩) ?_ hstate ?_ ?_ ?_
  · change s.cr3 = _
    rw [hslot, h.active]
    rfl
  · intro i
    rw [hslot]
  · intro i
    rw [hslot]
  · intro i
    rw [hslot]
    exact .inl rfl

theorem Spaced.exit (h : Spaced s g v) (htable : TableInvariant (sysExit s)) :
    Spaced (sysExit s) g v := by
  have hslot : ∀ i, (sysExit s).processTable i =
      { s.processTable i with state := ((sysExit s).processTable i).state } := by
    intro i
    unfold sysExit
    by_cases hw : (s.processTable 1).state = .waiting
    · by_cases hi : i = s.currentTask
      · by_cases h1 : s.currentTask = 1
        · simp [hw, hi, h1]
        · simp [hw, hi, h1]
      · by_cases h1 : i = 1
        · simp [hw, h1, Ne.symm (h1 ▸ hi), h1 ▸ hi]
        · simp [hw, hi, h1]
    · by_cases hi : i = s.currentTask
      · simp [hw, hi]
      · simp [hw, hi]
  have hstate : ∀ i, ((sysExit s).processTable i).state ≠ .unused ↔
      (s.processTable i).state ≠ .unused := by
    intro i
    have hused := h.table.current_used
    unfold sysExit
    by_cases hw : (s.processTable 1).state = .waiting
    · by_cases hi : i = s.currentTask
      · simp [hw, hi, hused]
      · by_cases h1 : i = 1
        · simp [hw, h1, h1 ▸ hi]
        · simp [hw, hi, h1]
    · by_cases hi : i = s.currentTask
      · simp [hw, hi, hused]
      · simp [hw, hi]
  refine h.of_slots htable (h.space.same rfl rfl rfl rfl) (h.heap.of_words rfl rfl rfl
    fun _ _ => ⟨rfl, rfl⟩) ?_ hstate ?_ ?_ ?_
  · change s.cr3 = ((sysExit s).processTable s.currentTask).pageDirectory
    rw [hslot, h.active]
  · intro i
    rw [hslot]
  · intro i
    rw [hslot]
  · intro i
    rw [hslot]
    exact .inl rfl

end MyOS
