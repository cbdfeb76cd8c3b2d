import MyOS.Verification.Process.Lifecycle
import MyOS.Verification.Switch.Frame

/-! Context switches between user tasks: what a task held when it was interrupted in ring 3
is what the frame holds when it is selected again, whatever ran in between. -/

namespace MyOS

/-- Steps during which slot `i` does not become current. -/
def RunsWithout (i : ℕ) : Machine → Machine → Prop :=
  Relation.ReflTransGen fun s s' => KernelStep s s' ∧ s'.currentTask ≠ i

/-- Slot `i` holds the saved registers and the address space of a live task. -/
structure Parked (i : ℕ) (cpu : CpuState) (pageDirectory : ℕ) (s : Machine) : Prop where
  cpu_eq : (s.processTable i).cpuState = cpu
  directory_eq : (s.processTable i).pageDirectory = pageDirectory
  used : (s.processTable i).state ≠ .unused
  alive : (s.processTable i).state ≠ .zombie

variable {i pageDirectory : ℕ} {cpu : CpuState} {s s' : Machine}

/-! ## What is saved stays -/

theorem Parked.of_slot (h : Parked i cpu pageDirectory s)
    (hslot : s'.processTable i = s.processTable i) : Parked i cpu pageDirectory s' := by
  refine ⟨?_, ?_, ?_, ?_⟩ <;> rw [hslot]
  · exact h.cpu_eq
  · exact h.directory_eq
  · exact h.used
  · exact h.alive

theorem Parked.timer (h : Parked i cpu pageDirectory s) (hne : i ≠ s.currentTask) (c : Context) :
    Parked i cpu pageDirectory (timerInterrupt c s).2 := by
  obtain ⟨state, cpu', hslot, hstate, hcpu⟩ := timer_slot c s i
  have hlive : state ≠ .unused ∧ state ≠ .zombie := by
    rcases hstate with hsame | ⟨-, hrun⟩
    · rw [hsame]
      exact ⟨h.used, h.alive⟩
    · rw [hrun]
      decide
  refine ⟨?_, ?_, ?_, ?_⟩ <;> rw [hslot]
  · exact (hcpu hne).trans h.cpu_eq
  · exact h.directory_eq
  · exact hlive.1
  · exact hlive.2

theorem Parked.run {argv : List (List UInt8)} {yields : Bool} (h : Parked i cpu pageDirectory s)
    (hne : i ≠ s.currentTask) (hrun : runCommand argv s = .ok yields s') :
    Parked i cpu pageDirectory s' := by
  obtain ⟨-, ⟨-, hsame⟩ | ⟨t, filename, rest, pid, -, -, hinst, hcur, hwaits⟩⟩ :=
    runCommand_table hrun
  · exact h.of_slot (by rw [hsame])
  · cases hinst with
    | started hslot hinstalled =>
        have hip : i ≠ pid := by
          intro hip
          rw [hip] at h
          exact h.used (findFreeSlot_eq_some hslot).2
        refine h.of_slot ?_
        rw [hwaits, hcur, Function.update_of_ne hne, hinstalled, Function.update_of_ne hip]

theorem Parked.kill {arg : List UInt8} (h : Parked i cpu pageDirectory s)
    (hkill : killCommand arg s = .ok () s') : Parked i cpu pageDirectory s' := by
  obtain ⟨-, hsame | ⟨pid, -, hzombie, hreap⟩⟩ := killCommand_table hkill
  · exact h.of_slot (by rw [hsame])
  · have hip : i ≠ pid := by
      intro hip
      rw [hip] at h
      exact h.alive hzombie
    exact h.of_slot (by rw [hreap, Function.update_of_ne hip])

theorem Parked.exit (h : Parked i cpu pageDirectory s) (hne : i ≠ s.currentTask) :
    Parked i cpu pageDirectory (sysExit s) := by
  by_cases hwait : (s.processTable 1).state = .waiting
  · by_cases h1 : i = 1
    · subst h1
      refine ⟨?_, ?_, ?_, ?_⟩
      · simpa [sysExit, hwait, hne] using h.cpu_eq
      · simpa [sysExit, hwait, hne] using h.directory_eq
      · simp [sysExit, hwait, hne]
      · simp [sysExit, hwait, hne]
    · exact h.of_slot (by simp [sysExit, hwait, hne, h1])
  · exact h.of_slot (by simp [sysExit, hwait, hne])

theorem Parked.step (h : Parked i cpu pageDirectory s) (hne : i ≠ s.currentTask)
    (hstep : KernelStep s s') : Parked i cpu pageDirectory s' := by
  cases hstep with
  | timer c => exact h.timer hne c
  | run argv yields _ _ hrun => exact h.run hne hrun
  | kill arg _ _ hkill => exact h.kill hkill
  | exit _ _ => exact h.exit hne
  | sleep milliseconds _ _ => exact h.of_slot (by simp [sleep, hne])
  | work htable _ => exact h.of_slot (by rw [htable])

/-- Whatever runs while slot `i` is not current leaves what is saved there. -/
theorem Parked.runsWithout (h : Parked i cpu pageDirectory s) (hne : s.currentTask ≠ i)
    (hrun : RunsWithout i s s') : Parked i cpu pageDirectory s' ∧ s'.currentTask ≠ i := by
  induction hrun with
  | refl => exact ⟨h, hne⟩
  | tail _ hstep ih => exact ⟨ih.1.step (Ne.symm ih.2) hstep.1, hstep.2⟩

/-! ## Selection -/

theorem timer_frame (c : Context) (s : Machine) (hm : s.multitaskingEnabled = true) :
    FrameHolds (timerInterrupt c s).2 (irqEntry c s).1
      ((timerInterrupt c s).2.processTable (timerInterrupt c s).2.currentTask).cpuState := by
  rw [timerInterrupt_eq, if_pos hm]
  exact taskSwitch_frame _ _

/-- Selecting a parked task puts its saved registers into the frame. -/
theorem Parked.frame (h : Parked i cpu pageDirectory s) (hne : s.currentTask ≠ i) (c : Context)
    (hm : s.multitaskingEnabled = true) (hsel : (timerInterrupt c s).2.currentTask = i) :
    FrameHolds (timerInterrupt c s).2 (irqEntry c s).1 cpu := by
  have hframe := timer_frame c s hm
  rw [hsel, (h.timer (Ne.symm hne) c).cpu_eq] at hframe
  exact hframe

/-- The registers stored for the current task are those of its interrupt frame. -/
theorem timer_saves (c : Context) (hm : s.multitaskingEnabled = true)
    (halive : (s.processTable s.currentTask).state ≠ .zombie) :
    ((timerInterrupt c s).2.processTable s.currentTask).cpuState =
      savedState (irqEntry c s).2.stack (irqEntry c s).1
        (s.processTable s.currentTask).pageDirectory := by
  have hz : (wakeTasks ((s.tick + 1) % 2 ^ 32) s.processTable s.currentTask).state ≠ .zombie := by
    rcases wakeTasks_state ((s.tick + 1) % 2 ^ 32) s.processTable s.currentTask with
      hsame | ⟨-, hrun⟩
    · rw [hsame]
      exact halive
    · rw [hrun]
      decide
  have hcur : (ticked c s).currentTask = s.currentTask := rfl
  have htable : (ticked c s).processTable =
      wakeTasks ((s.tick + 1) % 2 ^ 32) s.processTable := rfl
  rw [timerInterrupt_eq, if_pos hm]
  change ((saveCurrent (irqEntry c s).1 (ticked c s)).processTable s.currentTask).cpuState = _
  unfold saveCurrent
  rw [hcur, htable, if_pos hz]
  dsimp only
  rw [Function.update_self, wakeTasks_eq]
  rfl

/-- A zombie's registers are not stored. -/
theorem timer_zombie (c : Context) (hm : s.multitaskingEnabled = true)
    (hzombie : (s.processTable s.currentTask).state = .zombie) :
    ((timerInterrupt c s).2.processTable s.currentTask).cpuState =
      (s.processTable s.currentTask).cpuState := by
  have hz : (wakeTasks ((s.tick + 1) % 2 ^ 32) s.processTable s.currentTask).state = .zombie := by
    rcases wakeTasks_state ((s.tick + 1) % 2 ^ 32) s.processTable s.currentTask with
      hsame | ⟨hsleep, -⟩
    · rw [hsame]
      exact hzombie
    · rw [hzombie] at hsleep
      cases hsleep
  have hcur : (ticked c s).currentTask = s.currentTask := rfl
  have htable : (ticked c s).processTable =
      wakeTasks ((s.tick + 1) % 2 ^ 32) s.processTable := rfl
  rw [timerInterrupt_eq, if_pos hm]
  change ((saveCurrent (irqEntry c s).1 (ticked c s)).processTable s.currentTask).cpuState = _
  unfold saveCurrent
  rw [hcur, htable, if_neg (by rw [hz]; decide), htable, wakeTasks_eq]

theorem Machine.Executing.alive (h : s.Executing) :
    (s.processTable s.currentTask).state ≠ .zombie := by
  rcases h with hrun | hsleep
  · rw [hrun]
    decide
  · rw [hsleep]
    decide

/-- An interrupt parks the current task with the registers of its frame. -/
theorem parked_of_interrupt (c : Context) (hm : s.multitaskingEnabled = true)
    (hused : (s.processTable s.currentTask).state ≠ .unused)
    (halive : (s.processTable s.currentTask).state ≠ .zombie) :
    Parked s.currentTask
      (savedState (irqEntry c s).2.stack (irqEntry c s).1
        (s.processTable s.currentTask).pageDirectory)
      (s.processTable s.currentTask).pageDirectory (timerInterrupt c s).2 := by
  obtain ⟨state, cpu', hslot, hstate, -⟩ := timer_slot c s s.currentTask
  have hlive : state ≠ .unused ∧ state ≠ .zombie := by
    rcases hstate with hsame | ⟨-, hrun⟩
    · rw [hsame]
      exact ⟨hused, halive⟩
    · rw [hrun]
      decide
  refine ⟨timer_saves c hm halive, ?_, ?_, ?_⟩ <;> rw [hslot]
  · exact hlive.1
  · exact hlive.2

/-- What holds of the frames user tasks are resumed with. The interrupt that saves a task may
itself select it again; otherwise any steps may follow in which it is not current. -/
structure UserSwitchSpec : Prop where
  same_interrupt : ∀ s c, s.multitaskingEnabled = true → s.Executing → c.cs = 0x1B →
    (timerInterrupt c s).2.currentTask = s.currentTask →
    FrameHolds (timerInterrupt c s).2 (irqEntry c s).1
      (c.userState (s.processTable s.currentTask).pageDirectory)
  later_interrupt : ∀ s c t c', s.multitaskingEnabled = true → s.Executing → c.cs = 0x1B →
    (timerInterrupt c s).2.currentTask ≠ s.currentTask →
    RunsWithout s.currentTask (timerInterrupt c s).2 t → t.multitaskingEnabled = true →
    (timerInterrupt c' t).2.currentTask = s.currentTask →
    FrameHolds (timerInterrupt c' t).2 (irqEntry c' t).1
        (c.userState (s.processTable s.currentTask).pageDirectory) ∧
      ((timerInterrupt c' t).2.processTable s.currentTask).pageDirectory =
        (s.processTable s.currentTask).pageDirectory
  new_task : ∀ s argv s', s.currentTask = 1 → s.Executing → runCommand argv s = .ok true s' →
    ∃ pid filename kernelStack pageDirectory entry userStackPtr wakeupTime,
      findFreeSlot s.processTable = some pid ∧
      s'.processTable pid =
        newTask pid filename kernelStack pageDirectory entry userStackPtr wakeupTime ∧
      ∀ t c', RunsWithout pid s' t → t.multitaskingEnabled = true →
        (timerInterrupt c' t).2.currentTask = pid →
        FrameHolds (timerInterrupt c' t).2 (irqEntry c' t).1
          { eip := entry, esp := userStackPtr, cs := 0x1B, ss := 0x23, eflags := 0x202,
            cr3 := pageDirectory }

theorem runCommand_parks {argv : List (List UInt8)} (hexec : s.Executing)
    (hrun : runCommand argv s = .ok true s') :
    ∃ pid filename kernelStack pageDirectory entry userStackPtr wakeupTime,
      findFreeSlot s.processTable = some pid ∧ s'.currentTask ≠ pid ∧
      s'.processTable pid =
        newTask pid filename kernelStack pageDirectory entry userStackPtr wakeupTime := by
  obtain ⟨hview, ⟨hfalse, -⟩ | ⟨t, filename, rest, pid, -, -, hinst, htcur, hwaits⟩⟩ :=
    runCommand_table hrun
  · cases hfalse
  · cases hinst with
    | @started _ kernelStack directory entry userStackPtr wakeupTime hslot hinstalled =>
        have hpid : pid ≠ s.currentTask := by
          intro hpid
          rw [hpid] at hslot
          have hunused := (findFreeSlot_eq_some hslot).2
          exact Task.Active.used hexec hunused
        refine ⟨pid, filename, kernelStack, directory, entry, userStackPtr, wakeupTime, hslot, ?_,
          ?_⟩
        · rw [hview]
          exact Ne.symm hpid
        · rw [hwaits, htcur, Function.update_of_ne hpid, hinstalled, Function.update_self]

/-- Context switches are transparent to user tasks. -/
theorem user_switch_spec : UserSwitchSpec := by
  refine ⟨?_, ?_, ?_⟩
  · intro s c hm hexec hcs hsel
    have hframe := timer_frame c s hm
    rw [hsel, timer_saves c hm hexec.alive, savedState_user hcs] at hframe
    exact hframe
  · intro s c t c' hm hexec hcs hother hrun hmt hsel
    obtain ⟨hparked, hne⟩ :=
      (parked_of_interrupt c hm (Task.Active.used hexec) hexec.alive).runsWithout hother hrun
    rw [savedState_user hcs] at hparked
    exact ⟨hparked.frame hne c' hmt hsel, (hparked.timer (Ne.symm hne) c').directory_eq⟩
  · intro s argv s' _ hexec hrun
    obtain ⟨pid, filename, kernelStack, directory, entry, userStackPtr, wakeupTime, hslot, hne,
      htask⟩ := runCommand_parks hexec hrun
    refine ⟨pid, filename, kernelStack, directory, entry, userStackPtr, wakeupTime, hslot, htask,
      ?_⟩
    intro t c' hrun' hmt hsel
    have hparked : Parked pid (s'.processTable pid).cpuState (s'.processTable pid).pageDirectory
        s' := ⟨rfl, rfl, by simp [htask, newTask], by simp [htask, newTask]⟩
    obtain ⟨hparked', hne'⟩ := hparked.runsWithout hne hrun'
    have hframe := hparked'.frame hne' c' hmt hsel
    rw [htask] at hframe
    exact hframe

/-- A user task is current and only the idle task runs beside it. -/
def userTaskRunning : Machine :=
  { kmainEntry (fun _ => 0) (fun _ _ => 0) (fun _ => 0) with
    processTable := fun i =>
      { pid := i, state := if i = 0 ∨ i = 2 then .running else .unused, pageDirectory := 0x30000 }
    currentTask := 2
    multitaskingEnabled := true
    esp0 := 0x41000 }

def userContext : Context :=
  { kernelContext 0xBFFFFF00 with eax := 7, eip := 0x400010, cs := 0x1B, ss := 0x23 }

theorem user_switch_spec_idle :
    FrameHolds
      (timerInterrupt (kernelContext 0x21000) (timerInterrupt userContext userTaskRunning).2).2
      (irqEntry (kernelContext 0x21000) (timerInterrupt userContext userTaskRunning).2).1
      (userContext.userState 0x30000) :=
  (user_switch_spec.later_interrupt userTaskRunning userContext _ (kernelContext 0x21000) rfl
    (.inl rfl) rfl (by decide) .refl rfl (by decide)).1

end MyOS
