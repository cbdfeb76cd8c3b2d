import MyOS.Verification.Process.Views
import MyOS.Verification.Scheduler.RoundRobin

/-! The running system as a step relation: timer interrupts at any moment, and what the
current task may do between them. For each kind of step, what it does to the process table. -/

namespace MyOS

open Effect

/-- The current task runs code of its own: it neither waits for a child nor has exited. A
sleeping task does when another interrupt ended its halt. -/
def Machine.Executing (s : Machine) : Prop :=
  (s.processTable s.currentTask).state = .running ∨
    (s.processTable s.currentTask).state = .sleeping

/-- `work` is everything else that code does: it changes neither the process table nor the
current task. -/
inductive KernelStep : Machine → Machine → Prop where
  | timer (c : Context) (s : Machine) : KernelStep s (timerInterrupt c s).2
  | run {s s' : Machine} (argv : List (List UInt8)) (yields : Bool) : s.currentTask = 1 →
      s.Executing → runCommand argv s = .ok yields s' → KernelStep s s'
  | kill {s s' : Machine} (arg : List UInt8) : s.currentTask = 1 → s.Executing →
      killCommand arg s = .ok () s' → KernelStep s s'
  | exit {s : Machine} : 2 ≤ s.currentTask → s.Executing → KernelStep s (sysExit s)
  | sleep {s : Machine} (milliseconds : ℕ) : 1 ≤ s.currentTask → s.Executing →
      KernelStep s (sleep milliseconds s)
  | work {s s' : Machine} : s'.processTable = s.processTable → s'.currentTask = s.currentTask →
      KernelStep s s'

theorem processBlind_currentTask :
    ProcessBlind fun s t : Machine => t.currentTask = s.currentTask where
  toChain := chain_eq Machine.currentTask
  mem := fun _ _ => rfl
  pmm := fun _ _ => rfl
  trace := fun _ _ => rfl
  heapTop := fun _ _ => rfl
  heapEnd := fun _ _ => rfl
  freeListHead := fun _ _ => rfl
  cr3 := fun _ _ => rfl
  dmaBuffer := fun _ _ => rfl
  processTable := fun _ _ => rfl

/-! ## Timer interrupts -/

/-- The machine `task_switch` is called on. -/
def ticked (c : Context) (s : Machine) : Machine :=
  let tick := (s.tick + 1) % 2 ^ 32
  { (irqEntry c s).2 with tick, processTable := wakeTasks tick s.processTable }

theorem timerInterrupt_eq (c : Context) (s : Machine) :
    (timerInterrupt c s).2 =
      if s.multitaskingEnabled then taskSwitch (irqEntry c s).1 (ticked c s) else ticked c s := rfl

theorem wakeTasks_state (tick : ℕ) (table : ℕ → Task) (i : ℕ) :
    (wakeTasks tick table i).state = (table i).state ∨
      (table i).state = .sleeping ∧ (wakeTasks tick table i).state = .running := by
  unfold wakeTasks
  by_cases h : i < maxProcesses ∧ (table i).state = .sleeping ∧ (table i).wakeupTime ≤ tick
  · rw [if_pos h]
    exact .inr ⟨h.2.1, rfl⟩
  · rw [if_neg h]
    exact .inl rfl

theorem wakeTasks_eq (tick : ℕ) (table : ℕ → Task) (i : ℕ) :
    wakeTasks tick table i = { table i with state := (wakeTasks tick table i).state } := by
  unfold wakeTasks
  by_cases h : i < maxProcesses ∧ (table i).state = .sleeping ∧ (table i).wakeupTime ≤ tick
  · rw [if_pos h]
  · rw [if_neg h]

theorem saveCurrent_slot (r : ℕ) (s : Machine) (i : ℕ) :
    ∃ cpu, (saveCurrent r s).processTable i = { s.processTable i with cpuState := cpu } ∧
      (i ≠ s.currentTask → cpu = (s.processTable i).cpuState) := by
  unfold saveCurrent
  by_cases hz : (s.processTable s.currentTask).state ≠ .zombie
  · rw [if_pos hz]
    by_cases hi : i = s.currentTask
    · exact ⟨savedState s.stack r (s.processTable i).pageDirectory, by simp [hi],
        fun h => absurd hi h⟩
    · exact ⟨(s.processTable i).cpuState, by simp [hi], fun _ => rfl⟩
  · rw [if_neg hz]
    exact ⟨(s.processTable i).cpuState, rfl, fun _ => rfl⟩

/-- A timer interrupt may wake the task in a slot and may store its registers; it stores
those of the current task only. -/
theorem timer_slot (c : Context) (s : Machine) (i : ℕ) :
    ∃ state cpu, (timerInterrupt c s).2.processTable i =
        { s.processTable i with state := state, cpuState := cpu } ∧
      (state = (s.processTable i).state ∨
        (s.processTable i).state = .sleeping ∧ state = .running) ∧
      (i ≠ s.currentTask → cpu = (s.processTable i).cpuState) := by
  have hwake := wakeTasks_eq ((s.tick + 1) % 2 ^ 32) s.processTable i
  have hstate := wakeTasks_state ((s.tick + 1) % 2 ^ 32) s.processTable i
  rw [timerInterrupt_eq]
  by_cases hm : s.multitaskingEnabled
  · rw [if_pos hm]
    obtain ⟨cpu, hsave, hcpu⟩ := saveCurrent_slot (irqEntry c s).1 (ticked c s) i
    refine ⟨_, cpu, ?_, hstate, ?_⟩
    · change (saveCurrent (irqEntry c s).1 (ticked c s)).processTable i = _
      rw [hsave]
      change { wakeTasks _ s.processTable i with cpuState := cpu } = _
      rw [hwake]
    · intro hi
      rw [hcpu hi]
      change (wakeTasks _ s.processTable i).cpuState = _
      rw [hwake]
  · rw [if_neg hm]
    exact ⟨_, (s.processTable i).cpuState, hwake, hstate, fun _ => rfl⟩

/-- With multitasking on, the slot selected is the one the scan finds among the states after
the wake-ups. -/
theorem timer_currentTask (c : Context) (s : Machine) (hm : s.multitaskingEnabled = true) :
    (timerInterrupt c s).2.currentTask =
      selectTask (wakeTasks ((s.tick + 1) % 2 ^ 32) s.processTable)
        (s.processTable s.currentTask).pid := by
  rw [timerInterrupt_eq, if_pos hm]
  change (schedule (irqEntry c s).1 (ticked c s)).currentTask = _
  rw [schedule_currentTask]
  change selectTask _ (wakeTasks _ s.processTable s.currentTask).pid = _
  rw [wakeTasks_eq]
  rfl

theorem timer_currentTask_off (c : Context) (s : Machine) (hm : s.multitaskingEnabled = false) :
    (timerInterrupt c s).2.currentTask = s.currentTask := by
  rw [timerInterrupt_eq, if_neg (by simp [hm])]
  rfl

/-! ## Shell commands -/

theorem runCommand_table {argv : List (List UInt8)} {yields : Bool} {s s' : Machine}
    (h : runCommand argv s = .ok yields s') :
    s'.currentTask = s.currentTask ∧
      (yields = false ∧ s'.processTable = s.processTable ∨
        ∃ t : Machine, ∃ filename rest pid, argv = filename :: rest ∧
          (fatName filename).isSome ∧ Installs filename s t (some pid) ∧
          t.currentTask = s.currentTask ∧
          s'.processTable = Function.update t.processTable t.currentTask
            { t.processTable t.currentTask with state := .waiting }) := by
  obtain ⟨r, t, hexec, h⟩ := bind_eq_ok.mp h
  have hview := (processBlind_currentTask.execProgram argv).ok hexec
  cases r with
  | none =>
      cases h
      refine ⟨hview, .inl ⟨rfl, ?_⟩⟩
      rcases execProgram_installs hexec with ⟨htable, -⟩ | ⟨filename, rest, -, -, hinst⟩
      · exact htable
      · cases hinst with
        | failed htable => exact htable
  | some pid =>
      cases h
      refine ⟨hview, .inr ?_⟩
      rcases execProgram_installs hexec with ⟨-, hnone⟩ | ⟨filename, rest, hargv, hname, hinst⟩
      · cases hnone
      · exact ⟨t, filename, rest, pid, hargv, hname, hinst, hview, rfl⟩

/-- Only a zombie's slot is ever cleared, and never slot 0. -/
theorem killCommand_table {arg : List UInt8} {s s' : Machine}
    (h : killCommand arg s = .ok () s') :
    s'.currentTask = s.currentTask ∧
      (s'.processTable = s.processTable ∨
        ∃ pid < maxProcesses, (s.processTable pid).state = .zombie ∧
          s'.processTable = Function.update s.processTable pid {}) := by
  unfold killCommand at h
  by_cases hpid : 0 < atoi arg ∧ atoi arg < maxProcesses
  · simp only [if_pos hpid] at h
    rw [bind_of_ok (get_apply s)] at h
    by_cases hz : (s.processTable (atoi arg).toNat).state = .zombie
    · rw [if_pos hz] at h
      unfold reap at h
      rw [bind_of_ok (get_apply s)] at h
      obtain ⟨_, t, hdir, h⟩ := bind_eq_ok.mp h
      obtain ⟨_, u, hstack, h⟩ := bind_eq_ok.mp h
      cases h
      have hview := processBlind_currentTask
      have htable := loaderBlind_processTable
      refine ⟨?_, .inr ⟨(atoi arg).toNat, by omega, hz, ?_⟩⟩
      · exact ((hview.freeFrame _).ok hstack).trans ((hview.pagingFreeDirectory _).ok hdir)
      · exact congrArg (fun table => Function.update table _ _)
          (((htable.freeFrame _).ok hstack).trans ((htable.pagingFreeDirectory _).ok hdir))
    · rw [if_neg hz] at h
      cases h
      exact ⟨rfl, .inl rfl⟩
  · simp only [if_neg hpid] at h
    cases h
    exact ⟨rfl, .inl rfl⟩

/-! ## The new process -/

theorem findFreeSlot_eq_some {table : ℕ → Task} {pid : ℕ} (h : findFreeSlot table = some pid) :
    pid < maxProcesses ∧ (table pid).state = .unused := by
  unfold findFreeSlot at h
  have hmem := List.mem_of_find?_eq_some h
  have hp := List.find?_some h
  exact ⟨List.mem_range.mp hmem, of_decide_eq_true hp⟩

/-- A name `fs_find_file` accepts has at most twelve characters. -/
theorem length_le_of_fatName {filename : List UInt8} (h : (fatName filename).isSome) :
    filename.length ≤ 12 := by
  have hbase : ((filename.takeWhile (· ≠ 46)).take 8).length ≤ 8 := List.length_take_le 8 _
  unfold fatName at h
  generalize (filename.takeWhile (· ≠ 46)).take 8 = base at h hbase
  dsimp only at h
  by_contra hlong
  have hrest : ∀ rest : List UInt8, 4 ≤ rest.length → ¬rest.drop 3 = [] := by
    intro rest hlen hdrop
    have hzero := congrArg List.length hdrop
    rw [List.length_drop, List.length_nil] at hzero
    omega
  rw [if_neg] at h
  · exact absurd h (by simp)
  · apply hrest
    by_cases hdot : (filename.drop base.length).head? = some 46
    · rw [if_pos hdot, List.length_tail, List.length_drop]
      omega
    · rw [if_neg hdot, List.length_drop]
      omega

/-- The name of a process is NUL-terminated when its file name is shorter than the field. -/
theorem zero_mem_strncpy {src : List UInt8} {n : ℕ} (h : src.length < n) :
    (0 : UInt8) ∈ strncpy src n := by
  unfold strncpy
  refine List.mem_append_right _ ?_
  exact List.mem_replicate.mpr ⟨by omega, rfl⟩

end MyOS
