import MyOS.Model.Boot
import MyOS.Verification.Process.System

/-! The state machine of the process table: the invariant of every run from `process_init`
and what it says about scheduling and reaping. -/

namespace MyOS

open Effect

/-- A process that still takes part in scheduling. -/
def Task.Active (t : Task) : Prop := t.state = .running ∨ t.state = .sleeping

/-- A used slot has its index as pid and a NUL-terminated name. -/
def Task.Labelled (i : ℕ) (t : Task) : Prop :=
  t.state ≠ .unused → t.pid = i ∧ (0 : UInt8) ∈ t.name

/-- What holds of the process table between steps. -/
structure TableInvariant (s : Machine) : Prop where
  idle_running : (s.processTable 0).state = .running
  shell_state : (s.processTable 1).Active ∨ (s.processTable 1).state = .waiting
  labelled : ∀ i < maxProcesses, (s.processTable i).Labelled i
  current_lt : s.currentTask < maxProcesses
  current_used : (s.processTable s.currentTask).state ≠ .unused
  active_shell : ∀ i < maxProcesses, 2 ≤ i → (s.processTable i).Active →
    (s.processTable 1).state = .waiting
  active_unique : ∀ i < maxProcesses, ∀ j < maxProcesses, 2 ≤ i → 2 ≤ j →
    (s.processTable i).Active → (s.processTable j).Active → i = j

/-! ## Selection -/

/-- The scan finds a runnable slot since the idle task is one. -/
theorem TableInvariant.nextRunnable_some {s : Machine} (h : TableInvariant s) (pid : ℕ) :
    ∃ k, nextRunnable s.processTable pid = some k :=
  nextRunnable_isSome pid (by decide) h.idle_running

theorem idle_running_wakeTasks {s : Machine} (h : TableInvariant s) (tick : ℕ) :
    (wakeTasks tick s.processTable 0).state = .running := by
  rcases wakeTasks_state tick s.processTable 0 with hsame | ⟨-, hwoken⟩
  · rw [hsame]
    exact h.idle_running
  · exact hwoken

/-- A timer interrupt with multitasking on selects a runnable slot of the table, and needs no
fallback for that. -/
theorem TableInvariant.timer_selects {s : Machine} (h : TableInvariant s) (c : Context)
    (hm : s.multitaskingEnabled = true) :
    nextRunnable (wakeTasks ((s.tick + 1) % 2 ^ 32) s.processTable)
        (s.processTable s.currentTask).pid = some (timerInterrupt c s).2.currentTask ∧
      (timerInterrupt c s).2.currentTask < maxProcesses ∧
      ((timerInterrupt c s).2.processTable (timerInterrupt c s).2.currentTask).state =
        .running := by
  have hidle := idle_running_wakeTasks h ((s.tick + 1) % 2 ^ 32)
  rw [timer_currentTask c s hm, selectTask]
  cases hnext : nextRunnable (wakeTasks ((s.tick + 1) % 2 ^ 32) s.processTable)
      (s.processTable s.currentTask).pid with
  | none => exact absurd hidle (nextRunnable_eq_none.mp hnext 0 (by decide))
  | some k =>
      obtain ⟨hk, hrun⟩ := nextRunnable_eq_some hnext
      rw [Option.getD_some]
      refine ⟨rfl, hk, ?_⟩
      rw [timerInterrupt_eq, if_pos hm]
      change ((saveCurrent (irqEntry c s).1 (ticked c s)).processTable k).state = _
      rw [saveCurrent_state]
      exact hrun

/-! ## Steps -/

theorem Task.Active.of_state {t t' : Task} (h : t'.Active)
    (hstate : t'.state = t.state ∨ t.state = .sleeping ∧ t'.state = .running) : t.Active := by
  rcases hstate with hsame | ⟨hsleep, -⟩
  · rcases h with hrun | hsleep
    · exact .inl (hsame ▸ hrun)
    · exact .inr (hsame ▸ hsleep)
  · exact .inr hsleep

theorem timer_state {s : Machine} (c : Context) (i : ℕ) :
    ((timerInterrupt c s).2.processTable i).state = (s.processTable i).state ∨
      (s.processTable i).state = .sleeping ∧
        ((timerInterrupt c s).2.processTable i).state = .running := by
  obtain ⟨state, cpu, hslot, hstate, -⟩ := timer_slot c s i
  rw [hslot]
  exact hstate

theorem timer_used {s : Machine} (c : Context) (i : ℕ) :
    ((timerInterrupt c s).2.processTable i).state ≠ .unused ↔
      (s.processTable i).state ≠ .unused := by
  rcases timer_state (s := s) c i with hsame | ⟨hsleep, hrun⟩
  · rw [hsame]
  · rw [hsleep, hrun]
    decide

theorem TableInvariant.timer {s : Machine} (h : TableInvariant s) (c : Context) :
    TableInvariant (timerInterrupt c s).2 := by
  have hstate := timer_state (s := s) c
  have hcurrent : (timerInterrupt c s).2.currentTask < maxProcesses ∧
      ((timerInterrupt c s).2.processTable (timerInterrupt c s).2.currentTask).state ≠
        .unused := by
    cases hm : s.multitaskingEnabled with
    | true =>
        obtain ⟨-, hlt, hrun⟩ := h.timer_selects c hm
        exact ⟨hlt, by rw [hrun]; decide⟩
    | false =>
        rw [timer_currentTask_off c s hm]
        exact ⟨h.current_lt, (timer_used c _).mpr h.current_used⟩
  refine ⟨?_, ?_, ?_, hcurrent.1, hcurrent.2, ?_, ?_⟩
  · rcases hstate 0 with hsame | ⟨-, hrun⟩
    · exact hsame.trans h.idle_running
    · exact hrun
  · rcases hstate 1 with hsame | ⟨-, hrun⟩
    · unfold Task.Active
      rw [hsame]
      exact h.shell_state
    · exact .inl (.inl hrun)
  · intro i hi hused
    obtain ⟨state, cpu, hslot, -⟩ := timer_slot c s i
    rw [hslot]
    exact h.labelled i hi ((timer_used c i).mp hused)
  · intro i hi h2 hact
    have hwait := h.active_shell i hi h2 (hact.of_state (hstate i))
    rcases hstate 1 with hsame | ⟨hsleep, -⟩
    · exact hsame.trans hwait
    · rw [hsleep] at hwait
      cases hwait
  · intro i hi j hj h2i h2j hacti hactj
    exact h.active_unique i hi j hj h2i h2j (hacti.of_state (hstate i))
      (hactj.of_state (hstate j))

theorem Task.Active.not_waiting {t : Task} (h : t.Active) : t.state ≠ .waiting := by
  rcases h with hrun | hsleep
  · rw [hrun]
    decide
  · rw [hsleep]
    decide

theorem Task.Active.used {t : Task} (h : t.Active) : t.state ≠ .unused := by
  rcases h with hrun | hsleep
  · rw [hrun]
    decide
  · rw [hsleep]
    decide

theorem labelled_update {table : ℕ → Task} {k : ℕ} {t : Task}
    (h : ∀ i < maxProcesses, (table i).Labelled i) (ht : t.Labelled k) :
    ∀ i < maxProcesses, (Function.update table k t i).Labelled i := by
  intro i hi
  by_cases hik : i = k
  · rw [hik, Function.update_self]
    exact ht
  · rw [Function.update_of_ne hik]
    exact h i hi

/-- No process but the shell and the idle task takes part while the shell itself does. -/
theorem TableInvariant.not_active {s : Machine} (h : TableInvariant s)
    (hshell : (s.processTable 1).Active) {i : ℕ} (hi : i < maxProcesses) (h2 : 2 ≤ i) :
    ¬(s.processTable i).Active :=
  fun hact => hshell.not_waiting (h.active_shell i hi h2 hact)

theorem TableInvariant.sleep {s : Machine} (h : TableInvariant s) (milliseconds : ℕ)
    (hcur : 1 ≤ s.currentTask) (hexec : (s.processTable s.currentTask).Active) :
    TableInvariant (sleep milliseconds s) := by
  have hback : ∀ i, ((MyOS.sleep milliseconds s).processTable i).Active →
      (s.processTable i).Active := by
    intro i hi
    by_cases hic : i = s.currentTask
    · rw [hic]
      exact hexec
    · simpa [MyOS.sleep, hic] using hi
  refine ⟨?_, ?_, ?_, h.current_lt, ?_, ?_, ?_⟩
  · have h0 : 0 ≠ s.currentTask := by omega
    simpa [MyOS.sleep, h0] using h.idle_running
  · by_cases h1 : 1 = s.currentTask
    · exact .inl (.inr (by simp [MyOS.sleep, ← h1]))
    · simpa [MyOS.sleep, h1] using h.shell_state
  · exact labelled_update h.labelled fun _ => h.labelled _ h.current_lt h.current_used
  · simp [MyOS.sleep]
  · intro i hi h2 hact
    have hwait := h.active_shell i hi h2 (hback i hact)
    have h1 : 1 ≠ s.currentTask := by
      intro h1
      rw [← h1] at hexec
      exact hexec.not_waiting hwait
    simpa [MyOS.sleep, h1] using hwait
  · intro i hi j hj h2i h2j hacti hactj
    exact h.active_unique i hi j hj h2i h2j (hback i hacti) (hback j hactj)

theorem TableInvariant.exit {s : Machine} (h : TableInvariant s) (hcur : 2 ≤ s.currentTask)
    (hexec : (s.processTable s.currentTask).Active) : TableInvariant (sysExit s) := by
  have hwait := h.active_shell _ h.current_lt hcur hexec
  have h0 : 0 ≠ s.currentTask := by omega
  have h1 : 1 ≠ s.currentTask := by omega
  have htable : (sysExit s).processTable =
      Function.update (Function.update s.processTable 1 { s.processTable 1 with state := .running })
        s.currentTask { s.processTable s.currentTask with state := .zombie } := by
    simp [sysExit, hwait, Ne.symm h1]
  have hnone : ∀ i < maxProcesses, 2 ≤ i → ¬((sysExit s).processTable i).Active := by
    intro i hi h2 hact
    by_cases hic : i = s.currentTask
    · rw [htable, hic, Function.update_self] at hact
      rcases hact with hz | hz
      · cases hz
      · cases hz
    · rw [htable, Function.update_of_ne hic, Function.update_of_ne (by omega)] at hact
      exact hic (h.active_unique i hi _ h.current_lt h2 hcur hact hexec)
  refine ⟨?_, ?_, ?_, h.current_lt, ?_, ?_, ?_⟩
  · simpa [htable, h0] using h.idle_running
  · exact .inl (.inl (by simp [htable, h1]))
  · rw [htable]
    refine labelled_update (labelled_update h.labelled fun _ => ?_) fun _ => ?_
    · exact h.labelled 1 (by decide) (by rw [hwait]; decide)
    · exact h.labelled _ h.current_lt h.current_used
  · change ((sysExit s).processTable s.currentTask).state ≠ _
    simp [htable]
  · intro i hi h2 hact
    exact absurd hact (hnone i hi h2)
  · intro i hi j hj h2i h2j hacti hactj
    exact absurd hacti (hnone i hi h2i)

theorem TableInvariant.kill {s s' : Machine} {arg : List UInt8} (h : TableInvariant s)
    (hexec : (s.processTable s.currentTask).Active) (hkill : killCommand arg s = .ok () s') :
    TableInvariant s' := by
  obtain ⟨hcur, htable⟩ := killCommand_table hkill
  rcases htable with hsame | ⟨pid, hpid, hzombie, hreap⟩
  · exact ⟨by rw [hsame]; exact h.idle_running, by rw [hsame]; exact h.shell_state,
      by rw [hsame]; exact h.labelled, by rw [hcur]; exact h.current_lt,
      by rw [hsame, hcur]; exact h.current_used, by rw [hsame]; exact h.active_shell,
      by rw [hsame]; exact h.active_unique⟩
  · have hne : ∀ i, (s.processTable i).Active ∨ (s.processTable i).state = .waiting →
        i ≠ pid := by
      intro i hi hip
      rw [hip, Task.Active, hzombie] at hi
      simp at hi
    have hback : ∀ i, (s'.processTable i).Active → (s.processTable i).Active := by
      intro i hi
      rw [hreap] at hi
      by_cases hip : i = pid
      · rw [hip, Function.update_self] at hi
        rcases hi with hz | hz
        · cases hz
        · cases hz
      · rwa [Function.update_of_ne hip] at hi
    refine ⟨?_, ?_, ?_, ?_, ?_, ?_, ?_⟩
    · rw [hreap, Function.update_of_ne (hne 0 (.inl (.inl h.idle_running)))]
      exact h.idle_running
    · rw [hreap, Function.update_of_ne (hne 1 h.shell_state)]
      exact h.shell_state
    · rw [hreap]
      exact labelled_update h.labelled fun hused => absurd rfl hused
    · rw [hcur]
      exact h.current_lt
    · rw [hcur, hreap, Function.update_of_ne (hne _ (.inl hexec))]
      exact h.current_used
    · intro i hi h2 hact
      rw [hreap, Function.update_of_ne (hne 1 h.shell_state)]
      exact h.active_shell i hi h2 (hback i hact)
    · intro i hi j hj h2i h2j hacti hactj
      exact h.active_unique i hi j hj h2i h2j (hback i hacti) (hback j hactj)

theorem TableInvariant.run {s s' : Machine} {argv : List (List UInt8)} {yields : Bool}
    (h : TableInvariant s) (hcur : s.currentTask = 1)
    (hexec : (s.processTable s.currentTask).Active)
    (hrun : runCommand argv s = .ok yields s') : TableInvariant s' := by
  obtain ⟨hview, htable⟩ := runCommand_table hrun
  have hcur' : s'.currentTask = 1 := hview.trans hcur
  rw [hcur] at hexec
  rcases htable with ⟨-, hsame⟩ | ⟨t, filename, rest, pid, -, hname, hinst, htcur, hwaits⟩
  · have hused := hexec.used
    exact ⟨by rw [hsame]; exact h.idle_running, by rw [hsame]; exact h.shell_state,
      by rw [hsame]; exact h.labelled, by rw [hcur']; decide, by rw [hsame, hcur']; exact hused,
      by rw [hsame]; exact h.active_shell, by rw [hsame]; exact h.active_unique⟩
  · cases hinst with
    | started hslot hinstalled =>
        obtain ⟨hpid, hunused⟩ := findFreeSlot_eq_some hslot
        have h0 : 0 ≠ pid := by
          intro h0
          rw [← h0, h.idle_running] at hunused
          cases hunused
        have h1 : 1 ≠ pid := by
          intro h1
          rw [← h1] at hunused
          exact hexec.used hunused
        rw [htcur, hcur, hinstalled, Function.update_of_ne h1] at hwaits
        have hother : ∀ i, i ≠ 1 → i ≠ pid → s'.processTable i = s.processTable i := by
          intro i hi1 hip
          rw [hwaits, Function.update_of_ne hi1, Function.update_of_ne hip]
        have hwait : (s'.processTable 1).state = .waiting := by
          rw [hwaits, Function.update_self]
        have honly : ∀ i < maxProcesses, 2 ≤ i → (s'.processTable i).Active → i = pid := by
          intro i hi h2 hact
          by_contra hip
          rw [hother i (by omega) hip] at hact
          exact h.not_active hexec hi h2 hact
        refine ⟨?_, .inr hwait, ?_, ?_, ?_, ?_, ?_⟩
        · rw [hother 0 (by decide) h0]
          exact h.idle_running
        · rw [hwaits]
          refine labelled_update (labelled_update h.labelled fun _ => ?_) fun _ => ?_
          · have hlen := length_le_of_fatName hname
            exact ⟨rfl, zero_mem_strncpy (by unfold processNameLen; omega)⟩
          · exact h.labelled 1 (by decide) hexec.used
        · rw [hcur']
          decide
        · rw [hcur', hwait]
          decide
        · intro i hi h2 hact
          exact hwait
        · intro i hi j hj h2i h2j hacti hactj
          rw [honly i hi h2i hacti, honly j hj h2j hactj]

theorem TableInvariant.step {s s' : Machine} (h : TableInvariant s) (hstep : KernelStep s s') :
    TableInvariant s' := by
  cases hstep with
  | timer c => exact h.timer c
  | run argv yields hcur hexec hrun => exact h.run hcur hexec hrun
  | kill arg _ hexec hkill => exact h.kill hexec hkill
  | exit hcur hexec => exact h.exit hcur hexec
  | sleep milliseconds hcur hexec => exact h.sleep milliseconds hcur hexec
  | work htable hcur =>
      exact ⟨by rw [htable]; exact h.idle_running, by rw [htable]; exact h.shell_state,
        by rw [htable]; exact h.labelled, by rw [hcur]; exact h.current_lt,
        by rw [htable, hcur]; exact h.current_used, by rw [htable]; exact h.active_shell,
        by rw [htable]; exact h.active_unique⟩

theorem TableInvariant.steps {s s' : Machine} (h : TableInvariant s)
    (hrun : Relation.ReflTransGen KernelStep s s') : TableInvariant s' := by
  induction hrun with
  | refl => exact h
  | tail _ hstep ih => exact ih.step hstep

/-! ## Start -/

theorem processInit_table {idleTask shellTask : ℕ} {s s' : Machine}
    (h : processInit idleTask shellTask s = .ok () s') :
    s'.currentTask = 0 ∧
      ∃ kernelDirectory stackA stackB, s'.processTable =
        Function.update
          (Function.update (fun _ => {}) 0
            (kernelTask 0 [105, 100, 108, 101] kernelDirectory idleTask stackA)) 1
          (kernelTask 1 [115, 104, 101, 108, 108] kernelDirectory shellTask stackB) := by
  have hview := loaderBlind_processTable
  unfold processInit at h
  rw [bind_of_ok (modify_apply _ s), bind_of_ok (get_apply _)] at h
  obtain ⟨stackA, s1, h1, h⟩ := bind_eq_ok.mp h
  rw [bind_of_ok (modify_apply _ s1)] at h
  obtain ⟨stackB, s2, h2, h⟩ := bind_eq_ok.mp h
  have htable1 := (hview.malloc 4096).ok h1
  have htable2 := (hview.malloc 4096).ok h2
  cases h
  refine ⟨rfl, s.kernelDirectory, stackA, stackB, ?_⟩
  dsimp only
  rw [htable2, htable1]

theorem TableInvariant.init {idleTask shellTask : ℕ} {s s' : Machine}
    (h : processInit idleTask shellTask s = .ok () s') : TableInvariant s' := by
  obtain ⟨hcur, kernelDirectory, stackA, stackB, htable⟩ := processInit_table h
  have hnone : ∀ i, 2 ≤ i → ¬(s'.processTable i).Active := by
    intro i h2 hact
    rw [htable, Function.update_of_ne (by omega), Function.update_of_ne (by omega)] at hact
    rcases hact with hz | hz
    · cases hz
    · cases hz
  refine ⟨?_, ?_, ?_, ?_, ?_, ?_, ?_⟩
  · simp [htable, kernelTask]
  · exact .inl (.inl (by simp [htable, kernelTask]))
  · rw [htable]
    refine labelled_update (labelled_update (fun i _ hused => absurd rfl hused) fun _ => ?_)
      fun _ => ?_
    · exact ⟨rfl, zero_mem_strncpy (by decide)⟩
    · exact ⟨rfl, zero_mem_strncpy (by decide)⟩
  · rw [hcur]
    decide
  · simp [htable, hcur, kernelTask]
  · intro i hi h2 hact
    exact absurd hact (hnone i h2)
  · intro i hi j hj h2i h2j hacti hactj
    exact absurd hacti (hnone i h2i)

/-! ## The process table over whole runs -/

/-- The contract of the process table in one state of a run. -/
structure ProcessTableSpec (s : Machine) : Prop where
  idle : (s.processTable 0).state = .running ∧ (s.processTable 0).pid = 0
  shell : (s.processTable 1).pid = 1 ∧ ((s.processTable 1).state = .running ∨
    (s.processTable 1).state = .sleeping ∨ (s.processTable 1).state = .waiting)
  used : ∀ i < maxProcesses, (s.processTable i).state ≠ .unused →
    (s.processTable i).pid = i ∧ (0 : UInt8) ∈ (s.processTable i).name
  current : s.currentTask < maxProcesses ∧ (s.processTable s.currentTask).state ≠ .unused
  schedule_running : ∀ r,
    nextRunnable s.processTable (s.processTable s.currentTask).pid =
        some (schedule r s).currentTask ∧
      ((schedule r s).processTable (schedule r s).currentTask).state = .running
  timer_running : ∀ c, s.multitaskingEnabled = true →
    nextRunnable (wakeTasks ((s.tick + 1) % 2 ^ 32) s.processTable)
        (s.processTable s.currentTask).pid = some (timerInterrupt c s).2.currentTask ∧
      ((timerInterrupt c s).2.processTable (timerInterrupt c s).2.currentTask).state = .running
  kill_zombie : ∀ arg s', s.currentTask = 1 → s.Executing → killCommand arg s = .ok () s' →
    ∀ i, s'.processTable i ≠ s.processTable i →
      (s.processTable i).state = .zombie ∧ i ≠ s.currentTask ∧ s'.processTable i = {}
  active_unique : ∀ i < maxProcesses, ∀ j < maxProcesses, 2 ≤ i → 2 ≤ j →
    ((s.processTable i).state = .running ∨ (s.processTable i).state = .sleeping) →
    ((s.processTable j).state = .running ∨ (s.processTable j).state = .sleeping) → i = j
  active_shell : ∀ i < maxProcesses, 2 ≤ i →
    ((s.processTable i).state = .running ∨ (s.processTable i).state = .sleeping) →
    (s.processTable 1).state = .waiting

theorem TableInvariant.schedule_running {s : Machine} (h : TableInvariant s) (r : ℕ) :
    nextRunnable s.processTable (s.processTable s.currentTask).pid =
        some (schedule r s).currentTask ∧
      ((schedule r s).processTable (schedule r s).currentTask).state = .running := by
  obtain ⟨k, hk⟩ := h.nextRunnable_some (s.processTable s.currentTask).pid
  rw [schedule_currentTask, selectTask, hk, Option.getD_some, schedule_processTable,
    saveCurrent_state]
  exact ⟨rfl, (nextRunnable_eq_some hk).2⟩

theorem TableInvariant.kill_zombie {s s' : Machine} {arg : List UInt8}
    (hexec : (s.processTable s.currentTask).Active) (hkill : killCommand arg s = .ok () s')
    {i : ℕ} (hi : s'.processTable i ≠ s.processTable i) :
    (s.processTable i).state = .zombie ∧ i ≠ s.currentTask ∧ s'.processTable i = {} := by
  obtain ⟨-, hsame | ⟨pid, -, hzombie, hreap⟩⟩ := killCommand_table hkill
  · rw [hsame] at hi
    exact absurd rfl hi
  · have hip : i = pid := by
      by_contra hip
      rw [hreap, Function.update_of_ne hip] at hi
      exact hi rfl
    rw [hip, hreap, Function.update_self]
    refine ⟨hzombie, ?_, rfl⟩
    intro hcur
    rw [← hcur, Task.Active, hzombie] at hexec
    rcases hexec with hz | hz
    · cases hz
    · cases hz

/-- Every state reached from `process_init` by timer interrupts, `run`, `kill`, `sleep` and
`exit` in any order meets the contract of the process table. -/
theorem process_table_run_spec {idleTask shellTask : ℕ} {s₀ s₁ s : Machine}
    (hinit : processInit idleTask shellTask s₀ = .ok () s₁)
    (hrun : Relation.ReflTransGen KernelStep s₁ s) : ProcessTableSpec s := by
  have h := (TableInvariant.init hinit).steps hrun
  have hidle := h.labelled 0 (by decide) (by rw [h.idle_running]; decide)
  have hshell : (s.processTable 1).state ≠ .unused := by
    rcases h.shell_state with hact | hwait
    · exact hact.used
    · rw [hwait]
      decide
  refine ⟨⟨h.idle_running, hidle.1⟩, ⟨(h.labelled 1 (by decide) hshell).1, ?_⟩, h.labelled,
    ⟨h.current_lt, h.current_used⟩, h.schedule_running, ?_, ?_, h.active_unique, h.active_shell⟩
  · rcases h.shell_state with (hr | hsl) | hw
    · exact .inl hr
    · exact .inr (.inl hsl)
    · exact .inr (.inr hw)
  · intro c hm
    obtain ⟨hnext, -, hrunning⟩ := h.timer_selects c hm
    exact ⟨hnext, hrunning⟩
  · intro arg s' _ hexec hkill i hi
    exact TableInvariant.kill_zombie hexec hkill hi

/-- A machine with room for the two kernel stacks on its heap. -/
def heapReady : Machine :=
  { kmainEntry (fun _ => 0) (fun _ _ => 0) (fun _ => 0) with
    heapTop := 0x20000, heapEnd := 0x40000 }

/-- An interrupt of a kernel task with its stack pointer at `esp`. -/
def kernelContext (esp : ℕ) : Context where
  edi := 0
  esi := 0
  ebp := 0
  ebx := 0
  edx := 0
  ecx := 0
  eax := 0
  eip := 0x1000
  cs := 0x08
  eflags := 0x202
  esp := esp
  ss := 0x10
  gs := 0x10
  fs := 0x10
  es := 0x10
  ds := 0x10

theorem process_table_run_spec_ready :
    ∃ s₁, processInit 0x1000 0x2000 heapReady = .ok () s₁ ∧
      ProcessTableSpec
        (timerInterrupt (kernelContext 0x21000) { s₁ with multitaskingEnabled := true }).2 := by
  obtain ⟨s₁, hinit⟩ : ∃ s₁, processInit 0x1000 0x2000 heapReady = .ok () s₁ := ⟨_, rfl⟩
  have henable : KernelStep s₁ { s₁ with multitaskingEnabled := true } := .work rfl rfl
  exact ⟨s₁, hinit, process_table_run_spec hinit (.tail (.single henable) (.timer _ _))⟩

end MyOS
