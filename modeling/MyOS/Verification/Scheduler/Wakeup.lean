import MyOS.Verification.Process.Lifecycle

/-! How long a sleeping task has to wait: its time passes, and then every interrupt brings the
round robin nearer to it. What the other tasks do in the meantime makes no difference. -/

namespace MyOS

open CyclicScan

variable {s s' t : Machine} {p i n : ℕ}

/-! ## Between interrupts -/

theorem timer_tick (c : Context) (s : Machine) :
    (timerInterrupt c s).2.tick = (s.tick + 1) % 2 ^ 32 := by
  have hsave : ∀ r, (saveCurrent r (ticked c s)).tick = (s.tick + 1) % 2 ^ 32 := by
    intro r
    unfold saveCurrent
    simp only
    split <;> rfl
  rw [timerInterrupt_eq]
  split
  · exact hsave _
  · rfl

theorem timer_multitaskingEnabled (c : Context) (s : Machine) :
    (timerInterrupt c s).2.multitaskingEnabled = s.multitaskingEnabled := by
  have hsave : ∀ r, (saveCurrent r (ticked c s)).multitaskingEnabled = s.multitaskingEnabled := by
    intro r
    unfold saveCurrent
    simp only
    split <;> rfl
  rw [timerInterrupt_eq]
  split
  · exact hsave _
  · rfl

theorem timer_wakes (c : Context) (s : Machine) (i : ℕ) :
    ((timerInterrupt c s).2.processTable i).state =
      (wakeTasks ((s.tick + 1) % 2 ^ 32) s.processTable i).state := by
  rw [timerInterrupt_eq]
  split
  · exact saveCurrent_state (irqEntry c s).1 (ticked c s) i
  · rfl

/-- What the current task does changes no other task that takes part in scheduling. -/
theorem KernelStep.keeps_slot (h : KernelStep s s') (htick : s'.tick = s.tick)
    (hi : i ≠ s.currentTask) (hactive : (s.processTable i).Active) :
    s'.processTable i = s.processTable i ∧ s'.currentTask = s.currentTask := by
  cases h with
  | timer c =>
      rw [timer_tick] at htick
      omega
  | run argv yields _ _ hrun =>
      obtain ⟨hcur, ⟨-, hsame⟩ | ⟨u, filename, rest, pid, -, -, hinst, hucur, hwaits⟩⟩ :=
        runCommand_table hrun
      · exact ⟨by rw [hsame], hcur⟩
      · cases hinst with
        | started hslot hinstalled =>
            have hip : i ≠ pid := by
              intro hip
              rw [hip] at hactive
              exact hactive.used (findFreeSlot_eq_some hslot).2
            refine ⟨?_, hcur⟩
            rw [hwaits, hucur, Function.update_of_ne hi, hinstalled, Function.update_of_ne hip]
  | kill arg _ _ hkill =>
      obtain ⟨hcur, hsame | ⟨pid, -, hzombie, hreap⟩⟩ := killCommand_table hkill
      · exact ⟨by rw [hsame], hcur⟩
      · have hip : i ≠ pid := by
          intro hip
          rw [hip] at hactive
          rcases hactive with hstate | hstate <;> rw [hzombie] at hstate <;> cases hstate
        exact ⟨by rw [hreap, Function.update_of_ne hip], hcur⟩
  | exit _ _ =>
      refine ⟨?_, rfl⟩
      have hwaiting : i = 1 → (s.processTable 1).state ≠ .waiting := by
        intro h1
        rw [h1] at hactive
        exact hactive.not_waiting
      unfold sysExit
      simp only
      rw [Function.update_of_ne hi]
      split
      · rename_i hwait
        exact Function.update_of_ne (fun h1 => hwaiting h1 hwait) _ _
      · rfl
  | sleep milliseconds _ _ => exact ⟨Function.update_of_ne hi _ _, rfl⟩
  | work htable hcur => exact ⟨by rw [htable], hcur⟩

/-! ## Runs without a task -/

/-- A run with `n` timer interrupts, none of which selects task `p`. Between them no other code
counts ticks or turns multitasking off. -/
inductive WithoutTask (p : ℕ) : ℕ → Machine → Machine → Prop
  | start (s : Machine) : WithoutTask p 0 s s
  | interrupt {n : ℕ} {s t : Machine} (c : Context) : WithoutTask p n s t →
      (timerInterrupt c t).2.currentTask ≠ p → WithoutTask p (n + 1) s (timerInterrupt c t).2
  | between {n : ℕ} {s t u : Machine} : WithoutTask p n s t → KernelStep t u → u.tick = t.tick →
      u.multitaskingEnabled = t.multitaskingEnabled → WithoutTask p n s u

/-- Where a sleeping task stands after `n` interrupts, `due` of which it has to sleep through:
either it sleeps on, or it is runnable and the round robin comes nearer. -/
structure Waits (p start due wakeupTime n : ℕ) (t : Machine) : Prop where
  table : TableInvariant t
  multitasking : t.multitaskingEnabled = true
  other : t.currentTask ≠ p
  phase : n < due ∧ t.tick = start + n ∧ (t.processTable p).state = .sleeping ∧
      (t.processTable p).wakeupTime = wakeupTime ∨
    due ≤ n ∧ (t.processTable p).state = .running ∧
      n + 1 + distance maxProcesses t.currentTask p < due + maxProcesses

theorem Waits.between {start due wakeupTime : ℕ} (h : Waits p start due wakeupTime n t)
    (hstep : KernelStep t s') (htick : s'.tick = t.tick)
    (hm : s'.multitaskingEnabled = t.multitaskingEnabled) :
    Waits p start due wakeupTime n s' := by
  have hactive : (t.processTable p).Active := by
    rcases h.phase with ⟨-, -, hsleep, -⟩ | ⟨-, hrun, -⟩
    · exact .inr hsleep
    · exact .inl hrun
  obtain ⟨hslot, hcur⟩ := hstep.keeps_slot htick (Ne.symm h.other) hactive
  refine ⟨h.table.step hstep, hm.trans h.multitasking, ?_, ?_⟩
  · rw [hcur]
    exact h.other
  · rw [hslot, hcur, htick]
    exact h.phase

/-- An interrupt that finds the task runnable, or wakes it, and selects another one. -/
theorem Waits.nearer {start due wakeupTime : ℕ} (h : Waits p start due wakeupTime n t)
    (hp : p < maxProcesses) (c : Context) (hother : (timerInterrupt c t).2.currentTask ≠ p)
    (hrun : (wakeTasks ((t.tick + 1) % 2 ^ 32) t.processTable p).state = .running) :
    ((timerInterrupt c t).2.processTable p).state = .running ∧
      distance maxProcesses (timerInterrupt c t).2.currentTask p <
        distance maxProcesses t.currentTask p := by
  refine ⟨(timer_wakes c t p).trans hrun, ?_⟩
  have hcur := h.table.current_lt
  have hpid : (t.processTable t.currentTask).pid = t.currentTask :=
    (h.table.labelled _ hcur h.table.current_used).1
  obtain ⟨hselect, -, -⟩ := h.table.timer_selects c h.multitasking
  rw [nextRunnable_eq_scan, hpid] at hselect
  exact distance_decreases hcur hselect hp hrun hother

theorem Waits.interrupt {start due wakeupTime : ℕ} (h : Waits p start due wakeupTime n t)
    (hp : p < maxProcesses) (hdue : start + due = wakeupTime) (hlt : wakeupTime < 2 ^ 32)
    (c : Context) (hother : (timerInterrupt c t).2.currentTask ≠ p) :
    Waits p start due wakeupTime (n + 1) (timerInterrupt c t).2 := by
  have hmulti := (timer_multitaskingEnabled c t).trans h.multitasking
  have hwake : ((timerInterrupt c t).2.processTable p).wakeupTime =
      (t.processTable p).wakeupTime := by
    obtain ⟨state, cpu, hslot, -⟩ := timer_slot c t p
    rw [hslot]
  refine ⟨h.table.timer c, hmulti, hother, ?_⟩
  rcases h.phase with ⟨hn, htick, hsleep, htime⟩ | ⟨hn, hrun, hnear⟩
  · have htick' : (t.tick + 1) % 2 ^ 32 = start + (n + 1) := by
      rw [htick]
      omega
    by_cases hlast : n + 1 < due
    · refine .inl ⟨hlast, (timer_tick c t).trans htick', ?_, hwake.trans htime⟩
      rw [timer_wakes, htick']
      unfold wakeTasks
      rw [if_neg (fun hall => by have := hall.2.2; omega)]
      exact hsleep
    · have hawake : (wakeTasks ((t.tick + 1) % 2 ^ 32) t.processTable p).state = .running := by
        unfold wakeTasks
        rw [if_pos ⟨hp, hsleep, by rw [htick', htime]; omega⟩]
      obtain ⟨hrun, hnear⟩ := h.nearer hp c hother hawake
      have hfar := distance_lt h.table.current_lt hp
      exact .inr ⟨by omega, hrun, by omega⟩
  · have hawake : (wakeTasks ((t.tick + 1) % 2 ^ 32) t.processTable p).state = .running := by
      rcases wakeTasks_state ((t.tick + 1) % 2 ^ 32) t.processTable p with hsame | ⟨-, hwoken⟩
      · exact hsame.trans hrun
      · exact hwoken
    obtain ⟨hrun', hnear'⟩ := h.nearer hp c hother hawake
    exact .inr ⟨by omega, hrun', by omega⟩

theorem Waits.run {start due wakeupTime : ℕ} (h : Waits p start due wakeupTime 0 s)
    (hp : p < maxProcesses) (hdue : start + due = wakeupTime) (hlt : wakeupTime < 2 ^ 32)
    (hrun : WithoutTask p n s t) : Waits p start due wakeupTime n t := by
  induction hrun with
  | start => exact h
  | interrupt c _ hother ih => exact (ih h).interrupt hp hdue hlt c hother
  | between _ hstep htick hm ih => exact (ih h).between hstep htick hm

/-- A task that sleeps is selected in time: at the latest by the `MAX_PROCESSES`-th interrupt
after its time has come, whatever the other tasks do and start in the meantime. -/
theorem sleeper_selected_in_time {idleTask shellTask : ℕ} {s₀ s₁ s t : Machine} {p n : ℕ}
    (hinit : processInit idleTask shellTask s₀ = .ok () s₁)
    (hreach : Relation.ReflTransGen KernelStep s₁ s) (hm : s.multitaskingEnabled = true)
    (hp : p < maxProcesses) (hsleep : (s.processTable p).state = .sleeping)
    (hother : s.currentTask ≠ p) (htick : s.tick < (s.processTable p).wakeupTime)
    (hlt : (s.processTable p).wakeupTime < 2 ^ 32) (hrun : WithoutTask p n s t) :
    n + 1 < (s.processTable p).wakeupTime - s.tick + maxProcesses := by
  have hstart : Waits p s.tick ((s.processTable p).wakeupTime - s.tick)
      (s.processTable p).wakeupTime 0 s :=
    ⟨(TableInvariant.init hinit).steps hreach, hm, hother,
      .inl ⟨by omega, rfl, hsleep, rfl⟩⟩
  rcases (hstart.run hp (by omega) hlt hrun).phase with ⟨hn, -⟩ | ⟨-, -, hnear⟩
  · have hmax : 1 < maxProcesses := by decide
    omega
  · omega

/-- A task whose time has not come sleeps on and is not selected. -/
theorem TableInvariant.sleeps_on (h : TableInvariant s) (c : Context)
    (hm : s.multitaskingEnabled = true) (hsleep : (s.processTable p).state = .sleeping)
    (hlate : (s.tick + 1) % 2 ^ 32 < (s.processTable p).wakeupTime) :
    ((timerInterrupt c s).2.processTable p).state = .sleeping ∧
      ((timerInterrupt c s).2.processTable p).wakeupTime = (s.processTable p).wakeupTime ∧
      (timerInterrupt c s).2.currentTask ≠ p := by
  have hstate : ((timerInterrupt c s).2.processTable p).state = .sleeping := by
    rw [timer_wakes]
    unfold wakeTasks
    rw [if_neg (fun hall => by have := hall.2.2; omega)]
    exact hsleep
  refine ⟨hstate, ?_, ?_⟩
  · obtain ⟨state, cpu, hslot, -⟩ := timer_slot c s p
    rw [hslot]
  · rintro rfl
    have hrun := (h.timer_selects c hm).2.2
    rw [hstate] at hrun
    cases hrun

/-- So many interrupts that find the current task in the context `c`. -/
def interrupts (c : Context) (s : Machine) : ℕ → Machine
  | 0 => s
  | n + 1 => (timerInterrupt c (interrupts c s n)).2

/-- Interrupts before its time all leave a sleeping task alone. -/
theorem TableInvariant.sleeps_for (h : TableInvariant s) (c : Context)
    (hm : s.multitaskingEnabled = true) (hsleep : (s.processTable p).state = .sleeping)
    (hlt : (s.processTable p).wakeupTime < 2 ^ 32)
    (hlate : s.tick + n < (s.processTable p).wakeupTime) :
    WithoutTask p n s (interrupts c s n) := by
  have hkept : ∀ k ≤ n, TableInvariant (interrupts c s k) ∧
      (interrupts c s k).multitaskingEnabled = true ∧ (interrupts c s k).tick = s.tick + k ∧
      ((interrupts c s k).processTable p).state = .sleeping ∧
      ((interrupts c s k).processTable p).wakeupTime = (s.processTable p).wakeupTime ∧
      WithoutTask p k s (interrupts c s k) := by
    intro k hk
    induction k with
    | zero => exact ⟨h, hm, rfl, hsleep, rfl, .start s⟩
    | succ k ih =>
        obtain ⟨htable, hmulti, htick, hstate, hwake, hrun⟩ := ih (by omega)
        have hnext : ((interrupts c s k).tick + 1) % 2 ^ 32 = s.tick + (k + 1) := by
          rw [htick]
          omega
        obtain ⟨hstate', hwake', hother⟩ := htable.sleeps_on c hmulti hstate
          (by rw [hnext, hwake]; omega)
        exact ⟨htable.timer c, (timer_multitaskingEnabled c _).trans hmulti,
          (timer_tick c _).trans hnext, hstate', hwake'.trans hwake, .interrupt c hrun hother⟩
  exact (hkept n (Nat.le_refl n)).2.2.2.2.2

/-- The first interrupt selects the shell. -/
def shellRunning (s₁ : Machine) : Machine :=
  (timerInterrupt (kernelContext 0x21000) { s₁ with multitaskingEnabled := true }).2

/-- The shell has called `sleep`, and the idle task runs. -/
def shellAsleep (s₁ : Machine) : Machine :=
  (timerInterrupt (kernelContext 0x31000) (sleep 60 (shellRunning s₁))).2

/-- Four interrupts pass before the shell's time comes. -/
theorem sleeper_selected_in_time_shell : ∃ s t : Machine,
    (s.processTable 1).state = .sleeping ∧ WithoutTask 1 4 s t ∧
      4 + 1 < (s.processTable 1).wakeupTime - s.tick + maxProcesses := by
  obtain ⟨s₁, hs₁⟩ : ∃ s₁, s₁ = Effect.final (processInit 0x1000 0x2000) heapReady := ⟨_, rfl⟩
  have hinit : processInit 0x1000 0x2000 heapReady = .ok () s₁ := by
    rw [hs₁]
    rfl
  have hshell : (shellRunning s₁).currentTask = 1 ∧
      ((shellRunning s₁).processTable 1).state = .running := by
    rw [hs₁]
    decide +kernel
  have hasleep : (shellAsleep s₁).currentTask = 0 ∧
      ((shellAsleep s₁).processTable 1).state = .sleeping ∧
      ((shellAsleep s₁).processTable 1).wakeupTime = 7 ∧ (shellAsleep s₁).tick = 2 ∧
      (shellAsleep s₁).multitaskingEnabled = true := by
    rw [hs₁]
    decide +kernel
  obtain ⟨hcur, hsleep, hwake, htick, hm⟩ := hasleep
  have henable : KernelStep s₁ { s₁ with multitaskingEnabled := true } := .work rfl rfl
  have hexec : (shellRunning s₁).Executing := by
    unfold Machine.Executing
    rw [hshell.1]
    exact .inl hshell.2
  have hcall : KernelStep (shellRunning s₁) (sleep 60 (shellRunning s₁)) :=
    .sleep 60 (by rw [hshell.1]) hexec
  have hreach : Relation.ReflTransGen KernelStep s₁ (shellAsleep s₁) :=
    (((Relation.ReflTransGen.single henable).tail (.timer _ _)).tail hcall).tail (.timer _ _)
  have hrun : WithoutTask 1 4 (shellAsleep s₁)
      (interrupts (kernelContext 0x21000) (shellAsleep s₁) 4) :=
    ((TableInvariant.init hinit).steps hreach).sleeps_for _ hm hsleep (by rw [hwake]; decide)
      (by rw [htick, hwake]; decide)
  exact ⟨shellAsleep s₁, _, hsleep, hrun,
    sleeper_selected_in_time hinit hreach hm (by decide) hsleep (by rw [hcur]; decide)
      (by rw [hwake, htick]; decide) (by rw [hwake]; decide) hrun⟩

end MyOS
