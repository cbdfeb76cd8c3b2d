import MyOS.Model.Sleep
import MyOS.Verification.Scheduler.RoundRobin

/-! How long a call of `sleep` lasts. The wait is measured in ticks, and four things spoil it:
another interrupt ends the halt, a yield moves the tick, the tick wraps, and a timer interrupt
may come between the two stores. Without them a call never returns early. -/

namespace MyOS

/-! ## The timer handler, slot by slot -/

theorem saveCurrent_wakeupTime (r : ℕ) (s : Machine) (i : ℕ) :
    ((saveCurrent r s).processTable i).wakeupTime = (s.processTable i).wakeupTime := by
  unfold saveCurrent
  by_cases hz : (s.processTable s.currentTask).state ≠ .zombie
  · rw [if_pos hz]
    by_cases hi : i = s.currentTask
    · simp [hi]
    · simp [hi]
  · rw [if_neg hz]

theorem saveCurrent_tick (r : ℕ) (s : Machine) : (saveCurrent r s).tick = s.tick := by
  unfold saveCurrent
  by_cases hz : (s.processTable s.currentTask).state ≠ .zombie
  · rw [if_pos hz]
  · rw [if_neg hz]

theorem saveCurrent_multitaskingEnabled (r : ℕ) (s : Machine) :
    (saveCurrent r s).multitaskingEnabled = s.multitaskingEnabled := by
  unfold saveCurrent
  by_cases hz : (s.processTable s.currentTask).state ≠ .zombie
  · rw [if_pos hz]
  · rw [if_neg hz]

/-- The machine `task_switch` finds: one tick later, with the due tasks awake. -/
def afterTick (s : Machine) : Machine :=
  { s with
    tick := (s.tick + 1) % 2 ^ 32
    processTable := wakeTasks ((s.tick + 1) % 2 ^ 32) s.processTable }

variable {s : Machine} (hmulti : s.multitaskingEnabled = true) (r : ℕ)
include hmulti

theorem timerHandler_eq : timerHandler r s = taskSwitch r (afterTick s) := by
  simp [timerHandler, afterTick, hmulti]

theorem timerHandler_tick : (timerHandler r s).tick = (s.tick + 1) % 2 ^ 32 := by
  rw [timerHandler_eq hmulti]
  exact saveCurrent_tick r (afterTick s)

theorem timerHandler_tick_lt : (timerHandler r s).tick < 2 ^ 32 := by
  rw [timerHandler_tick hmulti]
  exact Nat.mod_lt _ (by decide)

theorem timerHandler_multitaskingEnabled : (timerHandler r s).multitaskingEnabled = true := by
  rw [timerHandler_eq hmulti, ← hmulti]
  exact saveCurrent_multitaskingEnabled r (afterTick s)

theorem timerHandler_state (i : ℕ) :
    ((timerHandler r s).processTable i).state =
      (wakeTasks ((s.tick + 1) % 2 ^ 32) s.processTable i).state := by
  rw [timerHandler_eq hmulti]
  exact saveCurrent_state r (afterTick s) i

theorem timerHandler_wakeupTime (i : ℕ) :
    ((timerHandler r s).processTable i).wakeupTime = (s.processTable i).wakeupTime := by
  rw [timerHandler_eq hmulti]
  calc
    _ = ((afterTick s).processTable i).wakeupTime := saveCurrent_wakeupTime r (afterTick s) i
    _ = (s.processTable i).wakeupTime := by
        simp only [afterTick, wakeTasks]
        split <;> rfl

/-- A task that is switched to is runnable, unless it is the idle task. -/
theorem timerHandler_selects_running (hcur : (timerHandler r s).currentTask ≠ 0) :
    ((timerHandler r s).processTable (timerHandler r s).currentTask).state = .running := by
  rw [timerHandler_state hmulti]
  have hsel : (timerHandler r s).currentTask =
      selectTask (afterTick s).processTable ((afterTick s).processTable s.currentTask).pid := by
    rw [timerHandler_eq hmulti]
    exact schedule_currentTask r (afterTick s)
  cases hnext : nextRunnable (afterTick s).processTable
      ((afterTick s).processTable s.currentTask).pid with
  | none =>
      rw [hsel, selectTask, hnext] at hcur
      exact absurd rfl hcur
  | some k =>
      rw [hsel, selectTask, hnext]
      exact (nextRunnable_eq_some hnext).2

omit hmulti

/-! ## The condition -/

/-- What every caller of `sleep` guarantees: it is a task other than the idle task, and the
scheduler runs. -/
structure SleepCall (pid : ℕ) (s : Machine) : Prop where
  currentTask : s.currentTask = pid
  not_idle : pid ≠ 0
  slot : pid < maxProcesses
  running : (s.processTable pid).state = .running
  multitaskingEnabled : s.multitaskingEnabled = true
  tick_lt : s.tick < 2 ^ 32

/-- The wake-up time does not wrap. From the last tick it may: then every tick value up to the
wrapped one is still ahead. -/
def Fits (milliseconds : UInt32) (startTick : ℕ) : Prop :=
  startTick + ticksToWait milliseconds < 2 ^ 32 ∨ startTick = 2 ^ 32 - 1

/-- None of the four disturbances: the wake-up time fits, no timer interrupt comes between the
two stores, no other interrupt ends the halt of a sleeping task, and no yield moves the tick
while the wait is measured. -/
def Undisturbed (pid : ℕ) (milliseconds : UInt32) (σ : Sleeper) : SleepEvent → Prop
  | .step => σ.pc = .entered → Fits milliseconds σ.machine.tick
  | .timer _ => ∀ startTick, σ.pc ≠ .marked startTick
  | .keyboard =>
      ¬(σ.pc = .halted ∧ σ.machine.currentTask = pid ∧
        (σ.machine.processTable pid).state = .sleeping)
  | .yield _ =>
      σ.pc = .entered ∨
        (∀ startTick, σ.pc ≠ .loaded startTick) ∧ (σ.machine.processTable pid).state = .running
  | .other _ => True

/-- When a call returns, its time is over and its task is runnable. -/
def ReturnsInTime (pid : ℕ) (milliseconds : UInt32) (σ : Sleeper) : Prop :=
  σ.pc = .awake → σ.machine.currentTask = pid →
    max 1 (milliseconds.toNat / 10) ≤ σ.ticks ∧ (σ.machine.processTable pid).state = .running

/-! ## The invariant of a call -/

/-- The tick is at most as many values behind `startTick` as there were timer interrupts. -/
def Counted (startTick : ℕ) (s : Machine) (ticks : ℕ) : Prop :=
  startTick < 2 ^ 32 ∧ ∃ n ≤ ticks, s.tick = (startTick + n) % 2 ^ 32

/-- Both stores are made and the time is not over. -/
structure Asleep (pid : ℕ) (milliseconds : UInt32) (startTick : ℕ) (s : Machine) (ticks : ℕ) :
    Prop where
  fits : Fits milliseconds startTick
  counted : Counted startTick s ticks
  state : (s.processTable pid).state = .sleeping
  wakeupTime : (s.processTable pid).wakeupTime = (startTick + ticksToWait milliseconds) % 2 ^ 32

structure Woken (pid : ℕ) (milliseconds : UInt32) (s : Machine) (ticks : ℕ) : Prop where
  elapsed : ticksToWait milliseconds ≤ ticks
  state : (s.processTable pid).state = .running

/-- What holds at each point of the call. -/
def SleepInv (pid : ℕ) (milliseconds : UInt32) (s : Machine) (ticks : ℕ) : SleepPc → Prop
  | .entered => s.tick < 2 ^ 32 ∧ (s.processTable pid).state = .running
  | .loaded startTick =>
      Fits milliseconds startTick ∧ Counted startTick s ticks ∧
        (s.processTable pid).state = .running
  | .marked startTick =>
      Fits milliseconds startTick ∧ Counted startTick s ticks ∧
        (s.processTable pid).state = .sleeping ∧ s.currentTask = pid
  | .timed =>
      (∃ startTick, Asleep pid milliseconds startTick s ticks) ∨ Woken pid milliseconds s ticks
  | .halted =>
      (∃ startTick, Asleep pid milliseconds startTick s ticks) ∨ Woken pid milliseconds s ticks
  | .awake =>
      (∃ startTick, Asleep pid milliseconds startTick s ticks) ∧ s.currentTask ≠ pid ∨
        Woken pid milliseconds s ticks

theorem ticksToWait_eq_max (milliseconds : UInt32) :
    ticksToWait milliseconds = max 1 (milliseconds.toNat / 10) := by
  unfold ticksToWait
  split <;> omega

theorem ticksToWait_lt (milliseconds : UInt32) : ticksToWait milliseconds < 2 ^ 32 := by
  have h := milliseconds.toNat_lt
  rw [ticksToWait_eq_max]
  omega

/-- A task that is due has slept long enough. -/
theorem elapsed_of_due {milliseconds : UInt32} {startTick n : ℕ}
    (hfits : Fits milliseconds startTick) (hstart : startTick < 2 ^ 32)
    (hdue : (startTick + ticksToWait milliseconds) % 2 ^ 32 ≤ (startTick + (n + 1)) % 2 ^ 32) :
    ticksToWait milliseconds ≤ n + 1 := by
  have hwait := ticksToWait_lt milliseconds
  unfold Fits at hfits
  omega

/-- The three accesses in a row are the `sleep` of the sequential model. -/
theorem sleep_eq_stores (milliseconds : UInt32) (s : Machine) :
    setWakeupTime milliseconds s.tick (markSleeping s) = sleep milliseconds.toNat s := by
  simp [setWakeupTime, markSleeping, sleep, ticksToWait]

/-! ## One event -/

section Events

variable {pid : ℕ} {milliseconds : UInt32} {startTick : ℕ} {s : Machine} {ticks r : ℕ}

theorem Counted.timer (hmulti : s.multitaskingEnabled = true) (h : Counted startTick s ticks) :
    Counted startTick (timerHandler r s) (ticks + 1) := by
  obtain ⟨hstart, n, hn, htick⟩ := h
  refine ⟨hstart, n + 1, Nat.succ_le_succ hn, ?_⟩
  rw [timerHandler_tick hmulti, htick]
  omega

theorem timerHandler_keeps_running (hmulti : s.multitaskingEnabled = true)
    (h : (s.processTable pid).state = .running) :
    ((timerHandler r s).processTable pid).state = .running := by
  rw [timerHandler_state hmulti]
  simp [wakeTasks, h]

theorem Woken.timer (hmulti : s.multitaskingEnabled = true) (h : Woken pid milliseconds s ticks) :
    Woken pid milliseconds (timerHandler r s) (ticks + 1) where
  elapsed := Nat.le_succ_of_le h.elapsed
  state := timerHandler_keeps_running hmulti h.state

/-- A timer interrupt wakes a sleeper that is due; any other sleeps on, and does not run. -/
theorem Asleep.timer (hpid : pid ≠ 0) (hslot : pid < maxProcesses)
    (hmulti : s.multitaskingEnabled = true) (h : Asleep pid milliseconds startTick s ticks) :
    Asleep pid milliseconds startTick (timerHandler r s) (ticks + 1) ∧
        (timerHandler r s).currentTask ≠ pid ∨
      Woken pid milliseconds (timerHandler r s) (ticks + 1) := by
  have hstate := timerHandler_state hmulti r pid
  by_cases hdue : (s.processTable pid).wakeupTime ≤ (s.tick + 1) % 2 ^ 32
  · right
    obtain ⟨hstart, n, hn, htick⟩ := h.counted
    have hover : (startTick + ticksToWait milliseconds) % 2 ^ 32 ≤
        (startTick + (n + 1)) % 2 ^ 32 := by
      rw [← h.wakeupTime, ← Nat.add_assoc, ← Nat.mod_add_mod, ← htick]
      exact hdue
    refine ⟨Nat.le_trans (elapsed_of_due h.fits hstart hover) (Nat.succ_le_succ hn), ?_⟩
    rw [hstate, wakeTasks, if_pos ⟨hslot, h.state, hdue⟩]
  · left
    have hasleep : ((timerHandler r s).processTable pid).state = .sleeping := by
      rw [hstate, wakeTasks, if_neg (fun hc => hdue hc.2.2), h.state]
    refine ⟨⟨h.fits, h.counted.timer hmulti, hasleep, ?_⟩, ?_⟩
    · rw [timerHandler_wakeupTime hmulti, h.wakeupTime]
    · intro hcur
      have hrun := timerHandler_selects_running hmulti r (hcur ▸ hpid)
      rw [hcur, hasleep] at hrun
      cases hrun

theorem timerHandler_waiting (hpid : pid ≠ 0) (hslot : pid < maxProcesses)
    (hmulti : s.multitaskingEnabled = true)
    (h : (∃ startTick, Asleep pid milliseconds startTick s ticks) ∨
      Woken pid milliseconds s ticks) :
    (∃ startTick, Asleep pid milliseconds startTick (timerHandler r s) (ticks + 1)) ∧
        (timerHandler r s).currentTask ≠ pid ∨
      Woken pid milliseconds (timerHandler r s) (ticks + 1) := by
  cases h with
  | inl hasleep =>
      obtain ⟨startTick, hasleep⟩ := hasleep
      cases hasleep.timer (r := r) hpid hslot hmulti with
      | inl hon => exact .inl ⟨⟨startTick, hon.1⟩, hon.2⟩
      | inr hwoken => exact .inr hwoken
  | inr hwoken => exact .inr (hwoken.timer hmulti)

theorem interrupted_halted (hcur : s.currentTask = pid) :
    Sleeper.interrupted pid ⟨s, .halted, ticks⟩ = .awake := if_pos ⟨rfl, hcur⟩

theorem interrupted_of_not {pc : SleepPc} (h : ¬(pc = .halted ∧ s.currentTask = pid)) :
    Sleeper.interrupted pid ⟨s, pc, ticks⟩ = pc := if_neg h

/-- The call's own steps: the tick is read, the two stores are made, the processor halts. -/
theorem SleepInv.step {s' : Machine} {pc pc' : SleepPc}
    (h : SleepInv pid milliseconds s ticks pc) (hcur : s.currentTask = pid)
    (hun : Undisturbed pid milliseconds ⟨s, pc, ticks⟩ .step)
    (hstep : sleepStep milliseconds s pc = some (s', pc')) :
    SleepInv pid milliseconds s' ticks pc' := by
  subst hcur
  cases pc with
  | entered =>
      cases hstep
      exact ⟨hun rfl, ⟨h.1, 0, Nat.zero_le _, (Nat.mod_eq_of_lt h.1).symm⟩, h.2⟩
  | loaded startTick =>
      cases hstep
      exact ⟨h.1, h.2.1, by simp [markSleeping], rfl⟩
  | marked startTick =>
      cases hstep
      have hsleeping : (s.processTable s.currentTask).state = .sleeping := h.2.2.1
      exact .inl ⟨startTick, h.1, h.2.1, by simp [setWakeupTime, hsleeping],
        by simp [setWakeupTime]⟩
  | timed =>
      cases hstep
      exact h
  | halted => cases hstep
  | awake => cases hstep

theorem SleepInv.timer {pc : SleepPc} (hpid : pid ≠ 0) (hslot : pid < maxProcesses)
    (hmulti : s.multitaskingEnabled = true) (h : SleepInv pid milliseconds s ticks pc)
    (hun : Undisturbed pid milliseconds ⟨s, pc, ticks⟩ (.timer r)) :
    SleepInv pid milliseconds (timerHandler r s) (ticks + 1)
      (Sleeper.interrupted pid ⟨s, pc, ticks⟩) := by
  cases pc with
  | entered => exact ⟨timerHandler_tick_lt hmulti r, timerHandler_keeps_running hmulti h.2⟩
  | loaded startTick =>
      exact ⟨h.1, h.2.1.timer hmulti, timerHandler_keeps_running hmulti h.2.2⟩
  | marked startTick => exact absurd rfl (hun startTick)
  | timed => exact (timerHandler_waiting hpid hslot hmulti h).imp And.left id
  | halted =>
      have hwait := timerHandler_waiting (r := r) hpid hslot hmulti h
      by_cases hcur : s.currentTask = pid
      · rw [interrupted_halted hcur]
        exact hwait
      · rw [interrupted_of_not fun hc => hcur hc.2]
        exact hwait.imp And.left id
  | awake => exact timerHandler_waiting hpid hslot hmulti (h.imp And.left id)

theorem SleepInv.keyboard {pc : SleepPc} (h : SleepInv pid milliseconds s ticks pc)
    (hun : Undisturbed pid milliseconds ⟨s, pc, ticks⟩ .keyboard) :
    SleepInv pid milliseconds s ticks (Sleeper.interrupted pid ⟨s, pc, ticks⟩) := by
  by_cases hpc : pc = .halted ∧ s.currentTask = pid
  · obtain ⟨rfl, hcur⟩ := hpc
    rw [interrupted_halted hcur]
    cases h with
    | inl hasleep =>
        obtain ⟨startTick, hasleep⟩ := hasleep
        exact absurd ⟨rfl, hcur, hasleep.state⟩ hun
    | inr hwoken => exact .inr hwoken
  · rw [interrupted_of_not hpc]
    exact h

/-- A sleeper that is runnable stays so over a yield. -/
theorem timerHandler_woken (hmulti : s.multitaskingEnabled = true)
    (hrunning : (s.processTable pid).state = .running)
    (h : (∃ startTick, Asleep pid milliseconds startTick s ticks) ∨
      Woken pid milliseconds s ticks) :
    Woken pid milliseconds (timerHandler r s) ticks := by
  cases h with
  | inl hasleep =>
      obtain ⟨startTick, hasleep⟩ := hasleep
      have hsleeping := hasleep.state
      rw [hrunning] at hsleeping
      cases hsleeping
  | inr hwoken => exact ⟨hwoken.elapsed, timerHandler_keeps_running hmulti hwoken.state⟩

/-- A yield finds the call at its start or its task awake. -/
theorem SleepInv.yield {pc : SleepPc} (hmulti : s.multitaskingEnabled = true)
    (h : SleepInv pid milliseconds s ticks pc) (hcur : s.currentTask ≠ pid)
    (hun : Undisturbed pid milliseconds ⟨s, pc, ticks⟩ (.yield r)) :
    SleepInv pid milliseconds (timerHandler r s) ticks pc := by
  cases hun with
  | inl hentered =>
      change pc = .entered at hentered
      subst hentered
      exact ⟨timerHandler_tick_lt hmulti r, timerHandler_keeps_running hmulti h.2⟩
  | inr hrunning =>
      have hstate : (s.processTable pid).state = .running := hrunning.2
      cases pc with
      | entered => exact ⟨timerHandler_tick_lt hmulti r, timerHandler_keeps_running hmulti h.2⟩
      | loaded startTick => exact absurd rfl (hrunning.1 startTick)
      | marked startTick => exact absurd h.2.2.2 hcur
      | timed => exact .inr (timerHandler_woken hmulti hstate h)
      | halted => exact .inr (timerHandler_woken hmulti hstate h)
      | awake => exact .inr (timerHandler_woken hmulti hstate (h.imp And.left id))

theorem SleepInv.other {s' : Machine} {pc : SleepPc} (h : SleepInv pid milliseconds s ticks pc)
    (he : Elsewhere pid s s') : SleepInv pid milliseconds s' ticks pc := by
  have hcounted : ∀ startTick, Counted startTick s ticks → Counted startTick s' ticks := by
    intro startTick hc
    exact ⟨hc.1, hc.2.imp fun n hn => ⟨hn.1, he.tick.trans hn.2⟩⟩
  have hwait : (∃ startTick, Asleep pid milliseconds startTick s ticks) →
      ∃ startTick, Asleep pid milliseconds startTick s' ticks := by
    intro hasleep
    obtain ⟨startTick, ha⟩ := hasleep
    exact ⟨startTick, ha.fits, hcounted _ ha.counted, he.state.trans ha.state,
      he.wakeupTime.trans ha.wakeupTime⟩
  have hwoken : Woken pid milliseconds s ticks → Woken pid milliseconds s' ticks :=
    fun hw => ⟨hw.elapsed, he.state.trans hw.state⟩
  cases pc with
  | entered => exact ⟨he.tick ▸ h.1, he.state.trans h.2⟩
  | loaded startTick => exact ⟨h.1, hcounted _ h.2.1, he.state.trans h.2.2⟩
  | marked startTick =>
      exact ⟨h.1, hcounted _ h.2.1, he.state.trans h.2.2.1, he.currentTask.trans h.2.2.2⟩
  | timed => exact h.imp hwait hwoken
  | halted => exact h.imp hwait hwoken
  | awake =>
      exact h.imp (fun ha => ⟨hwait ha.1, fun hc => ha.2 (he.currentTask.symm.trans hc)⟩) hwoken

end Events

/-! ## Whole calls -/

theorem sleepStep_multitaskingEnabled {milliseconds : UInt32} {s s' : Machine} {pc pc' : SleepPc}
    (h : sleepStep milliseconds s pc = some (s', pc')) :
    s'.multitaskingEnabled = s.multitaskingEnabled := by
  cases pc <;> cases h <;> rfl

theorem SleepStep.multitaskingEnabled {pid : ℕ} {milliseconds : UInt32} {σ σ' : Sleeper}
    {e : SleepEvent} (h : SleepStep pid milliseconds σ e σ')
    (hmulti : σ.machine.multitaskingEnabled = true) :
    σ'.machine.multitaskingEnabled = true := by
  cases h with
  | step _ hstep => exact (sleepStep_multitaskingEnabled hstep).trans hmulti
  | timer r => exact timerHandler_multitaskingEnabled hmulti r
  | keyboard => exact hmulti
  | yield r _ => exact timerHandler_multitaskingEnabled hmulti r
  | other _ he => exact he.multitaskingEnabled.trans hmulti

theorem SleepRun.inv {pid : ℕ} {milliseconds : UInt32} {s₀ : Machine} {σ : Sleeper}
    (hcall : SleepCall pid s₀)
    (hrun : SleepRun pid milliseconds (Undisturbed pid milliseconds) s₀ σ) :
    σ.machine.multitaskingEnabled = true ∧ SleepInv pid milliseconds σ.machine σ.ticks σ.pc := by
  induction hrun with
  | call => exact ⟨hcall.multitaskingEnabled, hcall.tick_lt, hcall.running⟩
  | next _ hun hstep ih =>
      refine ⟨hstep.multitaskingEnabled ih.1, ?_⟩
      cases hstep with
      | step hcur hown => exact ih.2.step hcur hun hown
      | timer r => exact ih.2.timer hcall.not_idle hcall.slot ih.1 hun
      | keyboard => exact ih.2.keyboard hun
      | yield r hcur => exact ih.2.yield ih.1 hcur hun
      | other _ he => exact ih.2.other he

/-- A call that is not disturbed never returns early. -/
theorem sleep_never_early {pid : ℕ} {milliseconds : UInt32} {s₀ : Machine} {σ : Sleeper}
    (hcall : SleepCall pid s₀)
    (hrun : SleepRun pid milliseconds (Undisturbed pid milliseconds) s₀ σ) :
    ReturnsInTime pid milliseconds σ := by
  intro hpc hcur
  have hinv := (hrun.inv hcall).2
  obtain ⟨s, pc, ticks⟩ := σ
  subst hpc
  cases hinv with
  | inl hasleep => exact absurd hcur hasleep.2
  | inr hwoken => exact ⟨ticksToWait_eq_max milliseconds ▸ hwoken.elapsed, hwoken.state⟩

/-! ## Two calls of the shell -/

/-- The shell runs, with the idle task beside it. -/
def shellCalls : Machine :=
  { kmainEntry (fun _ => 0) (fun _ _ => 0) (fun _ => 0) with
    processTable := fun i => { pid := i, state := if i < 2 then .running else .unused }
    currentTask := 1
    multitaskingEnabled := true }

theorem shellCalls_call : SleepCall 1 shellCalls :=
  ⟨rfl, by decide, by decide, by decide, rfl, by decide⟩

/-- The call as far as the halt. -/
def shellHalted (milliseconds : UInt32) : Sleeper :=
  ⟨setWakeupTime milliseconds shellCalls.tick (markSleeping shellCalls), .halted, 0⟩

/-- Without an interrupt the call gets to the halt. -/
theorem shellHalted_run {milliseconds : UInt32} {P : Sleeper → SleepEvent → Prop}
    (hP : ∀ s pc, s.tick = 0 → P ⟨s, pc, 0⟩ .step) :
    SleepRun 1 milliseconds P shellCalls (shellHalted milliseconds) := by
  have hloaded : SleepRun 1 milliseconds P shellCalls ⟨shellCalls, .loaded 0, 0⟩ :=
    .next .call (hP _ _ rfl) (.step rfl rfl)
  have hmarked : SleepRun 1 milliseconds P shellCalls ⟨markSleeping shellCalls, .marked 0, 0⟩ :=
    .next hloaded (hP _ _ rfl) (.step rfl rfl)
  have htimed : SleepRun 1 milliseconds P shellCalls
      ⟨setWakeupTime milliseconds 0 (markSleeping shellCalls), .timed, 0⟩ :=
    .next hmarked (hP _ _ rfl) (.step rfl rfl)
  exact .next htimed (hP _ _ rfl) (.step rfl rfl)

/-- Ten milliseconds: the first timer interrupt wakes the shell and runs the idle task, the
second one runs the shell. -/
theorem sleep_never_early_shell :
    ∃ σ, SleepRun 1 10 (Undisturbed 1 10) shellCalls σ ∧ σ.pc = .awake ∧
      σ.machine.currentTask = 1 ∧ 1 ≤ σ.ticks ∧ (σ.machine.processTable 1).state = .running := by
  have hhalted : SleepRun 1 10 (Undisturbed 1 10) shellCalls (shellHalted 10) := by
    apply shellHalted_run
    intro s pc htick _
    left
    change s.tick + ticksToWait 10 < 2 ^ 32
    rw [htick]
    decide
  have hwoken := SleepRun.next (e := .timer 0) hhalted
    (fun startTick => show SleepPc.halted ≠ .marked startTick from nofun) (SleepStep.timer 0)
  have hback := SleepRun.next (e := .timer 0) hwoken
    (fun startTick => show SleepPc.awake ≠ .marked startTick from nofun) (SleepStep.timer 0)
  refine ⟨_, hback, rfl, by decide, ?_⟩
  exact sleep_never_early shellCalls_call hback rfl (by decide)

/-- A key pressed during `sleep 1000`: the call returns at once, and the shell goes on as a
sleeping task. -/
theorem sleep_early_on_key :
    ¬∀ (pid : ℕ) (milliseconds : UInt32) (s₀ : Machine) (σ : Sleeper), SleepCall pid s₀ →
      SleepRun pid milliseconds (fun _ _ => True) s₀ σ → ReturnsInTime pid milliseconds σ := by
  intro h
  have hhalted : SleepRun 1 1000 (fun _ _ => True) shellCalls (shellHalted 1000) :=
    shellHalted_run fun _ _ _ => trivial
  have hkey := SleepRun.next hhalted trivial SleepStep.keyboard
  have hticks := (h 1 1000 _ _ shellCalls_call hkey rfl rfl).1
  exact absurd hticks (by decide)

end MyOS
