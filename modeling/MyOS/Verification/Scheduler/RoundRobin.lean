import MyOS.Lib.CyclicScan
import MyOS.Model.Boot
import MyOS.Model.Interrupt
import Mathlib.Logic.Relation

/-! Fairness of `schedule`. Between two calls the rest of the system may do anything to the
table that creation, exit, sleep, wake-up and reaping can do. -/

namespace MyOS

open CyclicScan

/-! ## Selection -/

theorem nextRunnable_eq_scan (table : ℕ → Task) (pid : ℕ) :
    nextRunnable table pid = scan maxProcesses (fun i => (table i).state = .running) pid := rfl

/-- Saving touches one PCB, and nothing of it but the registers. -/
theorem saveCurrent_state (r : ℕ) (s : Machine) (i : ℕ) :
    ((saveCurrent r s).processTable i).state = (s.processTable i).state := by
  unfold saveCurrent
  by_cases hz : (s.processTable s.currentTask).state ≠ .zombie
  · rw [if_pos hz]
    by_cases hi : i = s.currentTask
    · simp [hi]
    · simp [hi]
  · rw [if_neg hz]

theorem saveCurrent_pid (r : ℕ) (s : Machine) (i : ℕ) :
    ((saveCurrent r s).processTable i).pid = (s.processTable i).pid := by
  unfold saveCurrent
  by_cases hz : (s.processTable s.currentTask).state ≠ .zombie
  · rw [if_pos hz]
    by_cases hi : i = s.currentTask
    · simp [hi]
    · simp [hi]
  · rw [if_neg hz]

theorem saveCurrent_currentTask (r : ℕ) (s : Machine) :
    (saveCurrent r s).currentTask = s.currentTask := by
  unfold saveCurrent
  by_cases hz : (s.processTable s.currentTask).state ≠ .zombie
  · rw [if_pos hz]
  · rw [if_neg hz]

theorem nextRunnable_congr {table table' : ℕ → Task} (pid : ℕ)
    (h : ∀ i, (table' i).state = (table i).state) :
    nextRunnable table' pid = nextRunnable table pid := by
  simp only [nextRunnable, h]

/-- The slot selected depends on the states and the current pid as they were before the
call. -/
theorem schedule_currentTask (r : ℕ) (s : Machine) :
    (schedule r s).currentTask =
      selectTask s.processTable (s.processTable s.currentTask).pid := by
  change selectTask (saveCurrent r s).processTable
    ((saveCurrent r s).processTable (saveCurrent r s).currentTask).pid = _
  rw [saveCurrent_currentTask, saveCurrent_pid, selectTask, selectTask,
    nextRunnable_congr _ (saveCurrent_state r s)]

theorem schedule_processTable (r : ℕ) (s : Machine) :
    (schedule r s).processTable = (saveCurrent r s).processTable := rfl

theorem nextRunnable_eq_none {table : ℕ → Task} {pid : ℕ} :
    nextRunnable table pid = none ↔ ∀ k < maxProcesses, (table k).state ≠ .running := by
  rw [nextRunnable_eq_scan, ← scan_mod]
  exact scan_eq_none (Nat.mod_lt _ (by decide))

theorem nextRunnable_eq_some {table : ℕ → Task} {pid k : ℕ}
    (h : nextRunnable table pid = some k) : k < maxProcesses ∧ (table k).state = .running := by
  rw [nextRunnable_eq_scan, ← scan_mod] at h
  obtain ⟨hk, hrun, -⟩ := scan_eq_some (Nat.mod_lt _ (by decide)) h
  exact ⟨hk, hrun⟩

/-- A slot that is not runnable is selected only when none is. -/
theorem selectTask_runnable (table : ℕ → Task) (pid : ℕ) :
    (table (selectTask table pid)).state = .running ∨
      ∀ k < maxProcesses, (table k).state ≠ .running := by
  unfold selectTask
  cases h : nextRunnable table pid with
  | none => exact .inr (nextRunnable_eq_none.mp h)
  | some k => exact .inl (nextRunnable_eq_some h).2

/-! ## Runs -/

/-- Used slots know their index and the current task is one of them. -/
structure TableWellFormed (s : Machine) : Prop where
  pid_eq : ∀ i < maxProcesses, (s.processTable i).state ≠ .unused → (s.processTable i).pid = i
  current_lt : s.currentTask < maxProcesses
  current_used : (s.processTable s.currentTask).state ≠ .unused

/-- One change of slot `i` while `current` runs: a used slot changes in any way but keeps its
pid, an unused one is given to a new process, or a slot that is not current is reaped. -/
inductive SlotStep (current i : ℕ) : Task → Task → Prop where
  | change {t t' : Task} : t.state ≠ .unused → t'.state ≠ .unused → t'.pid = t.pid →
      SlotStep current i t t'
  | create {t t' : Task} : t.state = .unused → t'.state ≠ .unused → t'.pid = i →
      SlotStep current i t t'
  | reap {t t' : Task} : i ≠ current → t'.state = .unused → SlotStep current i t t'

/-- Any number of changes to every slot between two calls. -/
structure Between (s s' : Machine) : Prop where
  current_eq : s'.currentTask = s.currentTask
  slots : ∀ i < maxProcesses,
    Relation.ReflTransGen (SlotStep s.currentTask i) (s.processTable i) (s'.processTable i)

/-- Consecutive calls: `before t` is the machine the call number `t` finds, `frame t` its
interrupt frame. -/
structure ScheduleRun (before : ℕ → Machine) (frame : ℕ → ℕ) : Prop where
  wellFormed : TableWellFormed (before 0)
  between : ∀ t, t + 1 < maxProcesses → Between (schedule (frame t) (before t)) (before (t + 1))

theorem slotSteps_pid {current i : ℕ} {t t' : Task}
    (h : Relation.ReflTransGen (SlotStep current i) t t')
    (ht : t.state ≠ .unused → t.pid = i) : t'.state ≠ .unused → t'.pid = i := by
  induction h with
  | refl => exact ht
  | tail _ hstep ih =>
      intro hused
      cases hstep with
      | change hu _ hpid => rw [hpid]; exact ih hu
      | create _ _ hpid => exact hpid
      | reap _ hunused => exact absurd hunused hused

theorem slotSteps_current_used {current : ℕ} {t t' : Task}
    (h : Relation.ReflTransGen (SlotStep current current) t t') (ht : t.state ≠ .unused) :
    t'.state ≠ .unused := by
  induction h with
  | refl => exact ht
  | tail _ hstep _ =>
      cases hstep with
      | change _ hused _ => exact hused
      | create _ hused _ => exact hused
      | reap hne _ => exact absurd rfl hne

theorem TableWellFormed.between {s s' : Machine} (h : TableWellFormed s) (hb : Between s s') :
    TableWellFormed s' := by
  refine ⟨?_, ?_, ?_⟩
  · intro i hi
    exact slotSteps_pid (hb.slots i hi) (h.pid_eq i hi)
  · rw [hb.current_eq]
    exact h.current_lt
  · rw [hb.current_eq]
    exact slotSteps_current_used (hb.slots _ h.current_lt) h.current_used

/-- A call that finds a runnable slot keeps the table well formed. -/
theorem TableWellFormed.schedule {s : Machine} {k : ℕ} (h : TableWellFormed s) (r : ℕ)
    (hk : nextRunnable s.processTable (s.processTable s.currentTask).pid = some k) :
    TableWellFormed (schedule r s) := by
  have hcur : (MyOS.schedule r s).currentTask = k := by
    rw [schedule_currentTask, selectTask, hk, Option.getD_some]
  obtain ⟨hlt, hrun⟩ := nextRunnable_eq_some hk
  refine ⟨?_, ?_, ?_⟩
  · intro i hi hused
    rw [schedule_processTable, saveCurrent_state] at hused
    rw [schedule_processTable, saveCurrent_pid]
    exact h.pid_eq i hi hused
  · rw [hcur]
    exact hlt
  · rw [hcur, schedule_processTable, saveCurrent_state, hrun]
    decide

theorem nextRunnable_isSome {s : Machine} {p : ℕ} (pid : ℕ) (hp : p < maxProcesses)
    (hrun : (s.processTable p).state = .running) : ∃ k, nextRunnable s.processTable pid = some k := by
  cases h : nextRunnable s.processTable pid with
  | none => exact absurd hrun (nextRunnable_eq_none.mp h p hp)
  | some k => exact ⟨k, rfl⟩

/-- As long as some slot is runnable at every call, every call finds a well-formed table. -/
theorem ScheduleRun.wellFormed_before {before : ℕ → Machine} {frame : ℕ → ℕ}
    (h : ScheduleRun before frame) {p : ℕ} (hp : p < maxProcesses)
    (hrun : ∀ t < maxProcesses, ((before t).processTable p).state = .running) :
    ∀ t < maxProcesses, TableWellFormed (before t) := by
  intro t ht
  induction t with
  | zero => exact h.wellFormed
  | succ t ih =>
      obtain ⟨k, hk⟩ := nextRunnable_isSome _ hp (hrun t (by omega))
      exact ((ih (by omega)).schedule (frame t) hk).between (h.between t ht)

/-- Round robin: a call selects a runnable slot unless there is none, and a slot that is
runnable at each of `MAX_PROCESSES` calls in a row is selected by one of them. -/
theorem schedule_starves_no_task {before : ℕ → Machine} {frame : ℕ → ℕ}
    (h : ScheduleRun before frame) :
    (∀ t < maxProcesses,
      ((before t).processTable (schedule (frame t) (before t)).currentTask).state = .running ∨
        ∀ k < maxProcesses, ((before t).processTable k).state ≠ .running) ∧
    ∀ p < maxProcesses,
      (∀ t < maxProcesses, ((before t).processTable p).state = .running) →
        ∃ t < maxProcesses, (schedule (frame t) (before t)).currentTask = p := by
  refine ⟨?_, ?_⟩
  · intro t _
    rw [schedule_currentTask]
    exact selectTask_runnable _ _
  · intro p hp hrun
    have hwf := h.wellFormed_before hp hrun
    let pos : ℕ → ℕ := fun t =>
      t.casesOn (before 0).currentTask fun t => (schedule (frame t) (before t)).currentTask
    have hpos : ∀ t < maxProcesses, pos t = (before t).currentTask := by
      intro t ht
      cases t with
      | zero => rfl
      | succ t => exact (h.between t ht).current_eq.symm
    have hscan : ∀ t < maxProcesses,
        scan maxProcesses (fun i => ((before t).processTable i).state = .running) (pos t) =
          some (pos (t + 1)) := by
      intro t ht
      obtain ⟨k, hk⟩ := nextRunnable_isSome (before t).currentTask hp (hrun t ht)
      have hpid := (hwf t ht).pid_eq _ (hwf t ht).current_lt (hwf t ht).current_used
      have hnext : pos (t + 1) = k := by
        change (schedule (frame t) (before t)).currentTask = k
        rw [schedule_currentTask, hpid, selectTask, hk, Option.getD_some]
      rw [hpos t ht, hnext, ← nextRunnable_eq_scan]
      exact hk
    exact picked_of_eligible pos _ h.wellFormed.current_lt hp hrun hscan

/-- Calls in a row with no change between them, for the idle task and a shell. -/
def scheduleRepeatedly : ℕ → Machine
  | 0 =>
      { kmainEntry (fun _ => 0) (fun _ _ => 0) (fun _ => 0) with
        processTable := fun i => { pid := i, state := if i < 2 then .running else .unused } }
  | t + 1 => schedule 0 (scheduleRepeatedly t)

theorem scheduleRepeatedly_run : ScheduleRun scheduleRepeatedly fun _ => 0 := by
  refine ⟨⟨fun _ _ _ => rfl, by decide, by decide⟩, ?_⟩
  intro t _
  exact ⟨rfl, fun _ _ => .refl⟩

theorem scheduleRepeatedly_shell (t : ℕ) :
    ((scheduleRepeatedly t).processTable 1).state = .running := by
  induction t with
  | zero => rfl
  | succ t ih =>
      change ((saveCurrent 0 (scheduleRepeatedly t)).processTable 1).state = .running
      rw [saveCurrent_state]
      exact ih

theorem schedule_starves_no_task_shell :
    ∃ t < maxProcesses, (schedule 0 (scheduleRepeatedly t)).currentTask = 1 :=
  (schedule_starves_no_task scheduleRepeatedly_run).2 1 (by decide)
    fun t _ => scheduleRepeatedly_shell t

end MyOS
