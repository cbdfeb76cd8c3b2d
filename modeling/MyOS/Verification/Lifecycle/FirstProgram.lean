import MyOS.Verification.Lifecycle.Start
import MyOS.Verification.Loader.ProgramDisk
import MyOS.Verification.Scheduler.RoundRobin

/-! A first program, from power on: the shell starts it, it exits, and its slot is reaped. -/

namespace MyOS

open Effect X86Paging

variable {s s' : Machine} {g : Layout} {v : HeapView}

/-! ## After boot -/

theorem ImageMachine.processInit (h : ImageMachine programImage s g v) (hsmall : g.heap.length ≤ 12)
    {idleTask shellTask : ℕ} (hrun : processInit idleTask shellTask s = .ok () s') :
    ∃ g' v', ImageMachine programImage s' g' v' := by
  unfold MyOS.processInit at hrun
  rw [bind_of_ok (modify_apply _ s), bind_of_ok (get_apply _)] at hrun
  obtain ⟨stackA, s₁, hA, hrun⟩ := bind_eq_ok.mp hrun
  have h₀ : ImageMachine programImage { s with processTable := fun _ => {} } g v := h.of_tasks
  obtain ⟨xs, v₁, h₁, hxs⟩ := h₀.malloc (by omega) (Nat.le_refl _) (by omega) hA
  rw [bind_of_ok (modify_apply _ s₁)] at hrun
  obtain ⟨stackB, s₂, hB, hrun⟩ := bind_eq_ok.mp hrun
  obtain ⟨table, htable⟩ : ∃ table, table = Function.update s₁.processTable 0
    (kernelTask 0 [105, 100, 108, 101] s.kernelDirectory idleTask stackA) := ⟨_, rfl⟩
  have h₁ : ImageMachine programImage { s₁ with processTable := table } (g.extend xs) v₁ :=
    h₁.of_tasks
  rw [htable] at h₁
  have hlength : (g.extend xs).heap.length ≤ 14 := by
    change (g.heap ++ xs).length ≤ 14
    rw [List.length_append]
    omega
  obtain ⟨ys, v₂, h₂, -⟩ := h₁.malloc (by omega) (Nat.le_refl _) hlength hB
  obtain rfl := (EStateM.Result.ok.inj hrun).2
  exact ⟨_, v₂, h₂.of_tasks⟩

/-! ## States of the slots -/

/-- The scheduler is on, and the slots are in these states. -/
structure Slots (s : Machine) (f : ℕ → TaskState) : Prop where
  table : TableInvariant s
  enabled : s.multitaskingEnabled = true
  state : ∀ i, (s.processTable i).state = f i

/-- While no task sleeps, an interrupt selects the next one that runs. -/
theorem Slots.timer {f : ℕ → TaskState} (h : Slots s f) (hawake : ∀ i, f i ≠ .sleeping)
    (c : Context) :
    Slots (timerInterrupt c s).2 f ∧
      (timerInterrupt c s).2.currentTask =
        selectTask (fun i => { state := f i }) s.currentTask := by
  have hstate : ∀ i, ((timerInterrupt c s).2.processTable i).state = f i := by
    intro i
    rcases timer_state (s := s) c i with hsame | ⟨hsleep, -⟩
    · exact hsame.trans (h.state i)
    · exact absurd ((h.state i).symm.trans hsleep) (hawake i)
  have henabled : (timerInterrupt c s).2.multitaskingEnabled = true := by
    obtain ⟨table, current, tick, esp0, cr3, stack, heq⟩ := timerInterrupt_tasks c s
    rw [heq]
    exact h.enabled
  have hpid := (h.table.labelled _ h.table.current_lt h.table.current_used).1
  refine ⟨⟨h.table.timer c, henabled, hstate⟩, ?_⟩
  rw [timer_currentTask c s h.enabled, hpid]
  unfold selectTask
  congr 1
  refine nextRunnable_congr _ fun i => ?_
  rcases wakeTasks_state ((s.tick + 1) % 2 ^ 32) s.processTable i with hsame | ⟨hsleep, -⟩
  · exact hsame.trans (h.state i)
  · exact absurd ((h.state i).symm.trans hsleep) (hawake i)

/-- Idle task and shell run. -/
def bootSlots (i : ℕ) : TaskState := if i < 2 then .running else .unused

/-- The shell waits for the program in slot 2. -/
def startedSlots (i : ℕ) : TaskState :=
  if i = 0 ∨ i = 2 then .running else if i = 1 then .waiting else .unused

/-- The program has exited. -/
def exitedSlots (i : ℕ) : TaskState :=
  if i < 2 then .running else if i = 2 then .zombie else .unused

/-! ## The run -/

theorem processBlind_multitaskingEnabled :
    ProcessBlind fun s t : Machine => t.multitaskingEnabled = s.multitaskingEnabled where
  toChain := chain_eq Machine.multitaskingEnabled
  mem := fun _ _ => rfl
  pmm := fun _ _ => rfl
  trace := fun _ _ => rfl
  heapTop := fun _ _ => rfl
  heapEnd := fun _ _ => rfl
  freeListHead := fun _ _ => rfl
  cr3 := fun _ _ => rfl
  dmaBuffer := fun _ _ => rfl
  processTable := fun _ _ => rfl

theorem Slots.executing {f : ℕ → TaskState} (h : Slots s f)
    (hrunning : f s.currentTask = .running) :
    s.Executing := .inl ((h.state _).trans hrunning)

theorem Slots.userSlot {f : ℕ → TaskState} {i : ℕ} (h : Slots s f)
    (hi : 2 ≤ i ∧ i < maxProcesses ∧ f i ≠ .unused) : s.UserSlot i :=
  ⟨hi.1, hi.2.1, by rw [h.state]; exact hi.2.2⟩

theorem Slots.not_userSlot {f : ℕ → TaskState} {i : ℕ} (h : Slots s f) (hi : f i = .unused) :
    ¬s.UserSlot i :=
  fun hslot => hslot.2.2 ((h.state i).trans hi)

/-- The shell starts the program. -/
theorem Slots.run (h : Slots s bootSlots) (hcur : s.currentTask = 1)
    (hs : ImageMachine programImage s g v)
    (hclean : Clean s.trace) :
    ∃ s', SpaceStep s s' ∧ Slots s' startedSlots ∧ s'.currentTask = 1 := by
  have hfit : ArgsFit [text "prog.bin"] := by
    unfold ArgsFit
    decide
  have hslot : findFreeSlot s.processTable = some 2 := by
    unfold findFreeSlot
    simp only [h.state]
    decide
  have hexec : s.Executing := h.executing (by rw [hcur]; rfl)
  obtain ⟨t, hprogram, htclean, hstack⟩ := hs.execProgram hclean hslot hfit
  have htcur : t.currentTask = 1 :=
    ((processBlind_currentTask.execProgram _).ok hprogram).trans hcur
  have htstate : ∀ i, (t.processTable i).state = if i = 2 then .running else bootSlots i := by
    intro i
    rcases execProgram_installs hprogram with ⟨-, hnone⟩ | ⟨_, _, -, -, hinstalls⟩
    · cases hnone
    · cases hinstalls with
      | started _ htable =>
          rw [htable]
          by_cases h2 : i = 2
          · rw [h2, Function.update_self, if_pos rfl]
            rfl
          · rw [Function.update_of_ne h2, if_neg h2, h.state]
  obtain ⟨w, hw⟩ : ∃ w : Machine, w = { t with
      processTable := Function.update t.processTable t.currentTask
        { t.processTable t.currentTask with state := .waiting } } := ⟨_, rfl⟩
  have hrun : runCommand [text "prog.bin"] s = .ok true w := by
    unfold runCommand
    rw [bind_of_ok hprogram, hw]
    rfl
  have hstate : ∀ i, (w.processTable i).state = startedSlots i := by
    intro i
    rw [hw, htcur]
    by_cases h1 : i = 1
    · simp [h1, startedSlots]
    · simp only [Function.update_of_ne h1, htstate]
      unfold bootSlots startedSlots
      grind
  have hreached : w.StacksReached := by
    intro i hi
    have h2 : i = 2 := by
      have hused := hi.2.2
      rw [hstate] at hused
      unfold startedSlots at hused
      have := hi.1
      grind
    rw [h2, hw, htcur]
    exact hstack
  have hstep : SpaceStep s w := .run _ hcur hexec (hs.readsFile hclean []) hfit hrun
    (by rw [hw]; exact htclean) hreached
  refine ⟨w, hstep, ⟨h.table.step hstep.kernelStep, ?_, hstate⟩, by rw [hw]; exact htcur⟩
  rw [hw]
  exact ((processBlind_multitaskingEnabled.execProgram _).ok hprogram).trans h.enabled

/-- The program exits. -/
theorem Slots.exit (h : Slots s startedSlots) (hcur : s.currentTask = 2) :
    SpaceStep s (sysExit s) ∧ Slots (sysExit s) exitedSlots := by
  have hstep : SpaceStep s (sysExit s) :=
    .exit (by omega) (h.executing (by rw [hcur]; rfl))
  refine ⟨hstep, h.table.step hstep.kernelStep, h.enabled, fun i => ?_⟩
  have hwait : (s.processTable 1).state = .waiting := h.state 1
  unfold sysExit exitedSlots
  rw [if_pos hwait, hcur]
  by_cases h2 : i = 2
  · simp [h2]
  · by_cases h1 : i = 1
    · simp [h1]
    · simp only [Function.update_of_ne h2, Function.update_of_ne h1, h.state]
      unfold startedSlots
      grind

/-- The shell reaps it. -/
theorem Slots.kill (h : Slots s exitedSlots) (hcur : s.currentTask = 1) (hs : Spaced s g v) :
    ∃ s', SpaceStep s s' ∧ Slots s' bootSlots := by
  have hzombie : (s.processTable 2).state = .zombie := h.state 2
  have hslot : s.UserSlot 2 := ⟨by omega, by decide, by rw [hzombie]; decide⟩
  obtain ⟨m, p, hrun⟩ := hs.reap_total hcur hslot
  have hatoi : atoi (text "2") = 2 := by decide
  have hkill : killCommand (text "2") s = .ok () { s with
      mem := m, pmm := p, processTable := Function.update s.processTable 2 {} } := by
    unfold killCommand
    simp only [hatoi]
    rw [if_pos (by decide), bind_of_ok (get_apply s)]
    change (if (s.processTable 2).state = .zombie then reap 2 else pure ()) s = _
    rw [if_pos hzombie]
    exact hrun
  have hstep := SpaceStep.kill (text "2") hcur (h.executing (by rw [hcur]; rfl)) hkill
  refine ⟨_, hstep, h.table.step hstep.kernelStep, h.enabled, fun i => ?_⟩
  by_cases h2 : i = 2
  · simp [h2, bootSlots]
  · simp only [Function.update_of_ne h2, h.state]
    unfold exitedSlots bootSlots
    grind

/-! ## From power on -/

/-- The kernel that ends at 128 KiB, on the disk with the program, in empty memory. -/
structure FirstBoot (s : Machine) : Prop where
  boot : bootProcesses (fun _ => 0#32) 131072 0x1000 0x2000
    (kmainEntry (fun _ => 0) programFile.disk fun _ => 0) = .ok () s
  kernelOnly : KernelOnly s 33 ((List.range 4).map fun k => (33 + 6 + k) * 4096)
  machine : ∃ g v, ImageMachine programImage s g v
  current : s.currentTask = 0
  slots : ∀ i, (s.processTable i).state = bootSlots i

theorem exists_firstBoot : ∃ s, FirstBoot s := by
  have hfit : WindowsFit programFile.disk := ⟨bootDisk_fits.sector, bootDisk_fits.below⟩
  have hend : (131072 : UInt32).toNat + bitmapBytes memSize ≤ 761 * 4096 := by decide
  obtain ⟨s, hboot, honly⟩ := bootProcesses_kernelOnly (fun _ => 0) (fun _ => 0) (fun _ => 0#32)
    0x1000 0x2000 hend hfit
  rw [programFile.windowPages_disk] at honly
  obtain ⟨s₁, hkernel, hfs, hcaches⟩ :=
    bootKernel_fsState (fun _ => 0) (fun _ => 0) (fun _ => 0#32) hend hfit
  rw [programFile.windowPages_disk] at hfs
  have hinit := hboot
  unfold bootProcesses at hinit
  rw [bind_of_ok hkernel] at hinit
  have hvolume : FileVolume programFile s₁ := ⟨hfs, hcaches⟩
  obtain ⟨hcur, root, stackA, stackB, htable⟩ := processInit_table hinit
  refine ⟨s, hboot, honly, hvolume.imageMachine.processInit (by decide) hinit, hcur, fun i => ?_⟩
  rw [htable]
  unfold bootSlots
  by_cases h1 : i = 1
  · simp [h1, kernelTask]
  · by_cases h0 : i = 0
    · simp [h0, kernelTask]
    · simp [h0, h1, show ¬i < 2 by omega]

/-- The scheduler is turned on and selects the shell. -/
theorem FirstBoot.shell {s₀ : Machine} (h : FirstBoot s₀) (c : Context) :
    ∃ s g v, Relation.ReflTransGen SpaceStep s₀ s ∧ Slots s bootSlots ∧ s.currentTask = 1 ∧
      ImageMachine programImage s g v ∧ s.trace = [] := by
  obtain ⟨g, v, hs⟩ := h.machine
  obtain ⟨_, _, hspaced, -⟩ := h.kernelOnly.spaced
  have hslots : Slots { s₀ with multitaskingEnabled := true } bootSlots :=
    ⟨hspaced.table.step (SpaceStep.enable s₀).kernelStep, rfl, h.slots⟩
  obtain ⟨hslots', hcur⟩ := hslots.timer (by intro i; unfold bootSlots; split <;> decide) c
  have hnext : selectTask (fun i => { state := bootSlots i }) 0 = 1 := by decide
  have hcur : (timerInterrupt c { s₀ with multitaskingEnabled := true }).2.currentTask = 1 :=
    hcur.trans (by rw [h.current]; exact hnext)
  have hsteps : Relation.ReflTransGen SpaceStep s₀
      (timerInterrupt c { s₀ with multitaskingEnabled := true }).2 :=
    (Relation.ReflTransGen.single (.enable s₀)).tail (.timer c _)
  -- The shell uses the directory that the idle task used.
  obtain ⟨_, _, hspaced', -⟩ := h.kernelOnly.steps hsteps
  have hcr3 := (hspaced'.kernelHeap hcur).cr3.trans hspaced'.space.root_eq.symm
  obtain ⟨table, current, tick, esp0, cr3, stack, heq⟩ :=
    timerInterrupt_tasks c { s₀ with multitaskingEnabled := true }
  rw [heq] at hsteps hslots' hcur hcr3
  have hroot : cr3 = s₀.cr3 :=
    hcr3.trans (hs.kernelHeap.space.root_eq.trans hs.kernelHeap.cr3.symm)
  subst hroot
  exact ⟨_, g, v, hsteps.tail (.forget _), ⟨hslots'.table.step (SpaceStep.forget _).kernelStep,
    rfl, hslots'.state⟩, hcur, hs.of_tasks, rfl⟩

/-- The program runs and is gone again: a run from power on with a start, an exit and a zombie
that is reaped. -/
theorem FirstBoot.run {s₀ : Machine} (h : FirstBoot s₀) (c : Context) :
    ∃ s₁ s₂, Relation.ReflTransGen SpaceStep s₀ s₁ ∧ Slots s₁ startedSlots ∧ s₁.currentTask = 2 ∧
      Relation.ReflTransGen SpaceStep s₁ s₂ ∧ Slots s₂ bootSlots := by
  obtain ⟨s, g, v, hsteps, hslots, hcur, hs, htrace⟩ := h.shell c
  have hstarted : ∀ i, startedSlots i ≠ .sleeping := by
    intro i
    unfold startedSlots
    split <;> [decide; split <;> decide]
  have hexited : ∀ i, exitedSlots i ≠ .sleeping := by
    intro i
    unfold exitedSlots
    split <;> [decide; split <;> decide]
  obtain ⟨t, hrun, ht, htcur⟩ := hslots.run hcur hs (by rw [htrace]; exact clean_nil)
  obtain ⟨hprogram, hcur₁⟩ := ht.timer hstarted c
  have hcur₁ : (timerInterrupt c t).2.currentTask = 2 := by
    rw [hcur₁, htcur]
    decide
  have hsteps₁ := (hsteps.tail hrun).tail (.timer c t)
  obtain ⟨hexit, hzombie⟩ := hprogram.exit hcur₁
  obtain ⟨hidle, hcur₂⟩ := hzombie.timer hexited c
  obtain ⟨hshell, hcur₃⟩ := hidle.timer hexited c
  have hcur₃ : (timerInterrupt c (timerInterrupt c (sysExit (timerInterrupt c t).2)).2).2.currentTask
      = 1 := by
    rw [hcur₃, hcur₂]
    change selectTask _ (selectTask _ (timerInterrupt c t).2.currentTask) = 1
    rw [hcur₁]
    decide
  have hback := ((Relation.ReflTransGen.single hexit).tail (.timer c _)).tail (.timer c _)
  obtain ⟨_, _, hspaced, -⟩ := h.kernelOnly.steps (hsteps₁.trans hback)
  obtain ⟨s₂, hkill, hs₂⟩ := hshell.kill hcur₃ hspaced
  exact ⟨_, s₂, hsteps₁, hprogram, hcur₁, hback.tail hkill, hs₂⟩

end MyOS
