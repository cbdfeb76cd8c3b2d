import MyOS.Verification.Lifecycle.Steps

/-! Runs of address spaces: a zombie is reaped, a program is started, a user task writes. Each
step keeps a layout of the memory, and with it every run does. -/

namespace MyOS

open Effect X86Paging

variable {s s' : Machine} {g : Layout} {v : HeapView}

/-- Heap start and windows of a layout stay where they are. -/
structure Layout.SameKernel (g g' : Layout) : Prop where
  heapPage : g'.heapPage = g.heapPage
  windows : g'.windows = g.windows

/-! ## Reaping -/

theorem HeapInvariant.of_slots {s' : Machine} (hh : HeapInvariant s g v) {m : ByteMemory} {p : Pmm}
    {table : ℕ → Task} (hs' : s' = { s with mem := m, pmm := p, processTable := table })
    (hkept : HeapKept g s.mem m) {g' : Layout} (hpage : g'.heapPage = g.heapPage)
    (hheap : g'.heap = g.heap) (hwindows : g'.windows = g.windows) : HeapInvariant s' g' v := by
  have hdone : HeapInvariant { s with mem := m, pmm := p, processTable := table } g v :=
    hh.of_kept rfl rfl rfl hkept
  rw [hs']
  exact hdone.of_layout hpage hheap hwindows

/-- Reaping a slot comes to its end. -/
theorem Spaced.reap_total (h : Spaced s g v) (hcur : s.currentTask = 1) {pid : ℕ}
    (hpid : s.UserSlot pid) :
    ∃ m p, MyOS.reap pid s = .ok () { s with
      mem := m, pmm := p, processTable := Function.update s.processTable pid {} } := by
  obtain ⟨⟨sp, hsp, hdir, hrange⟩, -⟩ := h.user pid hpid
  obtain ⟨t, ht⟩ := h.space.valid.temp_some pid sp hsp
  obtain ⟨m, p, hfree, -⟩ :=
    h.space.pagingFreeDirectory_spec (.inl (h.kernelHeap hcur).cr3) hsp ht hrange
  refine ⟨m, pmmFreeFrame p (s.processTable pid).kernelStack, ?_⟩
  unfold MyOS.reap
  rw [bind_of_ok (get_apply s), ← hdir, bind_of_ok hfree]
  rfl

/-- The slot of a zombie is emptied: its directory with all that it leads to and its kernel
stack are given back. -/
theorem Spaced.reap (h : Spaced s g v) (hcur : s.currentTask = 1) {pid : ℕ}
    (hpid : s.UserSlot pid) (hne : pid ≠ s.currentTask) (htable : TableInvariant s')
    (hrun : reap pid s = .ok () s') : Spaced s' ((g.dropSpace pid).dropStack pid) v := by
  obtain ⟨⟨sp, hsp, hdir, hrange⟩, hstack⟩ := h.user pid hpid
  obtain ⟨t, ht⟩ := h.space.valid.temp_some pid sp hsp
  obtain ⟨m, p, hfree, hspace, hkept⟩ :=
    h.space.pagingFreeDirectory_spec (.inl (h.kernelHeap hcur).cr3) hsp ht hrange
  have hdropped := hspace.dropStack (i := pid) hstack
  unfold MyOS.reap at hrun
  rw [bind_of_ok (get_apply s), ← hdir, bind_of_ok hfree] at hrun
  obtain rfl : s' = { s with
      mem := m, pmm := pmmFreeFrame p (s.processTable pid).kernelStack
      processTable := Function.update s.processTable pid {} } :=
    (EStateM.Result.ok.inj hrun).2.symm
  have hother : ∀ i, i ≠ pid → Function.update s.processTable pid {} i = s.processTable i :=
    fun i hi => Function.update_of_ne hi _ _
  have hslot : ∀ i, Machine.UserSlot { s with
      mem := m, pmm := pmmFreeFrame p (s.processTable pid).kernelStack
      processTable := Function.update s.processTable pid {} } i ↔ s.UserSlot i ∧ i ≠ pid := by
    intro i
    unfold Machine.UserSlot
    by_cases hi : i = pid
    · simp [hi]
    · simp [hi]
  refine ⟨htable, hdropped.same rfl rfl rfl rfl,
    h.heap.of_slots rfl hkept rfl rfl rfl, ?_, ?_, ?_, ?_,
    h.keeps_stacks (hdropped.same rfl rfl rfl rfl) rfl ?_, ?_, h.tidy⟩
  · change s.cr3 = (Function.update s.processTable pid {} s.currentTask).pageDirectory
    rw [hother _ hne.symm]
    exact h.active
  · intro i hi hused
    by_cases hip : i = pid
    · simp [hip]
    · simp only [hother i hip] at hused ⊢
      exact h.saved i hi hused
  · intro i hi
    have hip : i ≠ pid := by
      have := hpid.1
      omega
    simp only [hother i hip]
    exact h.kernel i hi
  · intro i hi
    obtain ⟨hi, hip⟩ := (hslot i).mp hi
    obtain ⟨⟨sp', hsp', hdir', hrange'⟩, hstack'⟩ := h.user i hi
    simp only [hother i hip]
    refine ⟨⟨sp', ?_, hdir', hrange'⟩, ?_⟩
    · exact (Function.update_of_ne hip _ _).trans hsp'
    · exact (Function.update_of_ne hip _ _).trans hstack'
  · intro i hi
    obtain ⟨hi, hip⟩ := (hslot i).mp hi
    exact ⟨hi, congrArg Task.kernelStack (hother i hip)⟩
  · intro i hi
    by_cases hip : i = pid
    · rw [hip]
      exact ⟨Function.update_self _ _ _, Function.update_self _ _ _⟩
    · obtain ⟨hspace', hstack'⟩ := h.unused i fun hused => hi ((hslot i).mpr ⟨hused, hip⟩)
      exact ⟨(Function.update_of_ne hip _ _).trans hspace',
        (Function.update_of_ne hip _ _).trans hstack'⟩

/-- `kill` reaps one slot, or it does nothing. -/
theorem killCommand_reaps {arg : List UInt8} (hkill : killCommand arg s = .ok () s') :
    s' = s ∨ ∃ pid < maxProcesses, (s.processTable pid).state = .zombie ∧
      reap pid s = .ok () s' := by
  unfold killCommand at hkill
  by_cases hpid : 0 < atoi arg ∧ atoi arg < maxProcesses
  · simp only [if_pos hpid] at hkill
    rw [bind_of_ok (get_apply s)] at hkill
    by_cases hz : (s.processTable (atoi arg).toNat).state = .zombie
    · rw [if_pos hz] at hkill
      exact .inr ⟨(atoi arg).toNat, by omega, hz, hkill⟩
    · rw [if_neg hz] at hkill
      cases hkill
      exact .inl rfl
  · simp only [if_neg hpid] at hkill
    cases hkill
    exact .inl rfl

theorem Spaced.kill (h : Spaced s g v) {arg : List UInt8} (hcur : s.currentTask = 1)
    (hexec : s.Executing) (hkill : killCommand arg s = .ok () s') :
    ∃ g' v', Spaced s' g' v' ∧ g.SameKernel g' := by
  have htable := h.table.step (.kill arg hcur hexec hkill)
  rcases killCommand_reaps hkill with rfl | ⟨pid, hpid, hzombie, hrun⟩
  · exact ⟨g, v, h, rfl, rfl⟩
  · have hne : ∀ i, (s.processTable i).state ≠ .zombie → pid ≠ i := by
      rintro i hi rfl
      exact hi hzombie
    have h0 := hne 0 (by rw [h.table.idle_running]; decide)
    have h1 : pid ≠ 1 := by
      apply hne
      rcases h.table.shell_state with (hr | hs) | hw
      · rw [hr]; decide
      · rw [hs]; decide
      · rw [hw]; decide
    have hslot : s.UserSlot pid := ⟨by omega, hpid, by rw [hzombie]; decide⟩
    exact ⟨_, v, h.reap hcur hslot (by rw [hcur]; exact h1) htable hrun, rfl, rfl⟩

/-! ## Starting a program -/

theorem KernelHeap.of_shell (h : KernelHeap s g v) (table : ℕ → Task) :
    KernelHeap { s with processTable := table } g v :=
  h.same rfl rfl rfl rfl rfl rfl rfl rfl

/-- A program that is started takes a free slot with a new address space and a kernel stack; the
shell waits for it. -/
theorem Spaced.run (h : Spaced s g v) {argv : List (List UInt8)} (hcur : s.currentTask = 1)
    (hexec : s.Executing) (hfile : ReadsFile SeparateImage argv s) (hargs : ArgsFit argv)
    (hrun : runCommand argv s = .ok true s') (hclean : Clean s'.trace)
    (hreached : s'.StacksReached) : ∃ g' v', Spaced s' g' v' ∧ g.SameKernel g' := by
  have htable := h.table.step (.run argv true hcur hexec hrun)
  obtain ⟨r, t, hprogram, hrest⟩ := bind_eq_ok.mp hrun
  cases r with
  | none => cases hrest
  | some pid =>
      obtain rfl : { t with
          processTable := Function.update t.processTable t.currentTask
            { t.processTable t.currentTask with state := .waiting } } = s' :=
        (EStateM.Result.ok.inj hrest).2
      have hpid : pid < maxProcesses ∧ (s.processTable pid).state = .unused := by
        obtain ⟨x, hx⟩ := execProgram_stages hprogram
        obtain ⟨hslot, -⟩ := installTask_some hx.installs
        rw [hx.table] at hslot
        exact findFreeSlot_eq_some hslot
      have hfree : ¬s.UserSlot pid := fun hused => hused.2.2 hpid.2
      obtain ⟨hspace, hstack⟩ := h.unused pid hfree
      obtain ⟨frames, temp, sp, kernelStack, v', filename, entry, wakeupTime, -, hheap, hrange,
        hslots⟩ := (h.kernelHeap hcur).execProgram hprogram hclean hspace hstack hfile hargs
      have htcur : t.currentTask = 1 :=
        ((processBlind_currentTask.execProgram argv).ok hprogram).trans hcur
      have hused : ∀ i, i < 2 → pid ≠ i := by
        rintro i hi rfl
        have hunused := hpid.2
        obtain rfl | rfl : pid = 0 ∨ pid = 1 := by omega
        · rw [h.table.idle_running] at hunused
          cases hunused
        · rw [← hcur] at hunused
          exact h.table.current_used hunused
      have hp2 : 2 ≤ pid := by
        have := hused 0 (by omega)
        have := hused 1 (by omega)
        omega
      -- the slots after the shell has been put to wait
      let table := Function.update t.processTable t.currentTask
        { t.processTable t.currentTask with state := .waiting }
      have hself : table pid = newTask pid filename kernelStack sp.dir entry (argsPtr argv)
          wakeupTime := by
        simp only [table]
        rw [htcur, Function.update_of_ne (hused 1 (by omega)), hslots, Function.update_self]
      have hother : ∀ i, i ≠ pid → table i = { s.processTable i with state := (table i).state } ∧
          ((table i).state ≠ .unused ↔ (s.processTable i).state ≠ .unused) := by
        intro i hi
        simp only [table]
        rw [htcur, hslots]
        by_cases h1 : i = 1
        · have hshell := h.table.current_used
          rw [hcur] at hshell
          simp [h1, (hused 1 (by omega)).symm, hshell]
        · simp [h1, hi]
      have hslot : ∀ i, Machine.UserSlot { t with processTable := table } i ↔
          s.UserSlot i ∨ i = pid := by
        intro i
        unfold Machine.UserSlot
        by_cases hi : i = pid
        · simp [hi, hself, newTask, hp2, hpid.1]
        · simp [hi, (hother i hi).2]
      have hroot : t.cr3 = g.root := hheap.cr3
      refine ⟨g.addTask frames temp pid sp kernelStack, v', ⟨htable,
        hheap.space.same rfl rfl rfl rfl, (hheap.of_shell table).heap, ?_, ?_, ?_, ?_, hreached, ?_,
        h.tidy⟩, rfl, rfl⟩
      · change t.cr3 = (table t.currentTask).pageDirectory
        rw [hroot, htcur, (hother 1 (hused 1 (by omega)).symm).1]
        exact (h.kernel 1 (by omega)).symm
      · intro i hi hstate
        change (table i).cpuState.cr3 = (table i).pageDirectory
        by_cases hip : i = pid
        · rw [hip, hself]
          rfl
        · rw [(hother i hip).1]
          exact h.saved i hi ((hother i hip).2.mp hstate)
      · intro i hi
        change (table i).pageDirectory = g.root
        rw [(hother i (hused i hi).symm).1]
        exact h.kernel i hi
      · intro i hi
        change Layout.Backs _ i (table i)
        by_cases hip : i = pid
        · rw [hip, hself]
          exact ⟨⟨sp, Function.update_self _ _ _, rfl, hrange⟩, Function.update_self _ _ _⟩
        · obtain ⟨⟨sp', hsp', hdir', hrange'⟩, hstack'⟩ :=
            h.user i (((hslot i).mp hi).resolve_right hip)
          rw [(hother i hip).1]
          exact ⟨⟨sp', (Function.update_of_ne hip _ _).trans hsp', hdir', hrange'⟩,
            (Function.update_of_ne hip _ _).trans hstack'⟩
      · intro i hi
        have hip : i ≠ pid := fun hip => hi ((hslot i).mpr (.inr hip))
        obtain ⟨hspace', hstack'⟩ := h.unused i fun hused => hi ((hslot i).mpr (.inl hused))
        exact ⟨(Function.update_of_ne hip _ _).trans hspace',
          (Function.update_of_ne hip _ _).trans hstack'⟩

/-! ## User tasks -/

/-- The entries a directory has in common with the kernel's own are closed to ring 3. -/
theorem ActiveDir.not_user (h : KernelSpace s g) {dir k : ℕ} (hdir : ActiveDir s.mem g dir)
    (hk : k = 0 ∨ k = 1022 ∨ k = 1023) : ¬user (entry s.mem dir k) := by
  have haligned := h.valid.table0_aligned
  have hdiraligned := hdir.aligned
  unfold user
  rcases hk with rfl | rfl | rfl
  · rw [hdir.low]
    omega
  · rw [hdir.window]
    cases ht : g.temp with
    | none => simp [pte]
    | some t =>
        have := (h.frame_bounds (o := .temp) ht).1
        simp only [pte]
        omega
  · rw [hdir.self]
    omega

/-- An address that is open to ring 3 lies in a page of the process whose directory it is. -/
theorem KernelSpace.user_page (h : KernelSpace s g) {i : ℕ} {sp : Space} (hsp : g.space i = some sp)
    {va pa : ℕ} (hva : va < 2 ^ 32) (hacc : userAccessible s.mem sp.dir va)
    (htr : X86Paging.translate s.mem sp.dir va = some pa) :
    1 ≤ va / 2 ^ 22 ∧ va / 2 ^ 22 < 1022 ∧
      ∃ f, sp.page (va / 2 ^ 22) (va / 4096 % 1024) = some f ∧ pa = f + va % 4096 := by
  obtain ⟨-, huser, -, -⟩ := hacc
  have hdir := h.activeSpace hsp
  have hk : ∀ k, k = 0 ∨ k = 1022 ∨ k = 1023 → va / 2 ^ 22 ≠ k := by
    intro k hk heq
    rw [heq] at huser
    exact hdir.not_user h hk huser
  have h0 := hk 0 (by omega)
  have h1 := hk 1022 (by omega)
  have h2 := hk 1023 (by omega)
  have hspace : X86Paging.translate s.mem sp.dir va =
      (sp.page (va / 2 ^ 22) (va / 4096 % 1024)).map (· + va % 4096) :=
    h.translate_space hsp (by omega) (by omega)
  rw [htr] at hspace
  obtain ⟨f, hf, hpa⟩ := Option.map_eq_some_iff.mp hspace.symm
  exact ⟨by omega, by omega, f, hf, hpa.symm⟩

/-- A user task writes into its own pages only, so tables and heap stay as they are. -/
theorem Spaced.store (h : Spaced s g v) {va pa : ℕ} (b : UInt8) (hcur : 2 ≤ s.currentTask)
    (hva : va < 2 ^ 32) (hacc : userAccessible s.mem s.cr3 va)
    (htr : X86Paging.translate s.mem s.cr3 va = some pa)
    (htable : TableInvariant { s with mem := s.mem.set8 pa b }) :
    Spaced { s with mem := s.mem.set8 pa b } g v := by
  have hslot : s.UserSlot s.currentTask := ⟨hcur, h.table.current_lt, h.table.current_used⟩
  obtain ⟨sp, hsp, hdir, -⟩ := (h.user _ hslot).space
  rw [h.active, ← hdir] at hacc htr
  obtain ⟨-, -, f, hf, rfl⟩ := h.space.user_page hsp hva hacc htr
  have hown : g.Owns (.page s.currentTask (va / 2 ^ 22) (va / 4096 % 1024)) f := ⟨sp, hsp, hf⟩
  have hbytes : ∀ x, x < f ∨ f + 4096 ≤ x → s.mem.set8 (f + va % 4096) b x = s.mem x :=
    fun x hx => ByteMemory.set8_of_ne s.mem b (by omega)
  have hspace : KernelSpace { s with mem := s.mem.set8 (f + va % 4096) b } g := by
    refine h.space.of_bytes ?_
    intro r f' hf' o ho
    have hfa := (h.space.frame_bounds hown).1
    have hout := h.space.outside hown (by intro r; cases r <;> simp [Layout.roleOwner]) hf'
    exact hbytes _ (by omega)
  refine ⟨htable, hspace, ?_, h.active, h.saved, h.kernel, h.user,
    h.keeps_stacks hspace rfl fun i hi => ⟨hi, rfl⟩, h.unused, h.tidy⟩
  exact h.heap.of_kept rfl rfl rfl (h.space.heapKept hown (by simp) hbytes)

/-! ## Runs -/

theorem Spaced.step (h : Spaced s g v) (hstep : SpaceStep s s') :
    ∃ g' v', Spaced s' g' v' ∧ g.SameKernel g' := by
  have htable := h.table.step hstep.kernelStep
  cases hstep with
  | enable => exact ⟨g, v, h.of_flags htable, rfl, rfl⟩
  | forget => exact ⟨g, v, h.of_flags htable, rfl, rfl⟩
  | timer c => exact ⟨g, v, h.timer c, rfl, rfl⟩
  | run argv hcur hexec hfile hargs hrun hclean hreached =>
      exact h.run hcur hexec hfile hargs hrun hclean hreached
  | kill arg hcur hexec hkill => exact h.kill hcur hexec hkill
  | exit _ _ => exact ⟨g, v, h.exit htable, rfl, rfl⟩
  | sleep milliseconds _ _ => exact ⟨g, v, h.sleep milliseconds htable, rfl, rfl⟩
  | store va pa b hcur _ hva hacc htr => exact ⟨g, v, h.store b hcur hva hacc htr htable, rfl, rfl⟩

theorem Spaced.steps (h : Spaced s g v) (hrun : Relation.ReflTransGen SpaceStep s s') :
    ∃ g' v', Spaced s' g' v' ∧ g.SameKernel g' := by
  induction hrun with
  | refl => exact ⟨g, v, h, rfl, rfl⟩
  | tail _ hstep ih =>
      obtain ⟨g', v', h', hpage, hwindows⟩ := ih
      obtain ⟨g'', v'', h'', hpage', hwindows'⟩ := h'.step hstep
      exact ⟨g'', v'', h'', hpage'.trans hpage, hwindows'.trans hwindows⟩

/-! ## Where runs begin -/

/-- A machine on which only the kernel's own tasks exist. Its heap begins at page `page`, and the
windows of the file system have the frames `windows`. -/
structure KernelOnly (s : Machine) (page : ℕ) (windows : List ℕ) : Prop where
  spaced : ∃ g v, Spaced s g v ∧ g.heapPage = page ∧ g.windows = windows
  slots : ∀ i, ¬s.UserSlot i

theorem KernelOnly.steps {page : ℕ} {windows : List ℕ} (h : KernelOnly s page windows)
    (hrun : Relation.ReflTransGen SpaceStep s s') :
    ∃ g v, Spaced s' g v ∧ g.heapPage = page ∧ g.windows = windows := by
  obtain ⟨g, v, hspaced, hpage, hwindows⟩ := h.spaced
  obtain ⟨g', v', hspaced', hpage', hwindows'⟩ := hspaced.steps hrun
  exact ⟨g', v', hspaced', hpage'.trans hpage, hwindows'.trans hwindows⟩

end MyOS
