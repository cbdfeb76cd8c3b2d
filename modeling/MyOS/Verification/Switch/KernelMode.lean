import MyOS.Verification.Switch.UserMode

/-! Context switches and tasks interrupted in ring 0. `task_switch` stores the selected task's
stack pointer where an `iret` to ring 0 does not look, over two words of the interrupted
stack; a task gets its stack back only from an interrupt whose frame ends where the task was. -/

namespace MyOS

/-! ## The property -/

/-- The interrupt `c'` at `t` gives the task interrupted by `c` at `s` its stack back: the
stack pointer is the same, and so is what its own stack holds from there up. -/
def ResumesIntact (own : ℕ → Prop) (s : Machine) (c : Context) (t : Machine) (c' : Context) :
    Prop :=
  (timerInterrupt c' t).1.esp = c.esp ∧
    ∀ a, own a → c.esp ≤ a → (timerInterrupt c' t).2.stack a = s.stack a

/-- The words at the stack pointer are already what `task_switch` writes there when it selects
the task, as far as they belong to its stack. -/
structure WordsInPlace (own : ℕ → Prop) (c : Context) (s : Machine) : Prop where
  esp : own c.esp → s.stack c.esp = below c.esp 20
  ss : own (field c.esp 4) → c.esp ≤ field c.esp 4 → s.stack (field c.esp 4) = 0x10

/-- Where the frame of an interrupt ends for an `iret` to ring 0: at the stack pointer, or below
the two words more that an interrupt from ring 3 pushes. -/
def frameEnd (c : Context) (s : Machine) : ℕ :=
  if c.cs % 4 = 3 then below s.esp0 8 else field c.esp 0

/-- The rest of the stack of a task interrupted by `c`, behind these two words. -/
def Held (own : ℕ → Prop) (c : Context) (a : ℕ) : Prop :=
  own a ∧ c.esp ≤ a ∧ a ≠ c.esp ∧ a ≠ field c.esp 4

/-- No word of `registers_t`, as an interrupt lays it out, is one of these. -/
def Spares (held : ℕ → Prop) (c : Context) (s : Machine) : Prop :=
  ∀ m < 19, ¬held (field (irqEntry c s).1 (4 * m))

/-- A step that leaves alone what a task that is not current holds. -/
inductive SparingStep (held : ℕ → Prop) : Machine → Machine → Prop where
  | timer {s : Machine} (c : Context) : Spares held c s →
      SparingStep held s (timerInterrupt c s).2
  | task {s s' : Machine} : KernelStep s s' → s'.currentTask = s.currentTask →
      (∀ a, held a → s'.stack a = s.stack a) → SparingStep held s s'

/-- Such steps, during which slot `i` does not become current. -/
def StackRun (held : ℕ → Prop) (i : ℕ) : Machine → Machine → Prop :=
  Relation.ReflTransGen fun s s' => SparingStep held s s' ∧ s'.currentTask ≠ i

/-! ## What an interrupt writes -/

theorem foldl_moves_keeps (c : CpuState) (r : ℕ) (moves : List (ℕ × ℕ)) (stack : ℕ → ℕ) (a : ℕ)
    (h : ∀ move ∈ moves, field r move.2 = a → c.word move.1 = stack a) :
    moves.foldl (fun stack move => Function.update stack (field r move.2) (c.word move.1)) stack a =
      stack a := by
  induction moves generalizing stack with
  | nil => rfl
  | cons move moves ih =>
      have hfirst : Function.update stack (field r move.2) (c.word move.1) a = stack a := by
        by_cases ha : field r move.2 = a
        · rw [ha, Function.update_self]
          exact h move (by simp) ha
        · rw [Function.update_of_ne (Ne.symm ha)]
      rw [List.foldl_cons, ih _ ?_, hfirst]
      intro move' hmem ha
      rw [hfirst]
      exact h move' (by simp [hmem]) ha

theorem taskSwitch_stack (r : ℕ) (s : Machine) :
    (taskSwitch r s).stack =
      loadFrame ((taskSwitch r s).processTable (taskSwitch r s).currentTask).cpuState r
        s.stack := by
  have hsave : (saveCurrent r s).stack = s.stack := by
    unfold saveCurrent
    by_cases hz : (s.processTable s.currentTask).state ≠ .zombie
    · rw [if_pos hz]
    · rw [if_neg hz]
  rw [← hsave]
  rfl

theorem timer_stack_outside (c : Context) (s : Machine) {a : ℕ}
    (h : ∀ m < 19, a ≠ field (irqEntry c s).1 (4 * m)) :
    (timerInterrupt c s).2.stack a = s.stack a := by
  have hlen : (irqWords c (irqBase c s)).length ≤ 19 := by
    rw [irqWords_length]
    split <;> omega
  have hpush : pushWords s.stack (irqBase c s) (irqWords c (irqBase c s)) a = s.stack a := by
    apply pushWords_outside _ _ _ _ (by omega)
    intro k hk heq
    apply h ((irqWords c (irqBase c s)).length - 1 - k) (by omega)
    change a = field (below (irqBase c s) (4 * (irqWords c (irqBase c s)).length)) _
    rw [field_below (by omega) (by omega), heq]
    congr 1
    omega
  rw [timerInterrupt_eq]
  by_cases hm : s.multitaskingEnabled = true
  · rw [if_pos hm, taskSwitch_stack, loadFrame, foldl_moves_keeps]
    · exact hpush
    · intro move hmove heq
      have hdst : ∀ m ∈ switchMoves, ∃ k < 19, m.2 = 4 * k := by decide
      obtain ⟨k, hk, hdst⟩ := hdst move hmove
      rw [hdst] at heq
      exact absurd heq.symm (h k hk)
  · rw [if_neg hm]
    exact hpush

theorem Spares.stack_eq {held : ℕ → Prop} {c : Context} {s : Machine} (h : Spares held c s) {a : ℕ}
    (ha : held a) : (timerInterrupt c s).2.stack a = s.stack a := by
  apply timer_stack_outside c s
  rintro m hm rfl
  exact h m hm ha

theorem field_frameEnd (c : Context) (s : Machine) :
    field (irqEntry c s).1 regsUseresp = frameEnd c s ∧
      field (irqEntry c s).1 regsSs = field (frameEnd c s) 4 := by
  change field (below (irqBase c s) (4 * (irqWords c (irqBase c s)).length)) 68 = _ ∧
    field (below (irqBase c s) (4 * (irqWords c (irqBase c s)).length)) 72 = _
  rw [irqWords_length]
  unfold irqBase frameEnd
  by_cases h : c.cs % 4 = 3
  · simp only [if_pos h]
    unfold field below
    omega
  · simp only [if_neg h]
    unfold field below
    omega

theorem frameEnd_kernel {c : Context} (s : Machine) (hcs : c.cs = 0x08) (hlt : c.esp < 2 ^ 32) :
    frameEnd c s = c.esp := by
  unfold frameEnd
  rw [if_neg (by rw [hcs]; decide)]
  exact Nat.mod_eq_of_lt hlt

theorem irqReturn_esp {c : Context} {s : Machine} {cpu : CpuState}
    (h : FrameHolds (timerInterrupt c s).2 (irqEntry c s).1 cpu) (hcs : cpu.cs = 0x08) :
    (timerInterrupt c s).1.esp = frameEnd c s := by
  have hsel : (timerInterrupt c s).2.stack (field (irqEntry c s).1 regsCs) = 0x08 := h.cs.trans hcs
  change (if (timerInterrupt c s).2.stack (field (irqEntry c s).1 regsCs) % 4 = 3 then _
    else field (irqEntry c s).1 regsUseresp) = _
  rw [hsel, if_neg (by decide)]
  exact (field_frameEnd c s).1

/-! ## Runs -/

theorem StackRun.kept {held : ℕ → Prop} {i pageDirectory : ℕ} {cpu : CpuState} {s t : Machine}
    (hrun : StackRun held i s t) (hne : s.currentTask ≠ i)
    (hparked : Parked i cpu pageDirectory s) :
    Parked i cpu pageDirectory t ∧ t.currentTask ≠ i ∧ ∀ a, held a → t.stack a = s.stack a := by
  induction hrun with
  | refl => exact ⟨hparked, hne, fun _ _ => rfl⟩
  | tail _ hstep ih =>
      obtain ⟨hp, hn, hstack⟩ := ih
      obtain ⟨hspares, hother⟩ := hstep
      cases hspares with
      | timer c hframe =>
          refine ⟨hp.timer (Ne.symm hn) c, hother, ?_⟩
          intro a ha
          rw [hframe.stack_eq ha, hstack a ha]
      | task hkernel _ hkeeps =>
          refine ⟨hp.step (Ne.symm hn) hkernel, hother, ?_⟩
          intro a ha
          rw [hkeeps a ha, hstack a ha]

/-- A frame with the state saved for an interrupted task gives the task its stack back if and only
if it ends where the task was and the words there are the right ones. -/
theorem resumesIntact_iff {own : ℕ → Prop} {s t : Machine} {c c' : Context} {cpu : CpuState}
    (hframe : FrameHolds (timerInterrupt c' t).2 (irqEntry c' t).1 cpu)
    (hcpu : cpu.cs = 0x08 ∧ cpu.esp = below c.esp 20 ∧ cpu.ss = 0x10)
    (hspares : Spares (Held own c) c' t) (hheld : ∀ a, Held own c a → t.stack a = s.stack a) :
    ResumesIntact own s c t c' ↔ WordsInPlace own c s ∧ frameEnd c' t = c.esp := by
  obtain ⟨hcs, hesp, hss⟩ := hcpu
  obtain ⟨hend, hend4⟩ := field_frameEnd c' t
  have hreturn := irqReturn_esp hframe hcs
  have hword : (timerInterrupt c' t).2.stack (frameEnd c' t) = below c.esp 20 := by
    rw [← hend, hframe.useresp, hesp]
  have hword4 : (timerInterrupt c' t).2.stack (field (frameEnd c' t) 4) = 0x10 := by
    rw [← hend4, hframe.ss, hss]
  constructor
  · rintro ⟨hback, hstack⟩
    have hat : frameEnd c' t = c.esp := hreturn.symm.trans hback
    rw [hat] at hword hword4
    refine ⟨⟨?_, ?_⟩, hat⟩
    · intro hown
      rw [← hstack _ hown (Nat.le_refl _), hword]
    · intro hown hle
      rw [← hstack _ hown hle, hword4]
  · rintro ⟨hwords, hat⟩
    refine ⟨hreturn.trans hat, ?_⟩
    intro a hown hle
    rw [hat] at hword hword4
    by_cases h0 : a = c.esp
    · rw [h0] at hown ⊢
      rw [hword, hwords.esp hown]
    by_cases h4 : a = field c.esp 4
    · rw [h4] at hown hle ⊢
      rw [hword4, hwords.ss hown hle]
    have ha : Held own c a := ⟨hown, hle, h0, h4⟩
    rw [hspares.stack_eq ha, hheld a ha]

/-- When tasks interrupted in ring 0 get their stacks back: by the interrupt that saves them, or by
a later one, after any steps that leave alone what lies behind the two words. -/
structure KernelSwitchSpec (own : ℕ → Prop) : Prop where
  same_interrupt : ∀ s c, s.multitaskingEnabled = true →
    (s.processTable s.currentTask).state ≠ .unused →
    (s.processTable s.currentTask).state ≠ .zombie → c.cs = 0x08 → c.esp < 2 ^ 32 →
    Spares (Held own c) c s → (timerInterrupt c s).2.currentTask = s.currentTask →
    (ResumesIntact own s c s c ↔ WordsInPlace own c s)
  later_interrupt : ∀ s c t c', s.multitaskingEnabled = true →
    (s.processTable s.currentTask).state ≠ .unused →
    (s.processTable s.currentTask).state ≠ .zombie → c.cs = 0x08 → c.esp < 2 ^ 32 →
    Spares (Held own c) c s → (timerInterrupt c s).2.currentTask ≠ s.currentTask →
    StackRun (Held own c) s.currentTask (timerInterrupt c s).2 t → t.multitaskingEnabled = true →
    Spares (Held own c) c' t → (timerInterrupt c' t).2.currentTask = s.currentTask →
    (ResumesIntact own s c t c' ↔ WordsInPlace own c s ∧ frameEnd c' t = c.esp)

/-- In every run that spares its stack, a task interrupted in ring 0 gets it back if and only if the
interrupt that selects it ends its frame where the task was, and the two words there are in
place. -/
theorem kernel_switch_spec (own : ℕ → Prop) : KernelSwitchSpec own := by
  refine ⟨?_, ?_⟩
  · intro s c hm _ halive hcs hlt hspares hsel
    have hframe := timer_frame c s hm
    rw [hsel, timer_saves c hm halive] at hframe
    rw [resumesIntact_iff hframe (savedState_kernel hcs s _) hspares fun _ _ => rfl]
    exact and_iff_left (frameEnd_kernel s hcs hlt)
  · intro s c t c' hm hused halive hcs _ hspares hother hrun hmt hspares' hsel
    obtain ⟨hparked, hne, hstack⟩ := hrun.kept hother (parked_of_interrupt c hm hused halive)
    refine resumesIntact_iff (hparked.frame hne c' hmt hsel) (savedState_kernel hcs s _) hspares' ?_
    intro a ha
    rw [hstack a ha, hspares.stack_eq ha]

/-- The page of stack that ends below `0x51000`. -/
def lastStackPage (a : ℕ) : Prop := 0x50000 ≤ a ∧ a < 0x51000

/-- The idle task and two user tasks. The idle task runs on the kernel stack of the second one, two
words below its end, since it was resumed by an interrupt of that task. -/
def idleBetween : Machine :=
  { kmainEntry (fun _ => 0) (fun _ _ => 0) (fun a => if a = 0x50FF8 then 0x50FE4 else 0x10) with
    processTable := Function.update (Function.update (Function.update (fun _ => {}) 0
      (kernelTask 0 [105, 100, 108, 101] 0x12000 0x1000 0x20000)) 2
      (newTask 2 [65] 0x40000 0x60000 0x400000 0xBFFFFFF0 0)) 3
      (newTask 3 [66] 0x50000 0x70000 0x400000 0xBFFFFFF0 0)
    multitaskingEnabled := true }

def idleContext : Context := kernelContext 0x50FF8

def firstUser : Machine := (timerInterrupt idleContext idleBetween).2

def secondUser : Machine := (timerInterrupt userContext firstUser).2

/-- The idle task is interrupted, the two user tasks have their turns, and it goes on where it
was. -/
theorem kernel_switch_spec_idle :
    ResumesIntact lastStackPage idleBetween idleContext secondUser userContext := by
  have hidle : (irqEntry idleContext idleBetween).1 = 0x50FB4 := by decide
  have hfirst : (irqEntry userContext firstUser).1 = 0x40FB4 := by decide
  have hsecond : (irqEntry userContext secondUser).1 = 0x50FB4 := by decide
  have hheld : ∀ a, Held lastStackPage idleContext a →
      0x50FF8 ≤ a ∧ a < 0x51000 ∧ a ≠ 0x50FF8 ∧ a ≠ 0x50FFC :=
    fun a ha => ⟨ha.2.1, ha.1.2, ha.2.2⟩
  have hspares : ∀ c s, (irqEntry c s).1 = 0x50FB4 ∨ (irqEntry c s).1 = 0x40FB4 →
      Spares (Held lastStackPage idleContext) c s := by
    intro c s hframe m hm ha
    have hbounds := hheld _ ha
    unfold field at hbounds
    omega
  have hrun : StackRun (Held lastStackPage idleContext) idleBetween.currentTask firstUser
      secondUser :=
    .single ⟨.timer userContext (hspares _ _ (.inr hfirst)), by decide⟩
  have hwords : WordsInPlace lastStackPage idleContext idleBetween :=
    ⟨fun _ => by decide, fun _ _ => by decide⟩
  exact ((kernel_switch_spec lastStackPage).later_interrupt idleBetween idleContext secondUser
    userContext rfl (by decide) (by decide) rfl (by decide) (hspares _ _ (.inl hidle)) (by decide)
    hrun (by decide) (hspares _ _ (.inl hsecond)) (by decide)).mpr ⟨hwords, by decide⟩

def stackPage (i a : ℕ) : Prop := 0x20000 + 0x1000 * i ≤ a ∧ a < 0x21000 + 0x1000 * i

/-- The idle task and the shell as `process_init` leaves them. -/
def kernelTasks : Machine :=
  { kmainEntry (fun _ => 0) (fun _ _ => 0) (fun _ => 0) with
    processTable := Function.update
      (Function.update (fun _ => {}) 0 (kernelTask 0 [105, 100, 108, 101] 0x12000 0x1000 0x20000)) 1
      (kernelTask 1 [115, 104, 101, 108, 108] 0x12000 0x2000 0x21000)
    multitaskingEnabled := true }

/-- The idle task is interrupted at `0x20F00`; the shell starts on that very stack instead of
its own, and is interrupted a few words further down; the idle task then resumes there and not
where it was. -/
theorem kernel_switch_loses_stack :
    kernelTasks.Executing ∧ (kernelContext 0x20F00).cs = 0x08 ∧
      (timerInterrupt (kernelContext 0x20F00) kernelTasks).2.currentTask = 1 ∧
      (timerInterrupt (kernelContext 0x20F00) kernelTasks).1.esp = 0x20F00 ∧
      (timerInterrupt (kernelContext 0x20EC0)
        (timerInterrupt (kernelContext 0x20F00) kernelTasks).2).2.currentTask = 0 ∧
      ¬ResumesIntact (stackPage 0) kernelTasks (kernelContext 0x20F00)
        (timerInterrupt (kernelContext 0x20F00) kernelTasks).2 (kernelContext 0x20EC0) := by
  have hesp : (timerInterrupt (kernelContext 0x20EC0)
      (timerInterrupt (kernelContext 0x20F00) kernelTasks).2).1.esp = 0x20EC0 := by decide
  refine ⟨.inl rfl, rfl, by decide, by decide, by decide, ?_⟩
  intro h
  have hlost := h.1
  rw [hesp] at hlost
  exact absurd hlost (by decide)

end MyOS
