import MyOS.Verification.Lifecycle.Frames
import MyOS.Verification.Syscall.Print

/-! Isolation over whole process lifecycles: what ring 3 can reach through the directory of a
process, and what all directories have in common. -/

namespace MyOS

open X86Paging Ownership

/-- Ring 3 reaches physical address `pa` at `va` through the directory of slot `i`. -/
def Machine.UserReaches (s : Machine) (i va pa : ℕ) : Prop :=
  s.UserSlot i ∧ va < 2 ^ 32 ∧ userAccessible s.mem (s.processTable i).pageDirectory va ∧
    X86Paging.translate s.mem (s.processTable i).pageDirectory va = some pa

/-- Frames the kernel holds for itself. -/
def Machine.kernelFrames (s : Machine) (page : ℕ) (windows : List ℕ) : List ℕ :=
  (List.range (page + 5)).map (4096 * ·) ++ s.heapFrames page ++ windows ++ s.windowTable

/-- The contract of the address spaces in one state of a run. Entries 0 and 768 to 1022 of a
directory are the kernel's. -/
structure SpacesIsolated (s : Machine) (page : ℕ) (windows : List ℕ) : Prop where
  /-- Two addresses share a frame only when they lie on one page of one process. -/
  apart : ∀ i j va va' pa pa', s.UserReaches i va pa → s.UserReaches j va' pa' →
    frameOf pa = frameOf pa' → i = j ∧ va / 4096 = va' / 4096
  kernel : ∀ i va pa, s.UserReaches i va pa → frameOf pa ∉ s.kernelFrames page windows
  tables : ∀ i va pa, s.UserReaches i va pa → ∀ j, s.UserSlot j →
    frameOf pa ≠ (s.processTable j).pageDirectory ∧ frameOf pa ≠ (s.processTable j).kernelStack ∧
      ∀ k < 767, present (entry s.mem (s.processTable j).pageDirectory (k + 1)) →
        frameOf pa ≠ frameOf (entry s.mem (s.processTable j).pageDirectory (k + 1))
  shared : ∀ i, s.UserSlot i → ∀ k, k = 0 ∨ 768 ≤ k ∧ k < 1023 →
    entry s.mem (s.processTable i).pageDirectory k = entry s.mem s.kernelDirectory k
  self : ∀ i, s.UserSlot i → entry s.mem (s.processTable i).pageDirectory 1023 =
    (s.processTable i).pageDirectory + 3
  closed : ∀ i, s.UserSlot i → ∀ k, k = 0 ∨ 768 ≤ k ∧ k < 1024 →
    ¬user (entry s.mem (s.processTable i).pageDirectory k)
  /-- The kernel sees the same memory whichever process it interrupts. -/
  view : ∀ i, s.UserSlot i → ∀ va, va < 2 ^ 22 ∨ 768 * 2 ^ 22 ≤ va ∧ va < 1023 * 2 ^ 22 →
    X86Paging.translate s.mem (s.processTable i).pageDirectory va =
      X86Paging.translate s.mem s.kernelDirectory va
  /-- Whichever process runs, every kernel stack is there for an interrupt, and for nothing else. -/
  interruptible : ∀ i j, s.UserSlot i → s.UserSlot j → ∀ o < 4096,
    X86Paging.translate s.mem (s.processTable j).pageDirectory
        ((s.processTable i).kernelStack + o) = some ((s.processTable i).kernelStack + o) ∧
      ¬userAccessible s.mem (s.processTable j).pageDirectory ((s.processTable i).kernelStack + o)
  active : s.cr3 = (s.processTable s.currentTask).pageDirectory

variable {s : Machine} {g : Layout} {v : HeapView}

/-! ## What ring 3 reaches -/

/-- What ring 3 reaches is a page of the process. -/
theorem Spaced.reached (h : Spaced s g v) {i va pa : ℕ} (hr : s.UserReaches i va pa) :
    g.Owns (.page i (va / 2 ^ 22) (va / 4096 % 1024)) (frameOf pa) := by
  obtain ⟨hslot, hva, hacc, htr⟩ := hr
  obtain ⟨sp, hsp, hdir, -⟩ := (h.user i hslot).space
  rw [← hdir] at hacc htr
  obtain ⟨-, -, f, hf, rfl⟩ := h.space.user_page hsp hva hacc htr
  have haligned := (h.space.frame_bounds (o := .page i _ _) ⟨sp, hsp, hf⟩).1
  rw [frameOf_add haligned (by omega)]
  exact ⟨sp, hsp, hf⟩

theorem Spaced.apart (h : Spaced s g v) {i j va va' pa pa' : ℕ} (hr : s.UserReaches i va pa)
    (hr' : s.UserReaches j va' pa') (heq : frameOf pa = frameOf pa') :
    i = j ∧ va / 4096 = va' / 4096 := by
  have hown := h.reached hr
  rw [heq] at hown
  have hsame := h.space.exact.exclusive _ _ _ hown (h.reached hr')
  simp only [Owner.page.injEq] at hsame
  exact ⟨hsame.1, by omega⟩

/-- A frame of the kernel has an owner that is no process. -/
theorem Spaced.kernel_owner (h : Spaced s g v) {f : ℕ}
    (hf : f ∈ s.kernelFrames g.heapPage g.windows) : ∃ o : Owner, g.Owns o f ∧ o.slot = none := by
  unfold Machine.kernelFrames at hf
  rw [h.heapFrames_eq, h.windowTable_eq] at hf
  simp only [List.mem_append, List.mem_map, List.mem_range] at hf
  rcases hf with ((⟨k, hk, rfl⟩ | hheap) | hwindow) | htemp
  · exact ⟨.boot (4096 * k), ⟨rfl, Nat.mul_mod_right 4096 k, by omega⟩, rfl⟩
  · obtain ⟨k, hk⟩ := List.mem_iff_getElem?.mp hheap
    exact ⟨.heap k, hk, rfl⟩
  · obtain ⟨k, hk⟩ := List.mem_iff_getElem?.mp hwindow
    exact ⟨.window k, hk, rfl⟩
  · exact ⟨.temp, Option.mem_toList.mp htemp, rfl⟩

/-- A present entry of a process directory leads to a frame of the tables. -/
theorem Spaced.entry_frame (h : Spaced s g v) {i : ℕ} {sp : Space} (hsp : g.space i = some sp)
    {k : ℕ} (hk : k < 1024) (hp : present (entry s.mem sp.dir k)) :
    ∃ r, g.plan.frame r = some (frameOf (entry s.mem sp.dir k)) := by
  have hdir := h.space.activeSpace hsp
  by_cases h0 : k = 0
  · rw [h0, hdir.low, frameOf_add h.space.valid.table0_aligned (by omega)]
    exact ⟨.low, rfl⟩
  by_cases hwindow : k = 1022
  · rw [hwindow, hdir.window] at hp ⊢
    cases ht : g.temp with
    | none =>
        rw [ht] at hp
        exact absurd hp (by decide)
    | some t =>
        rw [pte, frameOf_add (h.space.frame_bounds (o := .temp) ht).1 (by omega)]
        exact ⟨.temp, ht⟩
  by_cases hself : k = 1023
  · rw [hself, hdir.self, frameOf_add hdir.aligned (by omega)]
    exact ⟨.dir i, by simp [Layout.plan, hsp]⟩
  · rw [h.space.dir_entry hsp (by omega) (by omega)] at hp ⊢
    cases htable : sp.table k with
    | none =>
        rw [htable] at hp
        exact absurd hp (by decide)
    | some f =>
        have hown : g.Owns (.table i k) f := ⟨sp, hsp, htable⟩
        rw [pte, frameOf_add (h.space.frame_bounds hown).1 (by omega)]
        exact ⟨.table i k, by simp [Layout.plan, hsp, htable]⟩

/-- No task sees its page tables. -/
theorem Spaced.hidesTables (h : Spaced s g v) (hcur : 2 ≤ s.currentTask) : s.HidesTables := by
  have hslot : s.UserSlot s.currentTask := ⟨hcur, h.table.current_lt, h.table.current_used⟩
  obtain ⟨⟨sp, hsp, hdir, -⟩, -⟩ := h.user _ hslot
  have hcr3 : s.cr3 = sp.dir := h.active.trans hdir.symm
  obtain ⟨haligned, hlt⟩ := h.space.frame_bounds (o := .dir s.currentTask) ⟨sp, hsp, rfl⟩
  refine ⟨h.space.paging, by rw [hcr3]; exact haligned, by rw [hcr3]; omega, ?_⟩
  rintro va pa ⟨hva, hacc, htr⟩ hin
  have hpage := h.reached ⟨hslot, hva, by rw [← h.active]; exact hacc, by rw [← h.active]; exact htr⟩
  have hout : ∀ r f, g.plan.frame r = some f → f % 4096 = 0 → ¬(f ≤ pa ∧ pa < f + 4096) := by
    intro r f hf hfa
    have := h.space.outside hpage (by intro r; cases r <;> simp [Layout.roleOwner]) hf
    unfold frameOf at this
    omega
  rw [hcr3] at hin
  rcases hin with hin | ⟨k, hk, hp, hin⟩
  · exact hout (.dir s.currentTask) sp.dir (by simp [Layout.plan, hsp]) haligned hin
  · obtain ⟨r, hr⟩ := h.entry_frame hsp hk hp
    exact hout r _ hr (h.space.frame_bounds (h.space.valid.owns_role hr)).1 hin

theorem Spaced.not_kernel (h : Spaced s g v) {i va pa : ℕ} (hr : s.UserReaches i va pa) :
    frameOf pa ∉ s.kernelFrames g.heapPage g.windows := by
  intro hmem
  obtain ⟨o, ho, hslot⟩ := h.kernel_owner hmem
  have hsame := h.space.exact.exclusive _ _ _ ho (h.reached hr)
  rw [hsame] at hslot
  cases hslot

theorem Spaced.not_table (h : Spaced s g v) {i va pa j : ℕ} (hr : s.UserReaches i va pa)
    (hj : s.UserSlot j) :
    frameOf pa ≠ (s.processTable j).pageDirectory ∧ frameOf pa ≠ (s.processTable j).kernelStack ∧
      ∀ k < 767, present (entry s.mem (s.processTable j).pageDirectory (k + 1)) →
        frameOf pa ≠ frameOf (entry s.mem (s.processTable j).pageDirectory (k + 1)) := by
  have hown := h.reached hr
  obtain ⟨⟨sp, hsp, hdir, -⟩, hstack⟩ := h.user j hj
  have hexact := h.space.exact
  refine ⟨?_, ?_, ?_⟩
  · rw [← hdir]
    exact hexact.ne_of_owner_ne hown (show g.Owns (.dir j) sp.dir from ⟨sp, hsp, rfl⟩) (by simp)
  · exact hexact.ne_of_owner_ne hown (show g.Owns (.stack j) _ from hstack) (by simp)
  · intro k hk hp
    rw [← hdir, h.space.dir_entry hsp (by omega) (by omega)] at hp ⊢
    cases htable : sp.table (k + 1) with
    | none =>
        rw [htable] at hp
        exact absurd hp (by decide)
    | some f =>
        have hf : g.Owns (.table j (k + 1)) f := ⟨sp, hsp, htable⟩
        have hframe : frameOf (pte 7 (some f)) = f :=
          frameOf_add (h.space.frame_bounds hf).1 (by decide)
        rw [hframe]
        exact hexact.ne_of_owner_ne hown hf (by simp)

/-! ## What directories have in common -/

theorem Spaced.shared (h : Spaced s g v) {i k : ℕ} (hi : s.UserSlot i)
    (hk : k = 0 ∨ 768 ≤ k ∧ k < 1023) :
    entry s.mem (s.processTable i).pageDirectory k = entry s.mem s.kernelDirectory k := by
  obtain ⟨sp, hsp, hdir, hrange⟩ := (h.user i hi).space
  have hroot := h.space.activeRoot
  have hspace := h.space.activeSpace hsp
  rw [← hdir, h.space.root_eq]
  rcases hk with rfl | ⟨hlow, hhigh⟩
  · rw [hspace.low, hroot.low]
  · by_cases hwindow : k = 1022
    · rw [hwindow, hspace.window, hroot.window]
    · have hnone : sp.table k = none := by
        cases htable : sp.table k with
        | none => rfl
        | some f =>
            have := hrange k f htable
            omega
      have hzero : entry s.mem g.root k = 0 := by
        refine h.space.holds .root g.root k 0 rfl (by omega) ?_
        simp only [Layout.plan]
        rw [if_neg (by omega), if_neg hwindow, if_neg (by omega)]
      rw [h.space.dir_entry hsp (by omega) (by omega), hnone, hzero]
      rfl

theorem Spaced.closed (h : Spaced s g v) {i k : ℕ} (hi : s.UserSlot i)
    (hk : k = 0 ∨ 768 ≤ k ∧ k < 1024) :
    ¬X86Paging.user (entry s.mem (s.processTable i).pageDirectory k) := by
  obtain ⟨sp, hsp, hdir, -⟩ := (h.user i hi).space
  by_cases hends : k = 0 ∨ k = 1022 ∨ k = 1023
  · rw [← hdir]
    exact (h.space.activeSpace hsp).not_user h.space hends
  · rw [h.shared hi (by omega), h.space.root_eq]
    have hzero : entry s.mem g.root k = 0 := by
      refine h.space.holds .root g.root k 0 rfl (by omega) ?_
      simp only [Layout.plan]
      rw [if_neg (by omega), if_neg (by omega), if_neg (by omega)]
    rw [hzero]
    decide

theorem Spaced.view (h : Spaced s g v) {i va : ℕ} (hi : s.UserSlot i)
    (hva : va < 2 ^ 22 ∨ 768 * 2 ^ 22 ≤ va ∧ va < 1023 * 2 ^ 22) :
    X86Paging.translate s.mem (s.processTable i).pageDirectory va =
      X86Paging.translate s.mem s.kernelDirectory va := by
  have hentry := h.shared hi (k := va / 2 ^ 22) (by omega)
  unfold X86Paging.translate
  rw [hentry]

theorem Spaced.interruptible (h : Spaced s g v) {i j : ℕ} (hi : s.UserSlot i) (hj : s.UserSlot j)
    {o : ℕ} (ho : o < 4096) :
    X86Paging.translate s.mem (s.processTable j).pageDirectory
        ((s.processTable i).kernelStack + o) = some ((s.processTable i).kernelStack + o) ∧
      ¬userAccessible s.mem (s.processTable j).pageDirectory
        ((s.processTable i).kernelStack + o) := by
  obtain ⟨hlow, hself⟩ := h.stacksReached i hi
  refine ⟨(h.view hj (.inl (by omega))).trans (hself o ho), ?_⟩
  rintro ⟨-, huser, -⟩
  have hentry : ((s.processTable i).kernelStack + o) / 2 ^ 22 = 0 := by omega
  rw [hentry] at huser
  exact h.closed hj (.inl rfl) huser

theorem Spaced.isolated (h : Spaced s g v) : SpacesIsolated s g.heapPage g.windows := by
  refine ⟨fun _ _ _ _ _ _ hr hr' => h.apart hr hr', fun _ _ _ hr => h.not_kernel hr,
    fun _ _ _ hr _ hj => h.not_table hr hj, fun _ hi _ hk => h.shared hi hk, ?_,
    fun _ hi _ hk => h.closed hi hk, fun _ hi _ hva => h.view hi hva,
    fun _ _ hi hj _ ho => h.interruptible hi hj ho, h.active⟩
  intro i hi
  obtain ⟨sp, hsp, hdir, -⟩ := (h.user i hi).space
  rw [← hdir]
  exact (h.space.activeSpace hsp).self

/-- In every state of every run, ring 3 reaches pages of its own process only, each of them at
one address; all processes share the kernel's part of the address space, which is closed to
them. -/
theorem lifecycle_spaces_isolated {s₀ s : Machine} {page : ℕ} {windows : List ℕ}
    (h : KernelOnly s₀ page windows) (hrun : Relation.ReflTransGen SpaceStep s₀ s) :
    SpacesIsolated s page windows := by
  obtain ⟨g, v, hspaced, rfl, rfl⟩ := h.steps hrun
  exact hspaced.isolated

/-- From power on until the first program runs, and until its slot is free again. -/
theorem lifecycle_spaces_isolated_program :
    ∃ s₁ s₂ : Machine, s₁.UserSlot 2 ∧ s₁.currentTask = 2 ∧
      SpacesIsolated s₁ 33 ((List.range 4).map fun k => (33 + 6 + k) * 4096) ∧ ¬s₂.UserSlot 2 ∧
      SpacesIsolated s₂ 33 ((List.range 4).map fun k => (33 + 6 + k) * 4096) := by
  obtain ⟨s₀, h⟩ := exists_firstBoot
  obtain ⟨s₁, s₂, hrun, hstarted, hcur, hend, hreaped⟩ := h.run (irqReturn 0 s₀)
  exact ⟨s₁, s₂, hstarted.userSlot (by decide), hcur, lifecycle_spaces_isolated h.kernelOnly hrun,
    hreaped.not_userSlot rfl, lifecycle_spaces_isolated h.kernelOnly (hrun.trans hend)⟩

end MyOS
