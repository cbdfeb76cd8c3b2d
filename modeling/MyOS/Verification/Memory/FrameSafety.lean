import MyOS.Model.Vga
import MyOS.Verification.Fs.InitFs

/-! Is a frame safe to touch at its physical address? The allocator hands out frames of 16 MiB,
but only 4 MiB are mapped to themselves, less the windows of the file system; and the text
screen lies in a frame of its own that nobody reserved. -/

namespace MyOS

open Effect X86Paging ByteMemory PageTables Ownership BlockHeap

/-! ## Runs of the allocator -/

/-- States reached from `s₀` by frame allocations and frees; `held` lists the frames handed out
and not given back. -/
inductive FrameRun (s₀ : Machine) : Machine → List ℕ → Prop where
  | start : FrameRun s₀ s₀ []
  | alloc {s s' : Machine} {held : List ℕ} {a : ℕ} : FrameRun s₀ s held →
      allocFrame s = .ok a s' → FrameRun s₀ s' (if a = 0 then held else a :: held)
  | free {s s' : Machine} {held : List ℕ} {a : ℕ} : FrameRun s₀ s held → a ∈ held →
      freeFrame a s = .ok () s' → FrameRun s₀ s' (held.erase a)

/-- The kernel's directory maps the frame to itself, and the text screen is elsewhere. -/
structure SafeFrame (s : Machine) (a : ℕ) : Prop where
  identity : ∀ k < 4096, X86Paging.translate s.mem s.kernelDirectory (a + k) = some (a + k)
  screen : a + 4096 ≤ vgaBuffer ∨ vgaBuffer + 2 * vgaWidth * vgaHeight ≤ a

/-- What holds in every state of a run: memory is as it was, and the first `n` frames are still
in use. -/
structure FrameInv (n : ℕ) (s₀ s : Machine) (held : List ℕ) : Prop where
  mem : s.mem = s₀.mem
  kernelDirectory : s.kernelDirectory = s₀.kernelDirectory
  capacity : s.pmm.capacity = 4096
  used : ∀ f < n, s.pmm.frameUsed f = true
  held_le : ∀ a ∈ held, 4096 * n ≤ a

variable {s₀ s s' : Machine} {held : List ℕ} {n a : ℕ}

/-- A frame handed out lies behind the first `n`. -/
theorem FrameInv.alloc_bounds (h : FrameInv n s₀ s held) (hne : (pmmAllocFrame s.pmm).1 ≠ 0) :
    (pmmAllocFrame s.pmm).1 % 4096 = 0 ∧ 4096 * n ≤ (pmmAllocFrame s.pmm).1 ∧
      (pmmAllocFrame s.pmm).1 < 2 ^ 24 := by
  obtain ⟨f, hf, hfree, -, hs⟩ | ⟨-, hs⟩ := pmmAllocFrame_cases s.pmm
  · rw [h.capacity] at hf
    have hge : n ≤ f := by
      by_contra hlt
      rw [h.used f (by omega)] at hfree
      cases hfree
    rw [hs]
    simp only
    omega
  · rw [hs] at hne
    exact absurd rfl hne

theorem FrameInv.alloc (h : FrameInv n s₀ s held) (hrun : allocFrame s = .ok a s') :
    FrameInv n s₀ s' (if a = 0 then held else a :: held) := by
  have haddr : a = (pmmAllocFrame s.pmm).1 ∧ s'.mem = s.mem ∧
      s'.kernelDirectory = s.kernelDirectory ∧ s'.pmm = (pmmAllocFrame s.pmm).2 := by
    cases hrun
    exact ⟨rfl, rfl, rfl, rfl⟩
  obtain ⟨ha, hmem, hdir, hpmm⟩ := haddr
  refine ⟨hmem.trans h.mem, hdir.trans h.kernelDirectory, ?_, ?_, ?_⟩
  · rw [hpmm, pmmAllocFrame_capacity, h.capacity]
  · intro f hf
    rw [hpmm]
    obtain ⟨k, -, -, -, hs⟩ | ⟨-, hs⟩ := pmmAllocFrame_cases s.pmm
    · rw [hs]
      have hused := h.used f hf
      unfold Pmm.frameUsed at hused ⊢
      rw [bit_pmmSetBit, hused, Bool.or_true]
    · rw [hs]
      exact h.used f hf
  · by_cases hnull : a = 0
    · rw [if_pos hnull]
      exact h.held_le
    · rw [if_neg hnull]
      rw [ha] at hnull ⊢
      exact List.forall_mem_cons.mpr ⟨(h.alloc_bounds hnull).2.1, h.held_le⟩

theorem FrameInv.free (h : FrameInv n s₀ s held) (ha : a ∈ held)
    (hrun : freeFrame a s = .ok () s') : FrameInv n s₀ s' (held.erase a) := by
  have hle := h.held_le a ha
  cases hrun
  refine ⟨h.mem, h.kernelDirectory, ?_, ?_, ?_⟩
  · exact (pmmFreeFrame_capacity _ _).trans h.capacity
  · intro f hf
    have hused := frameUsed_pmmFreeFrame s.pmm a f
    have hother : ¬f = a / 4096 := by omega
    rw [h.used f hf] at hused
    simpa [hother] using hused
  · intro b hb
    exact h.held_le b (List.mem_of_mem_erase hb)

theorem FrameRun.inv (h : FrameRun s₀ s held) (hlinear : s₀.pmm.Linear n) (hn : n ≤ 4096) :
    FrameInv n s₀ s held := by
  induction h with
  | start =>
      exact ⟨rfl, rfl, hlinear.capacity, fun f hf => (hlinear.2 f (by omega)).mpr hf, by simp⟩
  | alloc _ hrun ih => exact ih.alloc hrun
  | free _ ha hrun ih => exact ih.free ha hrun

/-! ## After `init_fs` -/

/-- The heap has one page and the windows lie below the boot frames' end: a frame behind these is
mapped to itself exactly below 4 MiB and outside the windows. -/
theorem FsState.identity_iff {disk : ℕ → ℕ → UInt8} {page : ℕ} (h : FsState disk page n s)
    (hn : n ≤ 256) (ha : a % 4096 = 0) (hlow : 4096 * (page + 6 + n) ≤ a) (hhigh : a < 2 ^ 24) :
    (∀ k < 4096, X86Paging.translate s.mem s.kernelDirectory (a + k) = some (a + k)) ↔
      a < 2 ^ 22 ∧ ¬(fsLayout page n).InWindows a := by
  have hroot : s.kernelDirectory = (fsLayout page n).root := h.space.root_eq
  have hheap : ¬(fsLayout page n).InHeap a := by
    intro hin
    have := (fsLayout_inHeap.mp hin).2
    omega
  rw [hroot]
  refine ⟨?_, ?_⟩
  · intro hall
    have hfirst := hall 0 (by omega)
    rw [Nat.add_zero] at hfirst
    have hlt : a < 2 ^ 22 := by
      by_contra hge
      rw [h.space.translate_root (by omega) (by omega)] at hfirst
      cases hfirst
    refine ⟨hlt, ?_⟩
    intro hwin
    -- the window's frame was taken before this one
    obtain ⟨f, hf, -, hpf⟩ := h.space.phys_window hwin hheap
    rw [h.space.translate_low h.space.activeRoot hlt] at hfirst
    have hphys : (fsLayout page n).phys a = a := Option.some.inj hfirst
    have hused := (h.space.exact.used_iff f).mpr ⟨_, hf⟩
    have hbehind := ((h.linear.usedFrame_iff f (by omega)).mp hused).2
    omega
  · intro hsafe k hk
    have hpage : (a + k) / 4096 = a / 4096 := by omega
    rw [h.space.translate_low h.space.activeRoot (by omega), hpage,
      (fsLayout page n).lowFrame_identity hheap hsafe.2]
    congr 1
    omega

/-- Where a frame handed out after `init_fs` is safe to touch. -/
def SafeAddress (disk : ℕ → ℕ → UInt8) (a : ℕ) : Prop :=
  a < 0x400000 ∧ (a < 0x300000 ∨ 0x300000 + 4096 * windowPages disk ≤ a) ∧ a ≠ vgaBuffer

/-- Frame `f` is free and all below it are in use. -/
def LowestFree (p : Pmm) (f : ℕ) : Prop :=
  f < p.capacity ∧ p.frameUsed f = false ∧ ∀ g < f, p.frameUsed g = true

theorem LowestFree.unique {p : Pmm} {f f' : ℕ} (h : LowestFree p f) (h' : LowestFree p f') :
    f = f' := by
  by_contra hne
  rcases Nat.lt_or_gt_of_ne hne with hlt | hgt
  · have hused := h'.2.2 f hlt
    rw [h.2.1] at hused
    cases hused
  · have hused := h.2.2 f' hgt
    rw [h'.2.1] at hused
    cases hused

/-- An allocation hands out the lowest free frame. -/
theorem allocFrame_lowest (halloc : allocFrame s = .ok a s') (hne : a ≠ 0) :
    ∃ f, LowestFree s.pmm f ∧ a = f * 4096 := by
  have haddr : a = (pmmAllocFrame s.pmm).1 := by
    cases halloc
    rfl
  obtain ⟨f, hlt, hfree, hlow, hs⟩ | ⟨-, hs⟩ := pmmAllocFrame_cases s.pmm
  · rw [hs] at haddr
    exact ⟨f, ⟨hlt, hfree, hlow⟩, haddr⟩
  · rw [hs] at haddr
    exact absurd haddr hne

theorem FsState.safeFrame_iff {disk : ℕ → ℕ → UInt8} {page : ℕ}
    (h : FsState disk page (windowPages disk) s₀) (hfits : WindowsFit disk) (hpage : page < 762)
    (hrun : FrameRun s₀ s held) (halloc : allocFrame s = .ok a s') (hne : a ≠ 0) :
    SafeFrame s' a ↔ SafeAddress disk a := by
  have hbelow := hfits.below
  have hinv := hrun.inv h.linear (by omega)
  have hinv' := hinv.alloc halloc
  have haddr : a = (pmmAllocFrame s.pmm).1 := by
    cases halloc
    rfl
  obtain ⟨haligned, hlow, hhigh⟩ := hinv.alloc_bounds (haddr ▸ hne)
  rw [← haddr] at haligned hlow hhigh
  have hidentity := h.identity_iff hbelow haligned hlow hhigh
  rw [← hinv'.mem, ← hinv'.kernelDirectory] at hidentity
  have hwindows : (fsLayout page (windowPages disk)).InWindows a ↔
      4096 * 768 ≤ a ∧ a < 4096 * (768 + windowPages disk) := fsLayout_inWindows
  have hscreen : a ≠ vgaBuffer ↔
      a + 4096 ≤ vgaBuffer ∨ vgaBuffer + 2 * vgaWidth * vgaHeight ≤ a := by
    unfold vgaBuffer vgaWidth vgaHeight
    omega
  unfold SafeAddress
  rw [hscreen]
  refine ⟨?_, ?_⟩
  · intro hsafe
    obtain ⟨hlt, hout⟩ := hidentity.mp hsafe.identity
    rw [hwindows] at hout
    exact ⟨by omega, by omega, hsafe.screen⟩
  · intro hsafe
    refine ⟨hidentity.mpr ⟨by omega, ?_⟩, hsafe.2.2⟩
    rw [hwindows]
    omega

/-- A frame handed out after `init_fs`, after any sequence of allocations and frees, is safe to
touch at its address exactly when the lowest free frame before the call lies below 4 MiB, outside
the windows and away from the text screen. The kernel ends with its boot frames below the windows,
and these end below 4 MiB. -/
theorem pmm_alloc_frame_safe_iff (mem : ByteMemory) (disk : ℕ → ℕ → UInt8) (stack : ℕ → ℕ)
    (stale : ℕ → BitVec 32) (kernelEnd : UInt32)
    (hend : kernelEnd.toNat + bitmapBytes memSize ≤ 761 * 4096) (hfits : WindowsFit disk) :
    ∃ s₀, bootKernel stale kernelEnd (kmainEntry mem disk stack) = .ok () s₀ ∧
      ∀ s held a s', FrameRun s₀ s held → allocFrame s = .ok a s' → a ≠ 0 →
        (SafeFrame s' a ↔ ∀ f, LowestFree s.pmm f → SafeAddress disk (f * 4096)) := by
  obtain ⟨s₀, hboot, hfs, -⟩ := bootKernel_fsState mem stack stale hend hfits
  refine ⟨s₀, hboot, ?_⟩
  intro s held a s' hrun halloc hne
  obtain ⟨f, hlowest, rfl⟩ := allocFrame_lowest halloc hne
  rw [hfs.safeFrame_iff hfits (page_lt_of_end hend) hrun halloc hne]
  refine ⟨?_, ?_⟩
  · intro hsafe f' hf'
    rw [← hlowest.unique hf']
    exact hsafe
  · intro hsafe
    exact hsafe f hlowest

/-! ## A kernel that ends at 128 KiB -/

/-- Frames are handed out in order, one after the other. -/
theorem frameRun_linear (hlinear : s₀.pmm.Linear n) (hpos : 0 < n) {k : ℕ} (hk : n + k ≤ 4096) :
    ∃ s held, FrameRun s₀ s held ∧ s.pmm.Linear (n + k) := by
  induction k with
  | zero => exact ⟨s₀, [], .start, hlinear⟩
  | succ k ih =>
      obtain ⟨s, held, hrun, hs⟩ := ih (by omega)
      obtain ⟨p, halloc, hp⟩ := allocFrame_linear hs (by omega) (by omega)
      exact ⟨_, _, .alloc hrun halloc, hp⟩

theorem bootDisk_fsState :
    ∃ s, bootKernel (fun _ => 0#32) 131072 (kmainEntry (fun _ => 0) bootDisk fun _ => 0) = .ok () s ∧
      FsState bootDisk 33 4 s := by
  obtain ⟨s, hboot, hfs, -⟩ := bootKernel_fsState (fun _ => 0) (fun _ => 0) (fun _ => 0#32)
    (show (131072 : UInt32).toNat + bitmapBytes memSize ≤ 761 * 4096 by decide) bootDisk_fits
  rw [bootDisk_windowPages] at hfs
  exact ⟨s, hboot, hfs⟩

/-- The first frame after `init_fs` is safe. -/
theorem pmm_alloc_frame_safe_first :
    ∃ s₀ s', bootKernel (fun _ => 0#32) 131072 (kmainEntry (fun _ => 0) bootDisk fun _ => 0) =
        .ok () s₀ ∧ allocFrame s₀ = .ok 176128 s' ∧ SafeFrame s' 176128 := by
  obtain ⟨s₁, hboot₁, hfs⟩ := bootDisk_fsState
  obtain ⟨s₀, hboot, hsafe⟩ := pmm_alloc_frame_safe_iff (fun _ => 0) bootDisk (fun _ => 0)
    (fun _ => 0#32) 131072 (by decide) bootDisk_fits
  obtain rfl : s₁ = s₀ := by
    rw [hboot₁] at hboot
    cases hboot
    rfl
  obtain ⟨p, halloc, -⟩ := allocFrame_linear hfs.linear (by omega) (by omega)
  refine ⟨s₁, _, hboot, halloc, (hsafe s₁ [] _ _ .start halloc (by decide)).mpr ?_⟩
  intro f hf
  obtain ⟨f', hf', haddr⟩ := allocFrame_lowest halloc (by decide)
  rw [hf.unique hf', ← haddr]
  unfold SafeAddress vgaBuffer
  rw [bootDisk_windowPages]
  decide

/-- The 142nd frame after `init_fs` is the text screen. -/
theorem pmm_alloc_frame_screen :
    ¬∀ (mem : ByteMemory) (disk : ℕ → ℕ → UInt8) (stack : ℕ → ℕ) (stale : ℕ → BitVec 32)
      (kernelEnd : UInt32) (s₀ s s' : Machine) (held : List ℕ) (a : ℕ),
      kernelEnd.toNat + bitmapBytes memSize ≤ 761 * 4096 → WindowsFit disk →
      bootKernel stale kernelEnd (kmainEntry mem disk stack) = .ok () s₀ → FrameRun s₀ s held →
      allocFrame s = .ok a s' → a ≠ 0 → SafeFrame s' a := by
  intro h
  obtain ⟨s₀, hboot, hfs⟩ := bootDisk_fsState
  obtain ⟨s, held, hrun, hs⟩ := frameRun_linear hfs.linear (by omega)
    (show 33 + 6 + 4 + 141 ≤ 4096 by omega)
  obtain ⟨p, halloc, -⟩ := allocFrame_linear hs (by omega) (by omega)
  have hsafe := h _ _ _ _ _ _ _ _ _ _ (by decide) bootDisk_fits hboot hrun halloc (by decide)
  have hscreen := hsafe.screen
  unfold vgaBuffer vgaWidth vgaHeight at hscreen
  omega

end MyOS
