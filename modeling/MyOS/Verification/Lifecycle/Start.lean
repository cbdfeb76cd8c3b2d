import MyOS.Verification.Lifecycle.Runs
import MyOS.Verification.Memory.HeapWindows

/-! Where lifecycles begin: the machine `kmain` has set up, on which only the kernel's own tasks
exist. -/

namespace MyOS

open Effect X86Paging ByteMemory

variable {s s' : Machine} {g : Layout} {v : HeapView}

/-! ## Kernel tasks only -/

/-- The slots of the two kernel tasks. -/
structure KernelSlots (s : Machine) (root : ℕ) : Prop where
  directory : ∀ i < 2, (s.processTable i).pageDirectory = root ∧
    (s.processTable i).cpuState.cr3 = root
  unused : ∀ i, 2 ≤ i → (s.processTable i).state = .unused

theorem KernelHeap.kernelOnly (h : KernelHeap s g v) (htable : TableInvariant s)
    (hslots : KernelSlots s g.root) (hcur : s.currentTask < 2) (hspace : ∀ i, g.space i = none)
    (hstack : ∀ i, g.stack i = none) (htidy : ∀ f, ¬g.loose f) :
    KernelOnly s g.heapPage g.windows := by
  have hnone : ∀ i, ¬s.UserSlot i := fun i hi => hi.2.2 (hslots.unused i hi.1)
  refine ⟨⟨g, v, ⟨htable, h.space, h.heap, ?_, ?_, fun i hi => (hslots.directory i hi).1,
    fun i hi => absurd hi (hnone i), fun i hi => absurd hi (hnone i),
    fun i _ => ⟨hspace i, hstack i⟩, htidy⟩, rfl, rfl⟩, hnone⟩
  · rw [h.cr3, (hslots.directory _ hcur).1]
  · intro i _ hused
    have hi : i < 2 := by
      by_contra hge
      exact hused (hslots.unused i (by omega))
    rw [(hslots.directory i hi).1, (hslots.directory i hi).2]

/-! ## `process_init` -/

/-- Without a gap between the frames in use, a request that ends well below 4 MiB returns, and the
heap grows by no more than it needs. -/
theorem WindowInv.request {page n size : ℕ} {live : List (ℕ × ℕ)} {carved : List ℕ}
    (h : WindowInv page n s live carved g v) (hsize : size ≤ memSize.toNat)
    (hroom : s.heapEnd + 16 + size ≤ 2 ^ 22) :
    ∃ p s' live' carved' frames v', MyOS.malloc size s = .ok p s' ∧
      WindowInv page n s' live' carved' (g.extend frames) v' ∧
      s'.heapEnd ≤ s.heapEnd + 4112 + size := by
  have htop := h.heap.top_le
  obtain ⟨p, s', hrun⟩ := h.toHeapRunInvariant.spec.malloc_returns size
    (by unfold sizeofBlockHeader; omega)
  obtain ⟨frames, v', hinv, hgrowth⟩ := h.toHeapRunInvariant.malloc hsize hrun
  refine ⟨p, s', _, _, frames, v', hrun, ⟨hinv, h.windows, h.temp⟩, ?_⟩
  have hend : s.heapEnd = 4096 * (g.heapPage + g.heap.length) := h.heap.end_eq
  have hend' : s'.heapEnd = 4096 * (g.heapPage + (g.heap ++ frames).length) := hinv.heap.end_eq
  rw [List.length_append] at hend'
  by_cases hnone : frames.length = 0
  · omega
  · have hlast := hgrowth.needed (frames.length - 1) (by omega)
    omega

theorem WindowInv.of_shell {page n : ℕ} {live : List (ℕ × ℕ)} {carved : List ℕ}
    (h : WindowInv page n s live carved g v) (table : ℕ → Task) :
    WindowInv page n { s with processTable := table } live carved g v where
  space := h.space.same rfl rfl rfl rfl
  heap := h.heap.of_words rfl rfl rfl fun _ _ => ⟨rfl, rfl⟩
  noGap := h.noGap
  cr3 := h.cr3
  heapPage := h.heapPage
  live_eq := h.live_eq
  carved_eq := h.carved_eq
  windows := h.windows
  temp := h.temp

/-- `process_init` finds two stacks in the heap and gives both kernel tasks the kernel's
directory. -/
theorem WindowInv.processInit {page n : ℕ} {live : List (ℕ × ℕ)} {carved : List ℕ}
    (h : WindowInv page n s live carved g v) (hroom : s.heapEnd + 16384 ≤ 2 ^ 22)
    (idleTask shellTask : ℕ) :
    ∃ s', processInit idleTask shellTask s = .ok () s' ∧ KernelSlots s' g.root ∧
      s'.currentTask = 0 ∧ ∃ frames v', KernelHeap s' (g.extend frames) v' := by
  have hroot : s.kernelDirectory = g.root := h.space.root_eq
  have htable := loaderBlind_processTable
  have hsize : 4096 ≤ memSize.toNat := by decide
  obtain ⟨stackA, s₁, live₁, carved₁, xs, v₁, h₁, hinv₁, hend₁⟩ :=
    WindowInv.request (h.of_shell fun _ => {}) hsize (show s.heapEnd + 16 + 4096 ≤ 2 ^ 22 by omega)
  obtain ⟨table, htable'⟩ : ∃ table, table = Function.update s₁.processTable 0
    (kernelTask 0 [105, 100, 108, 101] s.kernelDirectory idleTask stackA) := ⟨_, rfl⟩
  have hend₁' : s₁.heapEnd ≤ s.heapEnd + 4112 + 4096 := hend₁
  obtain ⟨stackB, s₂, live₂, carved₂, ys, v₂, h₂, hinv₂, -⟩ :=
    WindowInv.request (hinv₁.of_shell table) hsize (show s₁.heapEnd + 16 + 4096 ≤ 2 ^ 22 by omega)
  have htable₁ := (htable.malloc 4096).ok h₁
  have htable₂ := (htable.malloc 4096).ok h₂
  dsimp only at htable₁ htable₂
  refine ⟨{ s₂ with
      processTable := Function.update s₂.processTable 1
        (kernelTask 1 [115, 104, 101, 108, 108] s.kernelDirectory shellTask stackB)
      currentTask := 0 }, ?_, ⟨?_, ?_⟩, rfl, xs ++ ys, v₂, ?_⟩
  · unfold MyOS.processInit
    rw [bind_of_ok (modify_apply _ s), bind_of_ok (get_apply _), bind_of_ok h₁,
      bind_of_ok (modify_apply _ s₁), ← htable', bind_of_ok h₂]
    rfl
  · intro i hi
    dsimp only
    rw [htable₂, htable', htable₁, hroot]
    obtain rfl | rfl : i = 0 ∨ i = 1 := by omega
    · exact ⟨rfl, rfl⟩
    · exact ⟨rfl, rfl⟩
  · intro i hi
    dsimp only
    rw [htable₂, Function.update_of_ne (by omega), htable', htable₁,
      Function.update_of_ne (by omega)]
  · rw [Layout.extend_extend] at hinv₂
    have hheap : KernelHeap s₂ (g.extend (xs ++ ys)) v₂ := ⟨hinv₂.space, hinv₂.heap, hinv₂.cr3⟩
    exact hheap.same rfl rfl rfl rfl rfl rfl rfl rfl

/-- `kmain` up to `process_init` comes to its end, for a kernel that ends with its boot frames
below the windows: only the kernel's tasks exist, and the windows lie in the frames behind the boot
frames. -/
theorem bootProcesses_kernelOnly (mem : ByteMemory) (stack : ℕ → ℕ) (stale : ℕ → BitVec 32)
    {disk : ℕ → ℕ → UInt8} {kernelEnd : UInt32} (idleTask shellTask : ℕ)
    (hend : kernelEnd.toNat + bitmapBytes memSize ≤ 761 * 4096) (hfits : WindowsFit disk) :
    ∃ s, bootProcesses stale kernelEnd idleTask shellTask (kmainEntry mem disk stack) = .ok () s ∧
      KernelOnly s ((kernelEnd.toNat + 4607) / 4096)
        ((List.range (windowPages disk)).map fun k =>
          ((kernelEnd.toNat + 4607) / 4096 + 6 + k) * 4096) := by
  obtain ⟨s₁, hboot, hfs, -⟩ := bootKernel_fsState mem stack stale hend hfits
  have hpage := page_lt_of_end hend
  have hroom := hfs.heap_start.1
  obtain ⟨s, hinit, hslots, hcur, frames, v', hheap⟩ :=
    (hfs.windowInv hfits.below).processInit (by omega) idleTask shellTask
  refine ⟨s, ?_, ?_⟩
  · unfold bootProcesses
    rw [bind_of_ok hboot]
    exact hinit
  · exact hheap.kernelOnly (TableInvariant.init hinit) hslots (by omega) (fun _ => rfl)
      (fun _ => rfl) fun _ hf => hf

end MyOS
