import MyOS.Verification.Memory.Heap
import MyOS.Verification.Memory.Window

/-! Opening a program: the file is found in the cached directory and read into a block of the
heap, which may grow for it. -/

namespace MyOS

open Effect X86Paging ByteMemory PageTables Ownership BlockHeap

/-! ## Traces -/

/-- Every frame request got a frame, and every new page table was zeroed in its own frame. -/
structure Clean (trace : List Event) : Prop where
  served : .allocFailed ∉ trace
  reached : ∀ f r, .newTable f r ∈ trace → r = some f

theorem clean_nil : Clean [] := ⟨List.not_mem_nil, fun _ _ hmem => by cases hmem⟩

theorem Clean.of_suffix {trace trace' : List Event} (h : Clean trace') (hs : trace <:+ trace') :
    Clean trace :=
  ⟨fun hmem => h.served (hs.subset hmem), fun f r hmem => h.reached f r (hs.subset hmem)⟩

/-- The heap does not grow past 4 MiB in a clean run: all pages behind its start are its own by
then, so the table it would need cannot be zeroed in its frame. -/
theorem staysLow_clean (size : ℕ) :
    StaysLow (fun _ _ => True) (fun trace _ => Clean trace) size := by
  intro t g u fuel grown s' h _ hroot hfull hne hend hmap hgrow hclean
  obtain ⟨w, hw, hwtrace⟩ : ∃ w : Machine,
      { u with heapEnd := (u.heapEnd + pmmFrameSize) % 2 ^ 32 } = w ∧ w.trace = u.trace :=
    ⟨_, rfl, rfl⟩
  rw [hw] at hgrow
  have htrace := (processBlind_trace.mallocGrow size fuel).ok hgrow
  rw [hwtrace] at htrace
  have hself := h.activeRoot.selfMapped
  rw [← hroot] at hself
  have hentry : entry t.mem t.cr3 1 = 0 := by
    rw [hroot]
    exact h.holds .root g.root 1 0 rfl (by omega) rfl
  have habs : ¬present (entry t.mem t.cr3 (t.heapEnd / 2 ^ 22)) := by
    rw [show t.heapEnd / 2 ^ 22 = 1 by omega, hentry]
    decide
  by_cases hnull : (pmmAllocFrame (pmmAllocFrame t.pmm).2).1 = 0
  · have hskip := pagingMapPage_null (s := { t with pmm := (pmmAllocFrame t.pmm).2 }) h.paging
      hself (show t.heapEnd < 2 ^ 32 by omega) t.kernelDirectory (pmmAllocFrame t.pmm).1
      (pagingFlagPresent ||| pagingFlagRw) habs hnull
    rw [hskip] at hmap
    cases hmap
    exact hclean.served (htrace.subset List.mem_cons_self)
  · obtain ⟨pa, hpa, hevent⟩ := pagingMapPage_new_reached
      (s := { t with pmm := (pmmAllocFrame t.pmm).2 }) h.paging hself
      (show t.heapEnd < 2 ^ 32 by omega) _ _ _ habs rfl hnull hmap
    have hreached := Option.some.inj (hclean.reached _ _ (htrace.subset hevent))
    rw [hreached] at hpa
    obtain ⟨haligned, hcap, hfree, -⟩ := usedFrame_pmmAllocFrame hnull
    have htaken := h.alloc hne t.trace
    have hcap' : (pmmAllocFrame t.pmm).2.capacity = 4096 := htaken.capacity
    obtain ⟨f, hf⟩ : ∃ f, f = (pmmAllocFrame (pmmAllocFrame t.pmm).2).1 := ⟨_, rfl⟩
    rw [← hf] at haligned hcap hfree hpa
    have hunowned : ∀ o, ¬(g.take (pmmAllocFrame t.pmm).1).Owns o f :=
      fun o ho => hfree ((htaken.exact.used_iff _).mpr ⟨o, ho⟩)
    rcases htaken.translate_frame (.inl hroot) haligned (by omega) hpa with
      ⟨hlow, hlowFrame⟩ | ⟨i, sp, hsp, -, hpage⟩
    · by_cases hpage : g.heapPage ≤ f / 4096
      · have hin : (g.take (pmmAllocFrame t.pmm).1).InHeap f := by
          refine ⟨?_, ?_⟩
          · change 4096 * g.heapPage ≤ f
            omega
          · change f < 4096 * (g.heapPage + g.heap.length)
            omega
        obtain ⟨f', hf', -, hphys⟩ := htaken.phys_heap hin
        have heq : f' = f := by
          unfold Layout.phys at hphys
          omega
        rw [heq] at hf'
        exact hunowned _ hf'
      · refine hunowned (.boot f) ⟨rfl, haligned, ?_⟩
        change f < 4096 * (g.heapPage + 5)
        omega
    · exact hunowned (.page i _ _) ⟨sp, hsp, hpage⟩

/-! ## Reading into a block -/

/-- Memory and heap of a machine on which the kernel's own directory is active. -/
structure KernelHeap (s : Machine) (g : Layout) (v : HeapView) : Prop where
  space : KernelSpace s g
  heap : HeapInvariant s g v
  cr3 : s.cr3 = g.root

variable {s s' : Machine} {g : Layout} {v : HeapView}

theorem KernelHeap.same (h : KernelHeap s g v) (hmem : s'.mem = s.mem)
    (hpaging : s'.paging = s.paging) (hroot : s'.kernelDirectory = s.kernelDirectory)
    (hpmm : s'.pmm = s.pmm) (htop : s'.heapTop = s.heapTop) (hend : s'.heapEnd = s.heapEnd)
    (hhead : s'.freeListHead = s.freeListHead) (hcr3 : s'.cr3 = s.cr3) : KernelHeap s' g v := by
  refine ⟨h.space.same hmem hpaging hroot hpmm, ?_, hcr3.trans h.cr3⟩
  refine h.heap.of_words htop hend hhead ?_
  intro b _
  unfold Machine.word
  rw [hmem]
  exact ⟨rfl, rfl⟩

theorem KernelHeap.memcpyFrom (h : KernelHeap s g v) {a n i k : ℕ} (ha : (a, n) ∈ v.live)
    (hk : i + k ≤ n) {src : ℕ → UInt8} (hrun : memcpyFrom (a + 8 + i) src k s = .ok () s') :
    KernelHeap s' g v := by
  refine forRange_invariant (fun _ t => KernelHeap t g v) ?_ h hrun
  intro j t t' hj ht hstore
  obtain ⟨heq, hspace, hheap⟩ := ht.heap.write ht.space (.inl ht.cr3) ha
    (show i + j < n by omega) (src j)
  rw [Nat.add_assoc (a + 8) i j, heq] at hstore
  cases hstore
  exact ⟨hspace, hheap, ht.cr3⟩

theorem KernelHeap.readClusters {a n : ℕ} (ha : (a, n) ∈ v.live) (bytesPerCluster fuel : ℕ) :
    ∀ copied cluster s s', KernelHeap s g v → copied ≤ n →
      MyOS.readClusters (a + 8) n bytesPerCluster fuel copied cluster s = .ok () s' →
      KernelHeap s' g v := by
  induction fuel with
  | zero =>
      intro copied cluster s s' _ _ hrun
      cases hrun
  | succ fuel ih =>
      intro copied cluster s s' h hle hrun
      unfold MyOS.readClusters at hrun
      by_cases hcluster : cluster < 0xFF8
      · rw [if_pos hcluster, bind_of_ok (get_apply s)] at hrun
        obtain ⟨_, t, hread, hrun⟩ := bind_eq_ok.mp hrun
        have ht : KernelHeap t g v := by
          cases hread
          exact h.same rfl rfl rfl rfl rfl rfl rfl rfl
        rw [bind_of_ok (get_apply t)] at hrun
        obtain ⟨k, hk, hkn⟩ : ∃ k, (if n - copied > bytesPerCluster then bytesPerCluster
            else n - copied) = k ∧ copied + k ≤ n := by
          refine ⟨_, rfl, ?_⟩
          split <;> omega
        simp only [hk] at hrun
        obtain ⟨_, u, hcopy, hrun⟩ := bind_eq_ok.mp hrun
        obtain ⟨next, w, hnext, hrun⟩ := bind_eq_ok.mp hrun
        obtain rfl : u = w := ((readBlind_id.fsGetFatEntry cluster).ok hnext).symm
        exact ih _ _ _ _ (ht.memcpyFrom ha hkn hcopy) hkn hrun
      · rw [if_neg hcluster] at hrun
        cases hrun
        exact h

/-- A request that got a block: the block is live, and the heap may have grown. -/
theorem KernelHeap.malloc (h : KernelHeap s g v) {size p : ℕ} (hsize : size ≤ 2 ^ 24)
    (hclean : Clean s'.trace) (hrun : malloc size s = .ok p s') (hne : p ≠ 0) :
    ∃ frames v' a, KernelHeap s' (g.extend frames) v' ∧ p = a + 8 ∧
      v'.live = (a, size) :: v.live := by
  obtain ⟨frames, v', hspace, hheap, -, hcr3, hmalloc, -⟩ := h.heap.malloc_spec
    (staysLow_clean size) (fun _ _ _ _ => trivial) h.space h.cr3 trivial hsize hclean hrun
  have h' : KernelHeap s' (g.extend frames) v' := ⟨hspace, hheap, hcr3.trans h.cr3⟩
  cases hmalloc with
  | null => exact absurd rfl hne
  | reused => exact ⟨frames, _, _, h', rfl, rfl⟩
  | carved => exact ⟨frames, _, _, h', rfl, rfl⟩

/-- Bytes that `fs_read_file` asks for: one for an empty file. -/
def requestSize (size : ℕ) : ℕ := if size = 0 then 1 else size

theorem KernelHeap.fsReadFile (h : KernelHeap s g v) {entry size buf : ℕ}
    (hsize : load32 (entry + 28) s = .ok size s) (hle : size ≤ 2 ^ 24) (hclean : Clean s'.trace)
    (hrun : fsReadFile entry s = .ok buf s') (hne : buf ≠ 0) :
    ∃ frames v' a, KernelHeap s' (g.extend frames) v' ∧ buf = a + 8 ∧
      v'.live = (a, requestSize size) :: v.live := by
  unfold MyOS.fsReadFile at hrun
  rw [bind_of_ok hsize] at hrun
  unfold requestSize
  by_cases hzero : size = 0
  · rw [if_pos hzero] at hrun ⊢
    exact h.malloc (by omega) hclean hrun hne
  · rw [if_neg hzero] at hrun ⊢
    obtain ⟨p, t, hmalloc, hrun⟩ := bind_eq_ok.mp hrun
    by_cases hp : p = 0
    · rw [if_pos hp] at hrun
      cases hrun
      exact absurd rfl hne
    · rw [if_neg hp] at hrun
      obtain ⟨cluster, t₁, hcluster, hrun⟩ := bind_eq_ok.mp hrun
      obtain rfl : t = t₁ := (load16_state hcluster).symm
      rw [bind_of_ok (get_apply _)] at hrun
      obtain ⟨spc, t₂, hspc, hrun⟩ := bind_eq_ok.mp hrun
      obtain rfl : t = t₂ := ((readBlind_id.load8 _).ok hspc).symm
      obtain ⟨bps, t₃, hbps, hrun⟩ := bind_eq_ok.mp hrun
      obtain rfl : t = t₃ := (load16_state hbps).symm
      obtain ⟨_, u, hread, hrun⟩ := bind_eq_ok.mp hrun
      cases hrun
      have htrace := (processBlind_trace.readClusters _ _ _ _ _ _).ok hread
      obtain ⟨frames, v', a, ht, rfl, hlive⟩ :=
        h.malloc hle (hclean.of_suffix htrace) hmalloc hp
      have ha : (a, size) ∈ v'.live := by
        rw [hlive]
        exact List.mem_cons_self
      exact ⟨frames, v', a, .readClusters ha _ _ _ _ _ _ ht (Nat.zero_le _) hread, rfl, hlive⟩

end MyOS
