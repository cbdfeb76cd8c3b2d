import MyOS.Verification.Memory.FrameSafety

/-! Growth of the heap against the fixed addresses of the kernel. The heap takes the next page of
the low 4 MiB whatever is mapped there, be it the text screen or a window of the file system. -/

namespace MyOS

open Effect X86Paging ByteMemory PageTables Ownership BlockHeap

/-- Pages of the low 4 MiB with a fixed use: the text screen and the `n` pages of the windows. -/
def FixedPage (n j : ℕ) : Prop := j = vgaBuffer / 4096 ∨ 768 ≤ j ∧ j < 768 + n

/-- A fixed page, or any page from 4 MiB on. -/
def FixedAddress (n va : ℕ) : Prop := FixedPage n (va / 4096) ∨ 0x400000 ≤ va

/-- The kernel's directory translates every fixed address as it did before. -/
def KeepsWindows (n : ℕ) (s s' : Machine) : Prop :=
  ∀ va < 2 ^ 32, FixedAddress n va →
    X86Paging.translate s'.mem s'.kernelDirectory va =
      X86Paging.translate s.mem s.kernelDirectory va

/-- Some block of the free list is large enough. -/
def FreeBlockFits (s : Machine) (size : ℕ) : Prop :=
  ∃ free, FreeListFrom s s.freeListHead free ∧
    ∃ a ∈ free, ∃ n, load32 a s = .ok n s ∧ size ≤ n

/-- A request of this size is served without growth, or the pages up to its end have no fixed
use. -/
def GrowsClear (n : ℕ) (s : Machine) (size : ℕ) : Prop :=
  size = 0 ∨ FreeBlockFits s size ∨
    ∀ j, s.heapEnd ≤ 4096 * j → 4096 * j < (s.heapTop + 3) / 4 * 4 + sizeofBlockHeader + size →
      ¬FixedPage n j

/-- States reached from `s₀` by calls to `malloc` that meet `P`, calls to `free`, and writes of
the owners into their areas. -/
inductive HeapCalls (P : Machine → ℕ → Prop) (s₀ : Machine) : Machine → List (ℕ × ℕ) → Prop where
  | start : HeapCalls P s₀ s₀ []
  | malloc {s s' : Machine} {live : List (ℕ × ℕ)} {size p : ℕ} : HeapCalls P s₀ s live →
      size ≤ memSize.toNat → P s size → malloc size s = .ok p s' →
      HeapCalls P s₀ s' (if p = 0 then live else (p, size) :: live)
  | free {s s' : Machine} {live : List (ℕ × ℕ)} {size p : ℕ} : HeapCalls P s₀ s live →
      (p, size) ∈ live → free p s = .ok () s' → HeapCalls P s₀ s' (live.erase (p, size))
  | write {s s' : Machine} {live : List (ℕ × ℕ)} {size p i : ℕ} {b : UInt8} :
      HeapCalls P s₀ s live → (p, size) ∈ live → i < size → store8 (p + i) b s = .ok () s' →
      HeapCalls P s₀ s' live

variable {s₀ s s' : Machine} {g g' : Layout} {v : HeapView} {live : List (ℕ × ℕ)}
  {carved : List ℕ} {page n size p : ℕ}

/-! ## Translation through the kernel's directory -/

theorem KernelSpace.root_entry (h : KernelSpace s g) {k : ℕ} (hk : k < 1024) :
    entry s.mem g.root k = if k = 0 then g.table0 + 3 else if k = 1022 then pte 3 g.temp
      else if k = 1023 then g.root + 3 else 0 :=
  h.holds .root g.root k _ rfl hk rfl

/-- Without a temporary window, layouts with the same tables translate alike from 4 MiB on. -/
theorem KernelSpace.translate_high (h : KernelSpace s g) (h' : KernelSpace s' g')
    (hroot : g'.root = g.root) (htable0 : g'.table0 = g.table0) (htemp : g.temp = none)
    (htemp' : g'.temp = none) {va : ℕ} (hlow : 0x400000 ≤ va) (hhigh : va < 2 ^ 32) :
    X86Paging.translate s'.mem g.root va = X86Paging.translate s.mem g.root va := by
  have hsame : ∀ k < 1024, entry s'.mem g.root k = entry s.mem g.root k := by
    intro k hk
    have hentry := h'.root_entry hk
    rw [hroot, htable0, htemp'] at hentry
    rw [hentry, h.root_entry hk, htemp]
  by_cases hself : va / 2 ^ 22 = 1023
  · -- the directory serves as its own table
    have hframe : frameOf (entry s.mem g.root 1023) = g.root := by
      rw [h.root_entry (by omega)]
      exact frameOf_add h.valid.root_aligned (by omega)
    refine translate_congr (hsame _ (by omega)) ?_
    rw [hself, hframe]
    exact hsame _ (by omega)
  · have hzero : entry s.mem g.root (va / 2 ^ 22) = 0 := by
      rw [h.root_entry (by omega), htemp, if_neg (by omega), if_neg hself]
      simp [pte]
    have habs : ¬present 0 := by decide
    unfold X86Paging.translate
    simp only [hsame _ (show va / 2 ^ 22 < 1024 by omega), hzero, habs, if_false]

/-- The fixed addresses keep their translation when the fixed pages keep their frames. -/
theorem KernelSpace.keepsWindows_iff (h : KernelSpace s g) (h' : KernelSpace s' g')
    (hroot : g'.root = g.root) (htable0 : g'.table0 = g.table0) (htemp : g.temp = none)
    (htemp' : g'.temp = none) :
    KeepsWindows n s s' ↔
      ∀ j < 1024, FixedPage n j → g'.lowFrame j = g.lowFrame j := by
  have hlow : ∀ va, va < 2 ^ 22 →
      (X86Paging.translate s'.mem g.root va = X86Paging.translate s.mem g.root va ↔
        g'.lowFrame (va / 4096) = g.lowFrame (va / 4096)) := by
    intro va hva
    have hactive' := h'.activeRoot
    rw [hroot] at hactive'
    rw [h'.translate_low hactive' hva, h.translate_low h.activeRoot hva]
    simp
  unfold KeepsWindows
  rw [h.root_eq, h'.root_eq, hroot]
  refine ⟨?_, ?_⟩
  · intro hkeeps j hj hfixed
    have hdiv : 4096 * j / 4096 = j := by omega
    have hsame := hkeeps (4096 * j) (by omega) (.inl (by rw [hdiv]; exact hfixed))
    rw [hlow _ (by omega), hdiv] at hsame
    exact hsame
  · intro hframes va hva hfixed
    by_cases hhigh : 0x400000 ≤ va
    · exact h.translate_high h' hroot htable0 htemp htemp' hhigh hva
    · have hpage : FixedPage n (va / 4096) := by
        cases hfixed with
        | inl hpage => exact hpage
        | inr hge => exact absurd hge hhigh
      rw [hlow va (by omega)]
      exact hframes _ (by omega) hpage

theorem KeepsWindows.refl (n : ℕ) (s : Machine) : KeepsWindows n s s := fun _ _ _ => rfl

theorem KeepsWindows.trans {s'' : Machine} (h : KeepsWindows n s s') (h' : KeepsWindows n s' s'') :
    KeepsWindows n s s'' := by
  intro va hva hfixed
  rw [h' va hva hfixed, h va hva hfixed]

/-! ## Growth and the fixed pages -/

/-- Behind the heap's new pages lie their new frames. -/
theorem Layout.lowFrame_extend_new (g : Layout) {frames : List ℕ} {j f : ℕ}
    (hj : g.heapPage + g.heap.length ≤ j)
    (hf : frames[j - (g.heapPage + g.heap.length)]? = some f) :
    (g.extend frames).lowFrame j = f := by
  have hget : (g.heap ++ frames)[j - g.heapPage]? = some f := by
    rw [List.getElem?_append_right (by omega), ← hf]
    congr 1
    omega
  change (if g.heapPage ≤ j then ((g.heap ++ frames)[j - g.heapPage]?).getD (g.fixedFrame j)
    else g.fixedFrame j) = f
  rw [if_pos (by omega), hget, Option.getD_some]

/-- All other pages stay as they were. -/
theorem Layout.lowFrame_extend_old (g : Layout) {frames : List ℕ} {j : ℕ}
    (hj : j < g.heapPage + g.heap.length ∨ g.heapPage + g.heap.length + frames.length ≤ j) :
    (g.extend frames).lowFrame j = g.lowFrame j := by
  have hget : g.heapPage ≤ j → (g.heap ++ frames)[j - g.heapPage]? = g.heap[j - g.heapPage]? := by
    intro hge
    cases hj with
    | inl hold => exact List.getElem?_append_left (by omega)
    | inr hbehind =>
        rw [List.getElem?_eq_none (by rw [List.length_append]; omega),
          List.getElem?_eq_none (by omega)]
  change (if g.heapPage ≤ j then ((g.heap ++ frames)[j - g.heapPage]?).getD (g.fixedFrame j)
    else g.fixedFrame j) = g.lowFrame j
  unfold Layout.lowFrame
  by_cases hge : g.heapPage ≤ j
  · rw [if_pos hge, if_pos hge, hget hge]
  · rw [if_neg hge, if_neg hge]

/-- A fixed page that the heap takes gets another frame. -/
theorem HeapRunInvariant.lowFrame_taken {frames : List ℕ}
    (h : HeapRunInvariant page s live carved (g.extend frames) v) (hwindows : g.windows.length = n)
    {j : ℕ} (hfixed : FixedPage n j) (hlow : g.heapPage + g.heap.length ≤ j)
    (hhigh : j < g.heapPage + g.heap.length + frames.length) :
    (g.extend frames).lowFrame j ≠ g.lowFrame j := by
  have hidx : j - (g.heapPage + g.heap.length) < frames.length := by omega
  obtain ⟨f, hf⟩ : ∃ f, frames[j - (g.heapPage + g.heap.length)]? = some f :=
    ⟨_, List.getElem?_eq_getElem hidx⟩
  have hheap : (g.extend frames).heap[j - g.heapPage]? = some f := by
    change (g.heap ++ frames)[j - g.heapPage]? = some f
    rw [List.getElem?_append_right (by omega), ← hf]
    congr 1
    omega
  have hold : g.lowFrame j = g.fixedFrame j := by
    unfold Layout.lowFrame
    rw [if_pos (by omega), List.getElem?_eq_none (by omega), Option.getD_none]
  rw [g.lowFrame_extend_new hlow hf, hold]
  unfold Layout.fixedFrame
  cases hfixed with
  | inl hscreen =>
      -- the heap's frames lie above their pages, the screen's does not
      have habove : 4096 * (g.heapPage + (j - g.heapPage)) < f := h.noGap.above _ f hheap
      have hj : ¬windowPage ≤ j := by
        unfold windowPage
        unfold vgaBuffer at hscreen
        omega
      rw [if_neg hj]
      omega
  | inr hwindow =>
      have hidx' : j - windowPage < g.windows.length := by
        unfold windowPage
        omega
      obtain ⟨f', hget⟩ : ∃ f', g.windows[j - windowPage]? = some f' :=
        ⟨_, List.getElem?_eq_getElem hidx'⟩
      have hown : (g.extend frames).Owns (.window (j - windowPage)) f' := hget
      have hne := h.space.exact.ne_of_owner_ne (o := .heap (j - g.heapPage)) hheap hown (by simp)
      rw [if_pos (by unfold windowPage; omega), hget, Option.getD_some]
      exact hne

/-! ## The free list -/

/-- Following the `next` fields leads through one list only. -/
theorem FreeListFrom.unique {head : ℕ} {xs ys : List ℕ} (hx : FreeListFrom s head xs)
    (hy : FreeListFrom s head ys) : xs = ys := by
  induction xs generalizing head ys with
  | nil =>
      obtain rfl : head = 0 := hx
      cases ys with
      | nil => rfl
      | cons b ys => exact absurd hy.1.symm hy.2.1
  | cons a xs ih =>
      obtain ⟨rfl, hne, next, hload, hrest⟩ := hx
      cases ys with
      | nil => exact absurd hy hne
      | cons b ys =>
          obtain ⟨rfl, -, next', hload', hrest'⟩ := hy
          rw [hload] at hload'
          cases hload'
          rw [ih hrest hrest']

theorem HeapRunInvariant.freeBlockFits_iff (h : HeapRunInvariant page s live carved g v) :
    FreeBlockFits s size ↔ ∃ a ∈ v.free, size ≤ s.word g a := by
  have hfree := h.freeListFrom (fun _ ha => ha) h.heap.heap.linked
  have hload : ∀ a ∈ v.free, load32 a s = .ok (s.word g a) s := by
    intro a ha
    obtain ⟨m, hm⟩ := h.heap.heap.free_block ha
    obtain ⟨h1, -, h3, -, -⟩ := h.heap.block_bounds hm
    exact h.space.load32_word (.inl h.cr3) (h.space.inHeap_lt h1) h3
  refine ⟨?_, ?_⟩
  · rintro ⟨free, hlist, a, ha, m, hm, hle⟩
    rw [hlist.unique hfree] at ha
    rw [hload a ha] at hm
    cases hm
    exact ⟨a, ha, hle⟩
  · rintro ⟨a, ha, hle⟩
    exact ⟨v.free, hfree, a, ha, _, hload a ha, hle⟩

/-! ## One call -/

/-- What a run keeps besides its invariant. -/
structure WindowInv (page n : ℕ) (s : Machine) (live : List (ℕ × ℕ)) (carved : List ℕ)
    (g : Layout) (v : HeapView) : Prop extends HeapRunInvariant page s live carved g v where
  windows : g.windows.length = n
  temp : g.temp = none

/-- A frame is left for every page of the low 4 MiB. -/
theorem WindowInv.alloc_ne (h : WindowInv page n s live carved g v) :
    (pmmAllocFrame s.pmm).1 ≠ 0 := by
  have hwindows := h.noGap.windows_le
  have hfits := h.space.valid.heap_fits
  rw [(h.noGap.linear.alloc (by omega)).1]
  omega

/-- A call to `malloc` that returns keeps the fixed addresses exactly when the pages it takes have
no fixed use. -/
theorem WindowInv.malloc (h : WindowInv page n s live carved g v) (hsize : size ≤ memSize.toNat)
    (hrun : malloc size s = .ok p s') :
    (∃ g' v', WindowInv page n s' (if p = 0 then live else (p, size) :: live)
      (if s.heapTop < p then (p - sizeofBlockHeader) :: carved else carved) g' v') ∧
      (KeepsWindows n s s' ↔ GrowsClear n s size) := by
  obtain ⟨frames, v', hinv, hgrowth⟩ := h.toHeapRunInvariant.malloc hsize hrun
  have hwin : WindowInv page n s' _ _ (g.extend frames) v' := ⟨hinv, h.windows, h.temp⟩
  have hend : s.heapEnd = 4096 * (g.heapPage + g.heap.length) := h.heap.end_eq
  have hend' : s'.heapEnd = 4096 * (g.heapPage + (g.heap ++ frames).length) := hinv.heap.end_eq
  have hfits : g.heapPage + (g.heap ++ frames).length ≤ 1024 := hinv.space.valid.heap_fits
  rw [List.length_append] at hend' hfits
  refine ⟨⟨_, _, hwin⟩, ?_⟩
  rw [h.space.keepsWindows_iff hinv.space rfl rfl h.temp h.temp]
  refine ⟨?_, ?_⟩
  · intro hkeeps
    by_cases hzero : size = 0
    · exact .inl hzero
    · by_cases hfree : FreeBlockFits s size
      · exact .inr (.inl hfree)
      · refine .inr (.inr ?_)
        intro j hlow hhigh hfixed
        rw [h.freeBlockFits_iff] at hfree
        have hsmall : ∀ b ∈ v.free, s.word g b < size := by
          intro b hb
          by_contra hge
          exact hfree ⟨b, hb, by omega⟩
        have henough : (s.heapTop + 3) / 4 * 4 + 8 + size ≤ s'.heapEnd := by
          cases hgrowth.enough hzero hsmall with
          | inl henough => exact henough
          | inr hnull => exact absurd hnull hwin.alloc_ne
        unfold sizeofBlockHeader at hhigh
        exact hinv.lowFrame_taken h.windows hfixed (by omega) (by omega)
          (hkeeps j (by omega) hfixed)
  · intro hclear j hj hfixed
    refine g.lowFrame_extend_old ?_
    by_contra hin
    have hlast := hgrowth.needed (j - (g.heapPage + g.heap.length)) (by omega)
    have hne : frames ≠ [] := by
      rintro rfl
      simp only [List.length_nil] at hin
      omega
    obtain ⟨hpos, hsmall⟩ := hgrowth.searched hne
    rcases hclear with hzero | hfree | hclear
    · exact hpos hzero
    · obtain ⟨a, ha, hle⟩ := h.freeBlockFits_iff.mp hfree
      have := hsmall a ha
      omega
    · refine hclear j (by omega) ?_ hfixed
      unfold sizeofBlockHeader
      rw [show g.heapPage + g.heap.length + (j - (g.heapPage + g.heap.length)) = j by omega] at hlast
      exact hlast

theorem WindowInv.free (h : WindowInv page n s live carved g v) (hp : (p, size) ∈ live)
    (hrun : free p s = .ok () s') :
    (∃ v', WindowInv page n s' (live.erase (p, size)) carved g v') ∧ KeepsWindows n s s' := by
  obtain ⟨v', hinv⟩ := h.toHeapRunInvariant.free hp hrun
  exact ⟨⟨v', hinv, h.windows, h.temp⟩,
    (h.space.keepsWindows_iff hinv.space rfl rfl h.temp h.temp).mpr fun _ _ _ => rfl⟩

theorem WindowInv.write (h : WindowInv page n s live carved g v) (hp : (p, size) ∈ live) {i : ℕ}
    {b : UInt8} (hi : i < size) (hrun : store8 (p + i) b s = .ok () s') :
    WindowInv page n s' live carved g v ∧ KeepsWindows n s s' := by
  have hinv := h.toHeapRunInvariant.write hp hi hrun
  exact ⟨⟨hinv, h.windows, h.temp⟩,
    (h.space.keepsWindows_iff hinv.space rfl rfl h.temp h.temp).mpr fun _ _ _ => rfl⟩

/-! ## Whole runs -/

/-- The invariant with the parameter block of `init_fs` behind the areas of the run. -/
def WindowRunInv (page n : ℕ) (s : Machine) (live : List (ℕ × ℕ)) : Prop :=
  ∃ carved g v, WindowInv page n s (live ++ [(4096 * page + 8, sizeofBpb)]) carved g v

theorem FsState.windowInv {disk : ℕ → ℕ → UInt8} (h : FsState disk page n s) (hn : n ≤ 256) :
    WindowInv page n s [(4096 * page + 8, sizeofBpb)] [4096 * page] (fsLayout page n)
      (fsView page) := by
  have hlen := fsLayout_windows_length page n
  have hlinear : s.pmm.Linear (page + 5 + 1 + (fsLayout page n).windows.length) := by
    rw [hlen]
    exact h.linear
  refine ⟨⟨h.space, h.heap, ⟨?_, hlinear, ?_⟩, h.cr3, rfl, rfl, rfl⟩, hlen, rfl⟩
  · rw [hlen]
    exact hn
  · intro k f hf
    exact bootLayout_above hf

theorem FsState.windowRunInv {disk : ℕ → ℕ → UInt8} (h : FsState disk page n s) (hn : n ≤ 256) :
    WindowRunInv page n s [] :=
  ⟨_, _, _, h.windowInv hn⟩

theorem WindowRunInv.malloc (h : WindowRunInv page n s live) (hsize : size ≤ memSize.toNat)
    (hrun : malloc size s = .ok p s') :
    WindowRunInv page n s' (if p = 0 then live else (p, size) :: live) ∧
      (KeepsWindows n s s' ↔ GrowsClear n s size) := by
  obtain ⟨carved, g, v, hinv⟩ := h
  obtain ⟨⟨g', v', hinv'⟩, hiff⟩ := hinv.malloc hsize hrun
  refine ⟨?_, hiff⟩
  by_cases hp : p = 0
  · rw [if_pos hp] at hinv' ⊢
    exact ⟨_, g', v', hinv'⟩
  · rw [if_neg hp] at hinv' ⊢
    exact ⟨_, g', v', hinv'⟩

theorem WindowRunInv.free (h : WindowRunInv page n s live) (hp : (p, size) ∈ live)
    (hrun : free p s = .ok () s') :
    WindowRunInv page n s' (live.erase (p, size)) ∧ KeepsWindows n s s' := by
  obtain ⟨carved, g, v, hinv⟩ := h
  obtain ⟨⟨v', hinv'⟩, hkeeps⟩ := hinv.free (List.mem_append_left _ hp) hrun
  rw [List.erase_append_left _ hp] at hinv'
  exact ⟨⟨carved, g, v', hinv'⟩, hkeeps⟩

theorem WindowRunInv.write (h : WindowRunInv page n s live) (hp : (p, size) ∈ live) {i : ℕ}
    {b : UInt8} (hi : i < size) (hrun : store8 (p + i) b s = .ok () s') :
    WindowRunInv page n s' live ∧ KeepsWindows n s s' := by
  obtain ⟨carved, g, v, hinv⟩ := h
  obtain ⟨hinv', hkeeps⟩ := hinv.write (List.mem_append_left _ hp) hi hrun
  exact ⟨⟨carved, g, v, hinv'⟩, hkeeps⟩

theorem HeapCalls.inv {P : Machine → ℕ → Prop} (hs₀ : WindowRunInv page n s₀ [])
    (h : HeapCalls P s₀ s live) : WindowRunInv page n s live := by
  induction h with
  | start => exact hs₀
  | malloc _ hsize _ hrun ih => exact (ih.malloc hsize hrun).1
  | free _ hp hrun ih => exact (ih.free hp hrun).1
  | write _ hp hi hrun ih => exact (ih.write hp hi hrun).1

/-- Calls that all stay clear keep the fixed addresses over the whole run. -/
theorem HeapCalls.keepsWindows (hs₀ : WindowRunInv page n s₀ [])
    (h : HeapCalls (GrowsClear n) s₀ s live) : KeepsWindows n s₀ s := by
  induction h with
  | start => exact .refl n s₀
  | malloc hcalls hsize hclear hrun ih =>
      exact ih.trans (((hcalls.inv hs₀).malloc hsize hrun).2.mpr hclear)
  | free hcalls hp hrun ih => exact ih.trans ((hcalls.inv hs₀).free hp hrun).2
  | write hcalls hp hi hrun ih => exact ih.trans ((hcalls.inv hs₀).write hp hi hrun).2

/-- In every state that calls to `malloc` and `free` reach after `init_fs`, `free` keeps the
kernel's translation of the text screen, of the windows and of every address from 4 MiB on, and
`malloc` keeps it exactly when the request stays clear of the fixed pages. -/
theorem heap_growth_clear_iff (mem : ByteMemory) (disk : ℕ → ℕ → UInt8) (stack : ℕ → ℕ)
    (stale : ℕ → BitVec 32) (kernelEnd : UInt32)
    (hend : kernelEnd.toNat + bitmapBytes memSize ≤ 761 * 4096) (hfits : WindowsFit disk) :
    ∃ s₀, bootKernel stale kernelEnd (kmainEntry mem disk stack) = .ok () s₀ ∧
      (∀ s live, HeapCalls (fun _ _ => True) s₀ s live →
        (∀ size p s', size ≤ memSize.toNat → malloc size s = .ok p s' →
          (KeepsWindows (windowPages disk) s s' ↔ GrowsClear (windowPages disk) s size)) ∧
        ∀ size p s', (p, size) ∈ live → free p s = .ok () s' →
          KeepsWindows (windowPages disk) s s') ∧
      ∀ s live, HeapCalls (GrowsClear (windowPages disk)) s₀ s live →
        KeepsWindows (windowPages disk) s₀ s := by
  obtain ⟨s₀, hboot, hfs, -⟩ := bootKernel_fsState mem stack stale hend hfits
  have hs₀ := hfs.windowRunInv hfits.below
  refine ⟨s₀, hboot, ?_, ?_⟩
  · intro s live hcalls
    have hinv := hcalls.inv hs₀
    refine ⟨?_, ?_⟩
    · intro size p s' hsize hrun
      exact (hinv.malloc hsize hrun).2
    · intro size p s' hp hrun
      exact (hinv.free hp hrun).2
  · intro s live hcalls
    exact hcalls.keepsWindows hs₀

/-- Every request that ends below 4 MiB returns. -/
theorem WindowRunInv.malloc_returns (h : WindowRunInv page n s live) (size : ℕ)
    (hroom : (s.heapTop + 3) / 4 * 4 + sizeofBlockHeader + size ≤ 2 ^ 22) :
    ∃ p s', MyOS.malloc size s = .ok p s' := by
  obtain ⟨carved, g, v, hinv⟩ := h
  exact hinv.toHeapRunInvariant.spec.malloc_returns size hroom

/-! ## A kernel that ends at 128 KiB -/

/-- After `init_fs` the heap ends with its first page, and no block is free. -/
theorem FsState.heap_start {disk : ℕ → ℕ → UInt8} (h : FsState disk page n s) :
    s.heapEnd = 4096 * (page + 1) ∧ 4096 * page ≤ s.heapTop ∧ s.heapTop ≤ 4096 * (page + 1) ∧
      s.freeListHead = 0 := by
  have hend : s.heapEnd = 4096 * (page + 1) := h.heap.end_eq
  have htop := h.heap.top_le
  exact ⟨hend, h.heap.heap.start_le, by omega, h.heap.heap.linked⟩

/-- The first request after `init_fs` gets no page of a fixed use. -/
theorem heap_growth_clear_first :
    ∃ s₀ p s, bootKernel (fun _ => 0#32) 131072 (kmainEntry (fun _ => 0) bootDisk fun _ => 0) =
        .ok () s₀ ∧ malloc 100 s₀ = .ok p s ∧ KeepsWindows (windowPages bootDisk) s₀ s := by
  obtain ⟨s₁, hboot₁, hfs⟩ := bootDisk_fsState
  obtain ⟨s₀, hboot, hcalls, -⟩ := heap_growth_clear_iff (fun _ => 0) bootDisk (fun _ => 0)
    (fun _ => 0#32) 131072 (by decide) bootDisk_fits
  obtain rfl : s₁ = s₀ := by
    rw [hboot₁] at hboot
    cases hboot
    rfl
  obtain ⟨hend, hlow, hhigh, -⟩ := hfs.heap_start
  obtain ⟨p, s, hrun⟩ := (hfs.windowRunInv (by omega)).malloc_returns 100
    (by unfold sizeofBlockHeader; omega)
  refine ⟨s₁, p, s, hboot, hrun, ((hcalls s₁ [] .start).1 100 p s (by decide) hrun).mpr ?_⟩
  refine .inr (.inr ?_)
  intro j hj hlast
  unfold sizeofBlockHeader at hlast
  unfold FixedPage vgaBuffer
  omega

/-- A request of 1 MiB puts the heap over the text screen. -/
theorem heap_growth_screen :
    ¬∀ (mem : ByteMemory) (disk : ℕ → ℕ → UInt8) (stack : ℕ → ℕ) (stale : ℕ → BitVec 32)
      (kernelEnd : UInt32) (s₀ s s' : Machine) (live : List (ℕ × ℕ)) (size p : ℕ),
      kernelEnd.toNat + bitmapBytes memSize ≤ 761 * 4096 → WindowsFit disk →
      bootKernel stale kernelEnd (kmainEntry mem disk stack) = .ok () s₀ →
      HeapCalls (fun _ _ => True) s₀ s live → size ≤ memSize.toNat → malloc size s = .ok p s' →
      KeepsWindows (windowPages disk) s s' := by
  intro h
  obtain ⟨s₀, hboot, hfs⟩ := bootDisk_fsState
  have hinv := hfs.windowRunInv (by omega)
  obtain ⟨hend, hlow, hhigh, hhead⟩ := hfs.heap_start
  obtain ⟨p, s, hrun⟩ := hinv.malloc_returns 0x100000
    (by unfold sizeofBlockHeader; omega)
  have hkeeps := h _ _ _ _ _ _ _ _ _ _ _ (by decide) bootDisk_fits hboot .start (by decide) hrun
  rw [bootDisk_windowPages, (hinv.malloc (by decide) hrun).2] at hkeeps
  rcases hkeeps with hzero | ⟨free, hlist, a, ha, -⟩ | hclear
  · exact absurd hzero (by decide)
  · have hempty : FreeListFrom s₀ s₀.freeListHead [] := hhead
    rw [hlist.unique hempty] at ha
    cases ha
  · refine hclear 184 (by omega) ?_ (.inl (by decide))
    unfold sizeofBlockHeader
    omega

end MyOS
