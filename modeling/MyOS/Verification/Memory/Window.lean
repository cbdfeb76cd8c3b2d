import MyOS.Verification.Memory.Words

/-! Addresses outside the low 4 MiB: the pages of an address space, and the temporary window
through which directories and tables are edited. What such writes leave of the heap. -/

namespace MyOS

open Effect X86Paging ByteMemory PageTables Ownership

variable {s : Machine} {g : Layout} {t : ℕ}

/-! ## Frames that are not the heap's -/

/-- The bytes of the heap are the same in both memories. -/
def HeapKept (g : Layout) (m m' : ByteMemory) : Prop :=
  ∀ va, g.InHeap va → m' (g.phys va) = m (g.phys va)

theorem HeapKept.trans {m m' m'' : ByteMemory} (h : HeapKept g m m') (h' : HeapKept g m' m'') :
    HeapKept g m m'' := by
  intro va hva
  rw [h' va hva, h va hva]

theorem HeapKept.of_layout {g' : Layout} {m m' : ByteMemory} (h : HeapKept g' m m')
    (hpage : g'.heapPage = g.heapPage) (hheap : g'.heap = g.heap) : HeapKept g m m' := by
  intro va hva
  have hphys : g'.phys va = g.phys va := by
    obtain ⟨hlow, hhigh⟩ := hva
    have hidx : va / 4096 - g.heapPage < g.heap.length := by omega
    unfold Layout.phys Layout.lowFrame
    rw [hpage, hheap, List.getElem?_eq_getElem hidx, if_pos (by omega), if_pos (by omega)]
    rfl
  have hin : g'.InHeap va := by
    unfold Layout.InHeap
    rw [hpage, hheap]
    exact hva
  rw [← hphys]
  exact h va hin

/-- Writes to a frame that someone else owns. -/
theorem KernelSpace.heapKept (h : KernelSpace s g) {o : Owner} {f : ℕ} (hf : g.Owns o f)
    (ho : ∀ k, o ≠ .heap k) {m m' : ByteMemory}
    (hm : ∀ x, x < f ∨ f + 4096 ≤ x → m' x = m x) : HeapKept g m m' := by
  intro va hva
  obtain ⟨f', hf', hfa', hpf'⟩ := h.phys_heap hva
  have hne := h.exact.ne_of_owner_ne hf hf' (ho _)
  have hfa := (h.frame_bounds hf).1
  exact hm _ (by omega)

/-- A frame without an owner is not the heap's either. -/
theorem KernelSpace.heapKept_free (h : KernelSpace s g) {f : ℕ} (hf : ¬s.pmm.UsedFrame f)
    (hfa : f % 4096 = 0) {m m' : ByteMemory} (hm : ∀ x, x < f ∨ f + 4096 ≤ x → m' x = m x) :
    HeapKept g m m' := by
  intro va hva
  obtain ⟨f', hf', hfa', hpf'⟩ := h.phys_heap hva
  have hne : f ≠ f' := by
    intro heq
    rw [← heq] at hf'
    exact hf ((h.exact.used_iff f).mpr ⟨_, hf'⟩)
  exact hm _ (by omega)

theorem KernelSpace.heapKept_entry (h : KernelSpace s g) {o : Owner} {f : ℕ} (hf : g.Owns o f)
    (ho : ∀ k, o ≠ .heap k) (m : ByteMemory) {k : ℕ} (hk : k < 1024) (v : ℕ) :
    HeapKept g m (m.set32 (f + 4 * k) v) :=
  h.heapKept hf ho fun _ _ => set32_of_outside m v (by omega)

theorem KernelSpace.heapKept_entry_free (h : KernelSpace s g) {f : ℕ} (hf : ¬s.pmm.UsedFrame f)
    (hfa : f % 4096 = 0) (m : ByteMemory) {k : ℕ} (hk : k < 1024) (v : ℕ) :
    HeapKept g m (m.set32 (f + 4 * k) v) :=
  h.heapKept_free hf hfa fun _ _ => set32_of_outside m v (by omega)

/-! ## Addresses between the low 4 MiB and the windows -/

theorem present_add {a k : ℕ} (ha : a % 4096 = 0) (hk : k % 2 = 1) : present (a + k) := by
  unfold present
  omega

/-- The kernel's directory maps nothing there. -/
theorem KernelSpace.translate_root (h : KernelSpace s g) {va : ℕ} (hlow : 1 ≤ va / 2 ^ 22)
    (hhigh : va / 2 ^ 22 < 1022) : X86Paging.translate s.mem g.root va = none := by
  have hentry : entry s.mem g.root (va / 2 ^ 22) = 0 := by
    refine h.holds .root g.root _ 0 rfl (by omega) ?_
    change some (if va / 2 ^ 22 = 0 then g.table0 + 3 else if va / 2 ^ 22 = 1022 then pte 3 g.temp
      else if va / 2 ^ 22 = 1023 then g.root + 3 else 0) = some 0
    rw [if_neg (by omega), if_neg (by omega), if_neg (by omega)]
  unfold X86Paging.translate
  simp only [hentry]
  exact if_neg (by decide)

theorem KernelSpace.dir_entry (h : KernelSpace s g) {i : ℕ} {sp : Space}
    (hsp : g.space i = some sp) {k : ℕ} (hlow : 1 ≤ k) (hhigh : k < 1022) :
    entry s.mem sp.dir k = pte 7 (sp.table k) := by
  refine h.holds (.dir i) sp.dir k _ (by simp [Layout.plan, hsp]) (by omega) ?_
  have h0 : ¬k = 0 := by omega
  have h1 : ¬k = 1022 := by omega
  have h2 : ¬k = 1023 := by omega
  simp [Layout.plan, hsp, h0, h1, h2]

theorem KernelSpace.table_entry (h : KernelSpace s g) {i : ℕ} {sp : Space}
    (hsp : g.space i = some sp) {k f j : ℕ} (hf : sp.table k = some f) (hj : j < 1024) :
    entry s.mem f j = pte 7 (sp.page k j) :=
  h.holds (.table i k) f j _ (by simp [Layout.plan, hsp, hf]) hj (by simp [Layout.plan, hsp])

/-- The directory of a space maps its pages. -/
theorem KernelSpace.translate_space (h : KernelSpace s g) {i : ℕ} {sp : Space}
    (hsp : g.space i = some sp) {va : ℕ} (hlow : 1 ≤ va / 2 ^ 22) (hhigh : va / 2 ^ 22 < 1022) :
    X86Paging.translate s.mem sp.dir va =
      (sp.page (va / 2 ^ 22) (va / 4096 % 1024)).map (· + va % 4096) := by
  have hpde := h.dir_entry hsp hlow hhigh
  unfold X86Paging.translate
  cases htable : sp.table (va / 2 ^ 22) with
  | none =>
      rw [htable] at hpde
      simp only [hpde, pte]
      rw [if_neg (by decide)]
      cases hpage : sp.page (va / 2 ^ 22) (va / 4096 % 1024) with
      | none => rfl
      | some f =>
          obtain ⟨-, f', hf'⟩ := h.valid.page_range i sp _ _ f hsp hpage
          rw [htable] at hf'
          cases hf'
  | some f =>
      have haligned := (h.frame_bounds (o := .table i _) ⟨sp, hsp, htable⟩).1
      have hpte := h.table_entry hsp htable (show va / 4096 % 1024 < 1024 by omega)
      have hframe : frameOf (f + 7) = f := frameOf_add haligned (by omega)
      rw [htable] at hpde
      simp only [hpde, pte, hframe, hpte]
      rw [if_pos (present_add haligned (by omega))]
      cases hpage : sp.page (va / 2 ^ 22) (va / 4096 % 1024) with
      | none =>
          rw [if_neg (by decide)]
          rfl
      | some f' =>
          have haligned' := (h.frame_bounds (o := .page i _ _) ⟨sp, hsp, hpage⟩).1
          simp only
          rw [if_pos (present_add haligned' (by omega)), frameOf_add haligned' (by omega)]
          rfl

/-! ## New tables -/

/-- What a free frame's address is mapped to, when it is mapped at all. -/
theorem KernelSpace.translate_frame (h : KernelSpace s g) (hdir : g.IsDir s.cr3) {f pa : ℕ}
    (hfa : f % 4096 = 0) (hlt : f < 2 ^ 24) (hreach : s.translate f = some pa) :
    f < 2 ^ 22 ∧ pa = g.lowFrame (f / 4096) ∨
      ∃ i sp, g.space i = some sp ∧ sp.dir = s.cr3 ∧
        sp.page (f / 2 ^ 22) (f / 4096 % 1024) = some pa := by
  rw [translate_eq h.paging (by omega)] at hreach
  by_cases hlow : f < 2 ^ 22
  · rw [h.translate_low (h.active hdir) hlow] at hreach
    exact .inl ⟨hlow, by have := Option.some.inj hreach; omega⟩
  · rcases hdir with hroot | ⟨i, sp, hsp, hcr3⟩
    · rw [hroot, h.translate_root (by omega) (by omega)] at hreach
      cases hreach
    · rw [← hcr3, h.translate_space hsp (by omega) (by omega)] at hreach
      obtain ⟨f', hf', hpa⟩ := Option.map_eq_some_iff.mp hreach
      have hf0 : f' = pa := by omega
      rw [hf0] at hf'
      exact .inr ⟨i, sp, hsp, hcr3, hf'⟩

/-- When the address of a free frame is mapped to the frame itself, the whole frame can be
written there, and stays so while it is filled. -/
theorem KernelSpace.zero_reaches (h : KernelSpace s g) (hdir : g.IsDir s.cr3) {f : ℕ}
    (hfree : ¬s.pmm.UsedFrame f) (hfa : f % 4096 = 0) (hlt : f < 2 ^ 24)
    (hreach : s.translate f = some f) {m : ByteMemory}
    (hm : ∀ x, x < f ∨ f + 4096 ≤ x → m x = s.mem x) {o : ℕ} (ho : o < 4096) :
    Machine.translate { s with mem := m } (f + o) = some (f + o) := by
  rcases h.translate_frame hdir hfa hlt hreach with ⟨hlow, hself⟩ | ⟨i, sp, hsp, -, hpage⟩
  · have hm' : KernelSpace { s with mem := m } g := by
      refine h.of_bytes ?_
      intro r f' hf' o ho
      have hne : f ≠ f' := by
        intro heq
        rw [← heq] at hf'
        exact hfree ((h.exact.used_iff f).mpr ⟨_, h.valid.owns_role hf'⟩)
      have hfa' := (h.frame_bounds (h.valid.owns_role hf')).1
      exact hm _ (by omega)
    have hdiv : (f + o) / 4096 = f / 4096 := by omega
    rw [hm'.translate_phys hdir (by omega), Layout.phys, hdiv, ← hself]
    congr 1
    omega
  · exact absurd ((h.exact.used_iff f).mpr ⟨.page i _ _, sp, hsp, hpage⟩) hfree

/-- Where the zeroing of a new table at `f` goes when it does not reach its frame: to a page of
the heap or of the windows, or to a page of the active space. -/
def Layout.Shadowed (g : Layout) (cr3 f : ℕ) : Prop :=
  g.InHeap f ∨ g.InWindows f ∨ ∃ i sp b, g.space i = some sp ∧ sp.dir = cr3 ∧
    sp.page (f / 2 ^ 22) (f / 4096 % 1024) = some b

/-- A free frame's address is mapped to the frame, or is shadowed. -/
theorem KernelSpace.reached_or_shadowed (h : KernelSpace s g) (hdir : g.IsDir s.cr3) {f pa : ℕ}
    (hfa : f % 4096 = 0) (hlt : f < 2 ^ 24) (hreach : s.translate f = some pa) :
    pa = f ∨ g.Shadowed s.cr3 f := by
  rcases h.translate_frame hdir hfa hlt hreach with ⟨hlow, hpa⟩ | ⟨i, sp, hsp, hcr3, hpage⟩
  · by_cases hheap : g.InHeap f
    · exact .inr (.inl hheap)
    · by_cases hwin : g.InWindows f
      · exact .inr (.inr (.inl hwin))
      · refine .inl ?_
        rw [hpa, g.lowFrame_identity hheap hwin]
        omega
  · exact .inr (.inr (.inr ⟨i, sp, pa, hsp, hcr3, hpage⟩))

/-! ## The temporary window -/

/-- The address of page `j` of the temporary window's table. -/
def tempPage (j : ℕ) : ℕ := 0xFF800000 + 4096 * j

theorem tempPagedirAddr_eq : tempPagedirAddr = tempPage 1022 := by decide

theorem tempPagetableAddr_eq : tempPagetableAddr = tempPage 1023 := by decide

section Window

variable (h : KernelSpace s g) (hdir : g.IsDir s.cr3) (ht : g.temp = some t) (p : Pmm)

include h hdir ht

theorem KernelSpace.window_entry :
    entry s.mem s.cr3 1022 = t + 3 ∧ frameOf (t + 3) = t ∧ present (t + 3) := by
  have haligned := (h.frame_bounds (o := .temp) ht).1
  refine ⟨?_, frameOf_add haligned (by omega), present_add haligned (by omega)⟩
  rw [(h.active hdir).window, ht]
  rfl

/-- Mapping a page of the window writes one entry of its table. -/
theorem KernelSpace.map_temp {j : ℕ} (hj : j < 1024) (dir phys flags : ℕ) :
    pagingMapPage dir (tempPage j) phys flags { s with pmm := p } =
      .ok () { s with pmm := p, mem := s.mem.set32 (t + 4 * j) (phys ||| flags) } := by
  obtain ⟨hentry, hframe, hpresent⟩ := h.window_entry hdir ht
  have hd : tempPage j / 2 ^ 22 = 1022 := by
    unfold tempPage
    omega
  have hi : tempPage j / 4096 % 1024 = j := by
    unfold tempPage
    omega
  have hva : tempPage j < 2 ^ 32 := by
    unfold tempPage
    omega
  have hmap := pagingMapPage_present (s := { s with pmm := p }) h.paging
    (h.active hdir).selfMapped hva dir phys flags
  simp only [hd, hi, hentry, hframe] at hmap
  exact hmap hpresent

theorem KernelSpace.translate_temp {j f o : ℕ} (hj : j < 1024) (hf : f % 4096 = 0)
    (hentry : entry s.mem t j = f + 3) (ho : o < 4096) :
    Machine.translate { s with pmm := p } (tempPage j + o) = some (f + o) := by
  obtain ⟨hwindow, hframe, hpresent⟩ := h.window_entry hdir ht
  have hd : (tempPage j + o) / 2 ^ 22 = 1022 := by
    unfold tempPage
    omega
  have hi : (tempPage j + o) / 4096 % 1024 = j := by
    unfold tempPage
    omega
  have hmod : (tempPage j + o) % 4096 = o := by
    unfold tempPage
    omega
  rw [translate_eq (s := { s with pmm := p }) h.paging (by unfold tempPage; omega),
    translate_eq_some, hd, hi, hmod, hwindow, hframe, hentry]
  exact ⟨hpresent, present_add hf (by omega), by rw [frameOf_add hf (by omega)]⟩

/-- Reading an entry of the table a window page shows. -/
theorem KernelSpace.load_temp {j f k : ℕ} (hj : j < 1024) (hf : f % 4096 = 0)
    (hentry : entry s.mem t j = f + 3) (hk : k < 1024) :
    load32 (tempPage j + 4 * k) { s with pmm := p } =
      .ok (entry s.mem f k) { s with pmm := p } := by
  refine load32_eq (s := { s with pmm := p }) ?_
  intro o ho
  rw [Nat.add_assoc, h.translate_temp hdir ht p hj hf hentry (by omega), Nat.add_assoc]

end Window

/-- The window's table is made with the first page that is mapped in it. -/
theorem KernelSpace.map_temp_new (h : KernelSpace s g) (hroot : s.cr3 = g.root)
    (hnone : g.temp = none) (hne : (pmmAllocFrame s.pmm).1 ≠ 0)
    (hreach : s.translate (pmmAllocFrame s.pmm).1 = some (pmmAllocFrame s.pmm).1) {j : ℕ}
    (hj : 1022 ≤ j) (hlt : j < 1024) (dir : ℕ) {d : ℕ} (hd : d % 4096 = 0) (hd' : d < 2 ^ 24) :
    ∃ m, pagingMapPage dir (tempPage j) d (pagingFlagPresent ||| pagingFlagRw) s =
        .ok () { s with
          pmm := (pmmAllocFrame s.pmm).2, mem := m
          trace := .newTable (pmmAllocFrame s.pmm).1 (some (pmmAllocFrame s.pmm).1) :: s.trace } ∧
      KernelSpace { s with
          pmm := (pmmAllocFrame s.pmm).2, mem := m
          trace := .newTable (pmmAllocFrame s.pmm).1 (some (pmmAllocFrame s.pmm).1) :: s.trace }
        { g with temp := some (pmmAllocFrame s.pmm).1 } ∧
      entry m (pmmAllocFrame s.pmm).1 j = d + 3 ∧ HeapKept g s.mem m := by
  obtain ⟨haligned, hcap, hfree, -⟩ := usedFrame_pmmAllocFrame hne
  rw [h.capacity] at hcap
  have hused : s.pmm.UsedFrame g.root :=
    (h.exact.used_iff _).mpr ⟨.boot g.root, rfl, h.valid.root_aligned, h.valid.root_lt⟩
  have hroot_ne : s.cr3 ≠ (pmmAllocFrame s.pmm).1 := by
    intro heq
    rw [← heq, hroot] at hfree
    exact hfree hused
  have hdiv : tempPage j / 2 ^ 22 = 1022 := by
    unfold tempPage
    omega
  have hidx : tempPage j / 4096 % 1024 = j := by
    unfold tempPage
    omega
  have hva : tempPage j < 2 ^ 32 := by
    unfold tempPage
    omega
  have hentry : entry s.mem s.cr3 1022 = 0 := by
    rw [(h.active (.inl hroot)).window, hnone]
    rfl
  have hor : d ||| (pagingFlagPresent ||| pagingFlagRw) = d + 3 := or_eq_add hd (by decide)
  have hmap := pagingMapPage_new h.paging (h.active (.inl hroot)).selfMapped hva dir d
    (pagingFlagPresent ||| pagingFlagRw) (by rw [hdiv, hentry]; decide) rfl hne haligned (by omega)
    hroot_ne (by decide)
    (fun m' hm' o ho => h.zero_reaches (.inl hroot) hfree haligned (by omega) hreach hm' ho)
  have hmod : (pagingFlagPresent ||| pagingFlagRw) % 8 = pagingFlagPresent ||| pagingFlagRw := rfl
  simp only [hdiv, hidx, hor, hmod] at hmap
  have hmade := (h.alloc hne (.newTable (pmmAllocFrame s.pmm).1 (some (pmmAllocFrame s.pmm).1) ::
    s.trace)).makeTemp (t := (pmmAllocFrame s.pmm).1) (.inl rfl) hnone
  have hlayout : (g.take (pmmAllocFrame s.pmm).1).makeTemp (pmmAllocFrame s.pmm).1 =
      { g with temp := some (pmmAllocFrame s.pmm).1 } := by
    change { (g.take (pmmAllocFrame s.pmm).1).drop (pmmAllocFrame s.pmm).1 with
      temp := some (pmmAllocFrame s.pmm).1 } = _
    rw [drop_take (h.not_loose hne)]
  rw [hlayout] at hmade
  have hset := hmade.setTemp (t := (pmmAllocFrame s.pmm).1) rfl hj hlt (d + 3)
  have hcr3 : s.cr3 = (g.take (pmmAllocFrame s.pmm).1).root := hroot
  rw [← hcr3] at hset
  refine ⟨_, hmap, hset, ?_, ?_⟩
  · rw [entry_set32_same]
    exact Nat.mod_eq_of_lt (by omega)
  · have hfill : HeapKept g s.mem (s.mem.fill (pmmAllocFrame s.pmm).1 4096 fun _ => 0) :=
      h.heapKept_free hfree haligned fun x hx => ByteMemory.fill_outside _ _ hx
    have hlink := h.heapKept_entry (o := .boot g.root)
      ⟨rfl, h.valid.root_aligned, h.valid.root_lt⟩ (by simp)
      (s.mem.fill (pmmAllocFrame s.pmm).1 4096 fun _ => 0) (show 1022 < 1024 by omega)
      ((pmmAllocFrame s.pmm).1 + (pagingFlagPresent ||| pagingFlagRw))
    rw [← hroot] at hlink
    exact (hfill.trans hlink).trans (h.heapKept_entry_free hfree haligned _ hlt _)

end MyOS
