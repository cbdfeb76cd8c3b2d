import MyOS.Verification.Memory.Directory

/-! `paging_clone_directory` in any active directory: the new directory shares the tables of the
kernel's range, and the active address space is left as it was. -/

namespace MyOS

open Effect X86Paging ByteMemory

variable {s : Machine} {t d : ℕ}

/-! ## The copy -/

section Shown

variable (h : WindowTable s t) (hd : Outside s.mem s.cr3 d) (hshown : entry s.mem t 1022 = d + 3)
  {m : ByteMemory} (hm : ∀ x, x < d ∨ d + 4096 ≤ x → m x = s.mem x)

include h hd hm

/-- Bytes of the frame that is shown may change. -/
theorem WindowTable.of_shown : WindowTable { s with mem := m } t :=
  h.of_entries fun _ hk => hd.entry_frame hm h.tables.aligned hd.ne_dir.symm hk

theorem WindowTable.load_active {k : ℕ} (hk : k < 1024) :
    load32 (currentPageDir + 4 * k) { s with mem := m } =
      .ok (entry s.mem s.cr3 k) { s with mem := m } := by
  have hm' := h.of_shown hd hm
  have hload := load_directory hm'.paging hm'.self hk
  have hentry : entry m s.cr3 k = entry s.mem s.cr3 k :=
    hd.entry_frame hm h.tables.aligned hd.ne_dir.symm hk
  rw [← hentry]
  exact hload

omit hm in
theorem WindowTable.ne_shown : t ≠ d := by
  rw [← h.frame]
  exact hd.ne_table 1022 (by omega) h.linked

include hshown

theorem WindowTable.translate_shown {o : ℕ} (ho : o < 4096) :
    Machine.translate { s with mem := m } (tempPagedirAddr + o) = some (d + o) := by
  have hentry : entry m t 1022 = d + 3 := by
    rw [← hshown]
    exact hd.entry_frame hm h.aligned (h.ne_shown hd) (by omega)
  rw [tempPagedirAddr_eq]
  exact (h.of_shown hd hm).translate (by omega) hd.aligned hentry ho

theorem WindowTable.store_shown {k : ℕ} (hk : k < 1024) (v : ℕ) :
    store32 (tempPagedirAddr + 4 * k) v { s with mem := m } =
      .ok () { s with mem := m.set32 (d + 4 * k) v } :=
  store32_eq v (h.translate_shown hd hshown hm (by omega))

/-- The loop over the upper entries copies those that are present. -/
theorem WindowTable.copyUpper :
    ∃ m', forRange 255 (fun k => do
        let e ← load32 (currentPageDir + 4 * (768 + k))
        if present e then store32 (tempPagedirAddr + 4 * (768 + k)) e else pure ())
      { s with mem := m } = .ok () { s with mem := m' } ∧
      (∀ x, x < d ∨ d + 4096 ≤ x → m' x = s.mem x) ∧
      ∀ i < 1024, entry m' d i =
        if 768 ≤ i ∧ i < 1023 ∧ present (entry s.mem s.cr3 i) then entry s.mem s.cr3 i
        else entry m d i := by
  let inv : ℕ → Machine → Prop := fun n u => ∃ m', u = { s with mem := m' } ∧
    (∀ x, x < d ∨ d + 4096 ≤ x → m' x = s.mem x) ∧
    ∀ i < 1024, entry m' d i =
      if 768 ≤ i ∧ i < 768 + n ∧ present (entry s.mem s.cr3 i) then entry s.mem s.cr3 i
      else entry m d i
  have hstart : inv 0 { s with mem := m } := by
    refine ⟨m, rfl, hm, ?_⟩
    intro i _
    rw [if_neg (by omega)]
  have hstep : ∀ n u, n < 255 → inv n u → ∃ u', (do
      let e ← load32 (currentPageDir + 4 * (768 + n))
      if present e then store32 (tempPagedirAddr + 4 * (768 + n)) e else pure () : Kernel Unit) u =
        .ok () u' ∧ inv (n + 1) u' := by
    rintro n u hn ⟨m', rfl, hm', hentries⟩
    have hload := h.load_active hd hm' (show 768 + n < 1024 by omega)
    rw [bind_of_ok hload]
    by_cases hp : present (entry s.mem s.cr3 (768 + n))
    · rw [if_pos hp]
      refine ⟨_, h.store_shown hd hshown hm' (by omega) _, _, rfl, ?_, ?_⟩
      · intro x hx
        rw [set32_of_outside m' _ (by omega), hm' x hx]
      · intro i hi
        by_cases heq : i = 768 + n
        · rw [heq, entry_set32_same, Nat.mod_eq_of_lt (entry_lt _ _ _),
            if_pos ⟨by omega, by omega, hp⟩]
        · rw [entry_set32_index _ _ _ heq, hentries i hi]
          have hiff : i < 768 + n ↔ i < 768 + (n + 1) := by omega
          simp only [hiff]
    · rw [if_neg hp]
      refine ⟨_, rfl, m', rfl, hm', ?_⟩
      intro i hi
      rw [hentries i hi]
      by_cases heq : i = 768 + n
      · rw [heq, if_neg (by omega), if_neg (fun hall => hp hall.2.2)]
      · have hiff : i < 768 + n ↔ i < 768 + (n + 1) := by omega
        simp only [hiff]
  obtain ⟨u, hrun, m', rfl, hm', hentries⟩ := forRange_total inv hstep hstart
  exact ⟨m', hrun, hm', hentries⟩

omit hm in
/-- With the frame of the new directory shown, all of its entries are written. -/
theorem WindowTable.fillDirectory :
    ∃ m, (do
          memset tempPagedirAddr 0 4096
          copyKernelEntries tempPagedirAddr
          store32 (tempPagedirAddr + 4 * 1023) (d ||| pagingFlagPresent ||| pagingFlagRw) :
            Kernel Unit) s = .ok () { s with mem := m } ∧
      (∀ x, x < d ∨ d + 4096 ≤ x → m x = s.mem x) ∧
      ∀ k < 1024, entry m d k =
        if k = 0 then entry s.mem s.cr3 0
        else if 768 ≤ k ∧ k < 1023 ∧ present (entry s.mem s.cr3 k) then entry s.mem s.cr3 k
        else if k = 1023 then (d + 3) % 2 ^ 32 else 0 := by
  have hzero : ∀ x, x < d ∨ d + 4096 ≤ x → (s.mem.fill d 4096 fun _ => 0) x = s.mem x :=
    fun x hx => fill_outside s.mem _ hx
  have hclear : memset tempPagedirAddr 0 4096 s =
      .ok () { s with mem := s.mem.fill d 4096 fun _ => 0 } :=
    memset_eq 0 fun m' hm' k hk => h.translate_shown hd hshown hm' hk
  have hload := h.load_active hd hzero (show 0 < 1024 by omega)
  have hstore := h.store_shown hd hshown hzero (show 0 < 1024 by omega) (entry s.mem s.cr3 0)
  have hfirst : ∀ x, x < d ∨ d + 4096 ≤ x →
      ((s.mem.fill d 4096 fun _ => 0).set32 (d + 4 * 0) (entry s.mem s.cr3 0)) x = s.mem x := by
    intro x hx
    rw [set32_of_outside _ _ (by omega), hzero x hx]
  obtain ⟨m, hcopy, hm, hentries⟩ := h.copyUpper hd hshown hfirst
  have hlast := h.store_shown hd hshown hm (show 1023 < 1024 by omega) (d + 3)
  have hor : d ||| pagingFlagPresent ||| pagingFlagRw = d + 3 := by
    rw [Nat.or_assoc]
    exact or_eq_add hd.aligned (by decide)
  refine ⟨m.set32 (d + 4 * 1023) (d + 3), ?_, ?_, ?_⟩
  · rw [Nat.mul_zero, Nat.add_zero] at hload hstore
    have hentries : copyKernelEntries tempPagedirAddr
        { s with mem := s.mem.fill d 4096 fun _ => 0 } = .ok () { s with mem := m } := by
      rw [copyKernelEntries, bind_of_ok hload, bind_of_ok hstore]
      exact hcopy
    rw [bind_of_ok hclear, bind_of_ok hentries, hor]
    exact hlast
  · intro x hx
    rw [set32_of_outside m _ (by omega), hm x hx]
  · intro k hk
    by_cases h1023 : k = 1023
    · rw [h1023, entry_set32_same, if_neg (by omega), if_neg (by omega), if_pos rfl]
    · rw [entry_set32_index _ _ _ h1023, hentries k hk, if_neg h1023]
      by_cases h0 : k = 0
      · rw [h0, if_neg (by omega), if_pos rfl, entry_set32_same,
          Nat.mod_eq_of_lt (entry_lt _ _ _)]
      · rw [entry_set32_index _ _ _ h0, PageTables.entry_fill_zero s.mem hk, if_neg h0]

end Shown

/-! ## `paging_clone_directory` -/

/-- The frames a clone takes: one for the directory, and where the temporary window has no table
one more, which can be reached at its physical address. -/
structure CloneRoom (s : Machine) : Prop where
  frame : (pmmAllocFrame s.pmm).1 ≠ 0
  window : WindowRoom { s with pmm := (pmmAllocFrame s.pmm).2 }

theorem OwnDirectory.alloc (h : OwnDirectory s) (hne : (pmmAllocFrame s.pmm).1 ≠ 0) :
    OwnDirectory { s with pmm := (pmmAllocFrame s.pmm).2 } := by
  obtain ⟨-, -, -, hused⟩ := usedFrame_pmmAllocFrame hne
  refine ⟨h.paging, h.self, h.tables, (hused _).mpr (.inl h.used), ?_⟩
  intro k hk hp
  exact (hused _).mpr (.inl (h.table_used k hk hp))

/-- A frame that is taken first is still outside the tables when the window is open. -/
theorem WindowOpened.outside {s' : Machine} {j f : ℕ} (ho : WindowOpened s j f t s')
    (hdir : s.pmm.UsedFrame s.cr3) (hd : Outside s.mem s.cr3 d) (hused : s.pmm.UsedFrame d) :
    Outside s'.mem s.cr3 d := by
  have hcr3 : s'.cr3 = s.cr3 := by rw [ho.same]
  have htd : t ≠ d := by
    obtain ⟨hp, ht, -⟩ | ⟨-, ht, hne, -⟩ := ho.found
    · rw [ht]
      exact hd.ne_table 1022 (by omega) hp
    · rintro rfl
      rw [ht] at hused hne
      exact (usedFrame_pmmAllocFrame hne).2.2.1 hused
  refine ⟨hd.aligned, hd.ne_dir, ?_⟩
  intro k hk hp
  by_cases hk1022 : k = 1022
  · rw [hk1022, ← hcr3, ho.table.frame]
    exact htd
  · have hkept : entry s'.mem s.cr3 k = entry s.mem s.cr3 k := by
      apply ho.kept _ _ hdir (by omega) (fun _ _ => hk1022)
      intro heq
      exact absurd (hcr3.trans heq).symm ho.table.ne_dir
    rw [hkept] at hp ⊢
    exact hd.ne_table k hk hp

/-- A clone shares the tables of the kernel's range with the active directory, as they are when
it returns, and has no other entries. The active address space stays as it was. -/
theorem paging_clone_directory_correct (s : Machine) (h : OwnDirectory s) (hroom : CloneRoom s)
    (src : ℕ) :
    ∃ d s', pagingCloneDirectory src s = .ok d s' ∧
      (d % 4096 = 0 ∧ d / 4096 < s.pmm.capacity ∧ s.pmm.frameUsed (d / 4096) = false) ∧
      entry s'.mem d 0 = entry s.mem s.cr3 0 ∧ entry s'.mem s.cr3 0 = entry s.mem s.cr3 0 ∧
      (∀ k, 1 ≤ k → k < 768 → entry s'.mem d k = 0) ∧
      (∀ k, 768 ≤ k → k < 1023 → entry s'.mem d k =
        if present (entry s'.mem s.cr3 k) then entry s'.mem s.cr3 k else 0) ∧
      entry s'.mem d 1023 = d + (pagingFlagPresent ||| pagingFlagRw) ∧
      s'.cr3 = s.cr3 ∧
      (∀ va < 0xFFC00000, va / 4096 ≠ tempPagedirAddr / 4096 →
        walk s'.mem s.cr3 va = walk s.mem s.cr3 va) ∧
      walk s'.mem s.cr3 tempPagedirAddr = none := by
  obtain ⟨hta, hcap, hfresh, hused⟩ := usedFrame_pmmAllocFrame hroom.frame
  have hlt := alloc_lt hroom.frame
  generalize hd : (pmmAllocFrame s.pmm).1 = d at hta hcap hfresh hused hlt
  have hown := h.alloc hroom.frame
  have hout : Outside s.mem s.cr3 d := by
    refine ⟨hta, ?_, ?_⟩
    · rintro rfl
      exact hfresh h.used
    · rintro k hk hp rfl
      exact hfresh (h.table_used k hk hp)
  obtain ⟨t, u, hopen, ho⟩ := hown.open_window (show 1022 < 1024 by omega) currentPageDir hta hlt
    hroom.window
  have hcr3 : u.cr3 = s.cr3 := by rw [ho.same]
  have houtside : Outside u.mem u.cr3 d := by
    rw [hcr3]
    exact ho.outside hown.used hout ((hused d).mpr (.inr rfl))
  obtain ⟨m, hfill, hm, hentries⟩ := ho.table.fillDirectory houtside ho.shown
  have hshown := ho.table.of_shown houtside hm
  have hclose := hshown.map (show 1022 < 1024 by omega) currentPageDir 0 0
  have hset := hshown.set (show 1022 < 1024 by omega) (0 ||| 0)
  have htd := ho.table.ne_shown houtside
  -- the entries of both directories are those before the window is closed
  have hnew : ∀ k < 1024, entry (m.set32 (t + 4 * 1022) (0 ||| 0)) d k = entry m d k := by
    intro k hk
    exact entry_set32_frame m _ ho.table.aligned hta (by omega) hk htd.symm
  have hactive : ∀ k < 1024, entry (m.set32 (t + 4 * 1022) (0 ||| 0)) u.cr3 k =
      entry u.mem u.cr3 k := by
    intro k hk
    rw [entry_set32_frame m _ ho.table.aligned ho.table.tables.aligned (by omega) hk
      ho.table.ne_dir.symm]
    exact houtside.entry_frame hm ho.table.tables.aligned houtside.ne_dir.symm hk
  have hzero : entry u.mem u.cr3 0 = entry s.mem s.cr3 0 := by
    rw [hcr3]
    apply ho.kept _ _ hown.used (by omega) (fun _ _ => by omega)
    intro heq
    omega
  have hwalk : ∀ va < 0xFFC00000, va / 4096 ≠ tempPagedirAddr / 4096 →
      walk (m.set32 (t + 4 * 1022) (0 ||| 0)) u.cr3 va = walk s.mem s.cr3 va := by
    intro va hva hne
    rw [tempPagedirAddr_eq] at hne
    have hclosed := hshown.walk_set (show 1022 < 1024 by omega) hva hne (0 ||| 0)
    have hopened := ho.pages va hva hne
    rw [hclosed.trans (houtside.walk hm ho.table.tables.aligned hva), hcr3]
    exact hopened
  have hunmapped : walk (m.set32 (t + 4 * 1022) (0 ||| 0)) u.cr3 tempPagedirAddr = none := by
    rw [tempPagedirAddr_eq]
    exact hset.walk_none (by omega) (entry_set32_same m t 1022 _)
  refine ⟨d, { u with mem := m.set32 (t + 4 * 1022) (0 ||| 0) }, ?_, ⟨hta, hcap, ?_⟩, ?_⟩
  · obtain ⟨⟨⟩, u₁, hclear, hrest⟩ := bind_eq_ok.mp hfill
    obtain ⟨⟨⟩, u₂, hcopy, hlast⟩ := bind_eq_ok.mp hrest
    rw [← tempPagedirAddr_eq] at hopen hclose
    rw [pagingCloneDirectory, bind_of_ok (allocFrame_eq hroom.frame), if_neg hroom.frame, hd,
      bind_of_ok hopen, bind_of_ok hclear, bind_of_ok hcopy, bind_of_ok hlast, bind_of_ok hclose]
    rfl
  · rw [Bool.eq_false_iff]
    intro htrue
    exact hfresh ⟨hta, hcap, htrue⟩
  · rw [← hcr3]
    refine ⟨?_, ?_, ?_, ?_, ?_, rfl, ?_, hunmapped⟩
    · rw [hnew 0 (by omega), hentries 0 (by omega), if_pos rfl, hzero, hcr3]
    · rw [hactive 0 (by omega), hzero, hcr3]
    · intro k hk hk'
      rw [hnew k (by omega), hentries k (by omega), if_neg (by omega), if_neg (by omega),
        if_neg (by omega)]
    · intro k hk hk'
      rw [hnew k (by omega), hentries k (by omega), hactive k (by omega), if_neg (by omega)]
      by_cases hp : present (entry u.mem u.cr3 k)
      · rw [if_pos ⟨hk, hk', hp⟩, if_pos hp]
      · rw [if_neg fun hall => hp hall.2.2, if_neg hp, if_neg (by omega)]
    · rw [hnew 1023 (by omega), hentries 1023 (by omega), if_neg (by omega), if_neg (by omega),
        if_pos rfl, Nat.mod_eq_of_lt (by omega)]
      rfl
    · intro va hva hne
      rw [hwalk va hva hne, hcr3]

/-- The first clone after boot takes a frame for the window's table too. -/
theorem paging_clone_directory_correct_first :
    ∃ d s', pagingCloneDirectory 0x1000 identityPmm = .ok d s' ∧
      (d % 4096 = 0 ∧ d / 4096 < identityPmm.pmm.capacity ∧
        identityPmm.pmm.frameUsed (d / 4096) = false) ∧
      entry s'.mem d 0 = 0x2003 ∧
      (∀ k, 1 ≤ k → k < 768 → entry s'.mem d k = 0) ∧
      entry s'.mem d 1023 = d + 3 ∧
      walk s'.mem 0x1000 tempPagedirAddr = none := by
  have hsecond : (pmmAllocFrame (pmmAllocFrame identityPmm.pmm).2).1 = 0x4000 := by decide
  have hroom : CloneRoom identityPmm := by
    refine ⟨by decide, ?_⟩
    intro _
    change (pmmAllocFrame (pmmAllocFrame identityPmm.pmm).2).1 ≠ 0 ∧ ∀ o < 4096,
      X86Paging.translate identityPmm.mem 0x1000
        ((pmmAllocFrame (pmmAllocFrame identityPmm.pmm).2).1 + o) = some _
    rw [hsecond]
    refine ⟨by decide, ?_⟩
    intro o ho
    exact (hasIdentity_identityMachine fun _ => 0).translate (by omega)
  have hentry : entry identityPmm.mem identityPmm.cr3 0 = 0x2003 := by
    have hid := (hasIdentity_identityMachine fun _ => 0).directory (k := 0) (by omega)
    rw [identity_directory (by omega), if_pos rfl] at hid
    exact hid
  obtain ⟨d, s', hrun, hfree, hzero, -, hlow, -, hlast, -, -, hnone⟩ :=
    paging_clone_directory_correct identityPmm identityPmm_own hroom 0x1000
  exact ⟨d, s', hrun, hfree, hzero.trans hentry, hlow, hlast, hnone⟩

end MyOS
