import MyOS.Verification.Memory.Window

/-! `paging_free_directory`: the frames of an address space are given back as far as entries 1
to 767 of its directory lead. -/

namespace MyOS

open Effect X86Paging ByteMemory PageTables Ownership

variable {s : Machine} {g : Layout} {t : ℕ}

section Free

variable {i : ℕ} {sp : Space} (h : KernelSpace s g) (hdir : g.IsDir s.cr3)
  (hsp : g.space i = some sp) (ht : g.temp = some t)

include h hdir hsp ht

/-- The frames of one table are given back. -/
theorem KernelSpace.freeTableFrames_spec {k f : ℕ} (hf : sp.table k = some f)
    (hshown : entry s.mem t 1023 = f + 3) (p : Pmm) :
    ∃ p', freeTableFrames tempPagetableAddr { s with pmm := p } = .ok () { s with pmm := p' } ∧
      p'.capacity = p.capacity ∧
      ∀ x, p'.UsedFrame x ↔ p.UsedFrame x ∧ ∀ j < 1024, sp.page k j ≠ some x := by
  have haligned := (h.frame_bounds (o := .table i k) ⟨sp, hsp, hf⟩).1
  let inv : ℕ → Machine → Prop := fun j u => ∃ p', u = { s with pmm := p' } ∧
    p'.capacity = p.capacity ∧ ∀ x, p'.UsedFrame x ↔ p.UsedFrame x ∧ ∀ j' < j, sp.page k j' ≠ some x
  have hstep : ∀ j u, j < 1024 → inv j u → ∃ u', (do
      let e ← load32 (tempPagetableAddr + 4 * j)
      if present e then freeFrame (frameOf e) else pure () : Kernel Unit) u = .ok () u' ∧
        inv (j + 1) u' := by
    rintro j _ hj ⟨p', rfl, hcap, hused⟩
    have hload := h.load_temp hdir ht p' (show 1023 < 1024 by omega) haligned hshown hj
    rw [h.table_entry hsp hf hj, ← tempPagetableAddr_eq] at hload
    rw [bind_of_ok hload]
    cases hpage : sp.page k j with
    | none =>
        refine ⟨{ s with pmm := p' }, ?_, p', rfl, hcap, ?_⟩
        · rw [pte, if_neg (by decide)]
          rfl
        · intro x
          rw [hused x]
          refine and_congr_right fun _ => ⟨?_, fun hall j' hj' => hall j' (by omega)⟩
          intro hall j' hj'
          by_cases hjj : j' = j
          · rw [hjj, hpage]
            simp
          · exact hall j' (by omega)
    | some b =>
        have hb := (h.frame_bounds (o := .page i k j) ⟨sp, hsp, hpage⟩).1
        refine ⟨{ s with pmm := pmmFreeFrame p' b }, ?_, pmmFreeFrame p' b, rfl, hcap, ?_⟩
        · rw [pte, if_pos (present_add hb (by omega)), frameOf_add hb (by omega)]
          rfl
        · intro x
          rw [usedFrame_pmmFreeFrame hb x, hused x, and_assoc]
          refine and_congr_right fun _ => ⟨?_, ?_⟩
          · rintro ⟨hall, hne⟩ j' hj'
            by_cases hjj : j' = j
            · rw [hjj, hpage]
              exact fun heq => hne (Option.some.inj heq).symm
            · exact hall j' (by omega)
          · intro hall
            refine ⟨fun j' hj' => hall j' (by omega), ?_⟩
            intro heq
            exact hall j (by omega) (by rw [hpage, heq])
  obtain ⟨_, hrun, p', rfl, hcap, hused⟩ :=
    forRange_total inv hstep ⟨p, rfl, rfl, fun x => by simp⟩
  exact ⟨p', hrun, hcap, hused⟩

/-- One round of the outer loop: nothing without a table, else the table's frames and the table
itself are given back. -/
theorem KernelSpace.freeEntry_spec {k : ℕ} (hk : 1 ≤ k) (hk' : k < 768)
    (hshown : entry s.mem t 1022 = sp.dir + 3) (p : Pmm) :
    ∃ m p', (do
          let pde ← load32 (tempPagedirAddr + 4 * k)
          if present pde then
            let kernelDirectory := (← get).kernelDirectory
            pagingMapPage kernelDirectory tempPagetableAddr (frameOf pde)
              (pagingFlagPresent ||| pagingFlagRw)
            freeTableFrames tempPagetableAddr
            pagingMapPage kernelDirectory tempPagetableAddr 0 0
            freeFrame (frameOf pde)
          else
            pure () : Kernel Unit) { s with pmm := p } = .ok () { s with mem := m, pmm := p' } ∧
      KernelSpace { s with mem := m } g ∧ entry m t 1022 = sp.dir + 3 ∧ HeapKept g s.mem m ∧
      p'.capacity = p.capacity ∧
      ∀ x, p'.UsedFrame x ↔ p.UsedFrame x ∧ sp.table k ≠ some x ∧ ∀ j, sp.page k j ≠ some x := by
  have hdiraligned := (h.frame_bounds (o := .dir i) ⟨sp, hsp, rfl⟩).1
  have hload := h.load_temp hdir ht p (show 1022 < 1024 by omega) hdiraligned hshown
    (show k < 1024 by omega)
  rw [h.dir_entry hsp hk (by omega), ← tempPagedirAddr_eq] at hload
  rw [bind_of_ok hload]
  cases hf : sp.table k with
  | none =>
      refine ⟨s.mem, p, ?_, h, hshown, fun _ _ => rfl, rfl, ?_⟩
      · rw [pte, if_neg (by decide)]
        rfl
      · intro x
        simp only [ne_eq, reduceCtorEq, not_false_iff, true_and]
        refine (and_iff_left ?_).symm
        intro j hj
        obtain ⟨-, f, hf'⟩ := h.valid.page_range i sp k j x hsp hj
        rw [hf] at hf'
        cases hf'
  | some f =>
      obtain ⟨hfa, hflt⟩ := h.frame_bounds (o := .table i k) ⟨sp, hsp, hf⟩
      have htaligned := (h.frame_bounds (o := .temp) ht).1
      have hor : f ||| (pagingFlagPresent ||| pagingFlagRw) = f + 3 := or_eq_add hfa (by decide)
      have hmap := h.map_temp hdir ht p (show 1023 < 1024 by omega) s.kernelDirectory f
        (pagingFlagPresent ||| pagingFlagRw)
      rw [hor, ← tempPagetableAddr_eq] at hmap
      have hmapped := h.setTemp ht (show 1022 ≤ 1023 by omega) (by omega) (f + 3)
      have hentry : entry (s.mem.set32 (t + 4 * 1023) (f + 3)) t 1023 = f + 3 := by
        rw [entry_set32_same]
        exact Nat.mod_eq_of_lt (by omega)
      obtain ⟨p', hfree, hcap, hused⟩ := hmapped.freeTableFrames_spec hdir hsp ht hf hentry p
      have hunmap := hmapped.map_temp hdir ht p' (show 1023 < 1024 by omega) s.kernelDirectory 0 0
      rw [← tempPagetableAddr_eq] at hunmap
      have hdone := hmapped.setTemp ht (show 1022 ≤ 1023 by omega) (by omega) 0
      refine ⟨_, pmmFreeFrame p' f, ?_, hdone, ?_, ?_, hcap, ?_⟩
      · rw [pte, if_pos (present_add hfa (by omega)), frameOf_add hfa (by omega),
          bind_of_ok (get_apply _), bind_of_ok hmap, bind_of_ok hfree, bind_of_ok hunmap]
        rfl
      · rw [entry_set32_index _ _ _ (by omega), entry_set32_index _ _ _ (by omega)]
        exact hshown
      · have hlast : 1023 < 1024 := by omega
        exact (h.heapKept_entry (o := .temp) ht (by simp) s.mem hlast (f + 3)).trans
          (h.heapKept_entry (o := .temp) ht (by simp) _ hlast 0)
      · intro x
        rw [usedFrame_pmmFreeFrame hfa x, hused x, and_assoc]
        refine and_congr_right fun _ => ⟨?_, ?_⟩
        · rintro ⟨hall, hne⟩
          refine ⟨fun heq => hne (Option.some.inj heq).symm, ?_⟩
          intro j hj
          exact hall j (h.valid.page_range i sp k j x hsp hj).1 hj
        · rintro ⟨hne, hall⟩
          exact ⟨fun j _ => hall j, fun heq => hne (by rw [heq])⟩

/-- A directory is torn down: its frames are free again, as far as entries 1 to 767 lead. -/
theorem KernelSpace.pagingFreeDirectory_spec (hrange : ∀ k f, sp.table k = some f → k < 768) :
    ∃ m p, pagingFreeDirectory sp.dir s = .ok () { s with mem := m, pmm := p } ∧
      KernelSpace { s with mem := m, pmm := p } (g.dropSpace i) ∧ HeapKept g s.mem m := by
  have hown : g.Owns (.dir i) sp.dir := ⟨sp, hsp, rfl⟩
  obtain ⟨hdiraligned, hdirlt⟩ := h.frame_bounds hown
  have hne : sp.dir ≠ 0 :=
    h.exact.ne_of_owner_ne hown (show g.Owns (.boot 0) 0 from ⟨rfl, by omega, by omega⟩) (by simp)
  have hor : sp.dir ||| (pagingFlagPresent ||| pagingFlagRw) = sp.dir + 3 :=
    or_eq_add hdiraligned (by decide)
  have hlast : 1022 < 1024 := by omega
  have hmap := h.map_temp hdir ht s.pmm hlast currentPageDir sp.dir
    (pagingFlagPresent ||| pagingFlagRw)
  rw [hor, ← tempPagedirAddr_eq] at hmap
  have hmapped := h.setTemp ht (show 1022 ≤ 1022 by omega) hlast (sp.dir + 3)
  have hentry : entry (s.mem.set32 (t + 4 * 1022) (sp.dir + 3)) t 1022 = sp.dir + 3 := by
    rw [entry_set32_same]
    exact Nat.mod_eq_of_lt (by omega)
  let inv : ℕ → Machine → Prop := fun k u => ∃ m p, u = { s with mem := m, pmm := p } ∧
    KernelSpace { s with mem := m } g ∧ entry m t 1022 = sp.dir + 3 ∧ HeapKept g s.mem m ∧
    p.capacity = s.pmm.capacity ∧ ∀ x, p.UsedFrame x ↔ s.pmm.UsedFrame x ∧
      ∀ k', 1 ≤ k' → k' ≤ k → sp.table k' ≠ some x ∧ ∀ j, sp.page k' j ≠ some x
  have hstep : ∀ k u, k < 767 → inv k u → ∃ u', (do
      let pde ← load32 (tempPagedirAddr + 4 * (k + 1))
      if present pde then
        let kernelDirectory := (← get).kernelDirectory
        pagingMapPage kernelDirectory tempPagetableAddr (frameOf pde)
          (pagingFlagPresent ||| pagingFlagRw)
        freeTableFrames tempPagetableAddr
        pagingMapPage kernelDirectory tempPagetableAddr 0 0
        freeFrame (frameOf pde)
      else
        pure () : Kernel Unit) u = .ok () u' ∧ inv (k + 1) u' := by
    rintro k _ hk ⟨m, p, rfl, hspace, hshown, hkept, hcap, hused⟩
    obtain ⟨m', p', hrun, hspace', hshown', hkept', hcap', hused'⟩ :=
      hspace.freeEntry_spec hdir hsp ht (show 1 ≤ k + 1 by omega) (by omega) hshown p
    refine ⟨_, hrun, m', p', rfl, hspace', hshown', hkept.trans hkept', hcap'.trans hcap, ?_⟩
    intro x
    rw [hused' x, hused x, and_assoc]
    refine and_congr_right fun _ => ⟨?_, ?_⟩
    · rintro ⟨hall, hnew⟩ k' hk1 hk2
      by_cases hkk : k' = k + 1
      · rw [hkk]
        exact hnew
      · exact hall k' hk1 (by omega)
    · intro hall
      exact ⟨fun k' hk1 hk2 => hall k' hk1 (by omega), hall (k + 1) (by omega) (by omega)⟩
  obtain ⟨_, hloop, m, p, rfl, hspace, hshown, hkept, hcap, hused⟩ :=
    forRange_total inv hstep ⟨_, s.pmm, rfl, hmapped, hentry,
      h.heapKept_entry (o := .temp) ht (by simp) s.mem hlast _, rfl, fun x => by
        simp only [Nat.le_zero, iff_self_and]
        intro _ k' h1 h2
        omega⟩
  have hunmap := hspace.map_temp hdir ht p hlast currentPageDir 0 0
  rw [← tempPagedirAddr_eq] at hunmap
  have hdone := hspace.setTemp ht (show 1022 ≤ 1022 by omega) hlast 0
  refine ⟨m.set32 (t + 4 * 1022) 0, pmmFreeFrame p sp.dir, ?_, ?_, ?_⟩
  · unfold pagingFreeDirectory
    rw [if_neg hne, bind_of_ok hmap, bind_of_ok hloop, bind_of_ok hunmap]
    rfl
  · refine h.dropSpace hdone.holds hcap ?_
    intro x
    rw [usedFrame_pmmFreeFrame hdiraligned x, hused x, and_assoc]
    refine and_congr_right fun _ => ⟨?_, ?_⟩
    · rintro ⟨hall, hxd⟩ o ho hx
      cases o with
      | dir i' =>
          obtain rfl : i' = i := ho
          exact hxd ((exists_eq_self hsp).mp hx).symm
      | table i' k =>
          obtain rfl : i' = i := ho
          have hx' : sp.table k = some x := (exists_eq_self hsp).mp hx
          have hk := (h.valid.table_range i' sp k x hsp hx').1
          exact (hall k hk (by have := hrange k x hx'; omega)).1 hx'
      | page i' k j =>
          obtain rfl : i' = i := ho
          have hx' : sp.page k j = some x := (exists_eq_self hsp).mp hx
          obtain ⟨-, f, hf⟩ := h.valid.page_range i' sp k j x hsp hx'
          have hk := (h.valid.table_range i' sp k f hsp hf).1
          exact (hall k hk (by have := hrange k f hf; omega)).2 j hx'
      | _ => exact ho.elim
    · intro hnone
      refine ⟨?_, ?_⟩
      · intro k _ _
        exact ⟨fun hx => hnone (.table i k) rfl ⟨sp, hsp, hx⟩,
          fun j hx => hnone (.page i k j) rfl ⟨sp, hsp, hx⟩⟩
      · intro hxd
        exact hnone (.dir i) rfl ⟨sp, hsp, hxd.symm⟩
  · exact hkept.trans (h.heapKept_entry (o := .temp) ht (by simp) m hlast 0)

end Free

end MyOS
