import MyOS.Verification.Memory.Window

/-! `paging_clone_directory`: a new directory, filled through the temporary window, that shares
the tables of the kernel. -/

namespace MyOS

open Effect X86Paging ByteMemory PageTables Ownership

variable {s : Machine} {g : Layout} {t : ℕ}

/-- While a frame is shown in the window, bytes of that frame may change. -/
theorem KernelSpace.of_loose_bytes (h : KernelSpace s g) {d : ℕ} (hd : g.loose d) {m : ByteMemory}
    (hm : ∀ x, x < d ∨ d + 4096 ≤ x → m x = s.mem x) : KernelSpace { s with mem := m } g := by
  refine h.of_bytes ?_
  intro r f hf o ho
  have hout := h.outside (o := .loose d) (f := d) ⟨rfl, hd⟩
    (fun r => by cases r <;> simp [Layout.roleOwner]) hf
  exact hm _ (by omega)

section Clone

variable {d : ℕ} (h : KernelSpace s g) (hroot : s.cr3 = g.root) (ht : g.temp = some t)
  (hd : g.loose d) (hshown : entry s.mem t 1022 = d + 3) {m : ByteMemory}
  (hm : ∀ x, x < d ∨ d + 4096 ≤ x → m x = s.mem x)

include h hroot ht hd hshown hm

theorem KernelSpace.translate_shown {o : ℕ} (ho : o < 4096) :
    Machine.translate { s with mem := m } (tempPagedirAddr + o) = some (d + o) := by
  have hm' := h.of_loose_bytes hd hm
  have hbound := h.frame_bounds (o := .loose d) (f := d) ⟨rfl, hd⟩
  have hentry : entry m t 1022 = d + 3 := by
    rw [← hshown]
    refine entry_congr (by omega) ?_
    intro o ho
    have hout := h.outside (o := .loose d) (f := d) ⟨rfl, hd⟩
      (fun r => by cases r <;> simp [Layout.roleOwner])
      (show g.plan.frame .temp = some t from ht)
    exact hm _ (by omega)
  rw [tempPagedirAddr_eq]
  exact hm'.translate_temp (.inl hroot) ht s.pmm (by omega) hbound.1 hentry ho

theorem KernelSpace.store_shown {k : ℕ} (hk : k < 1024) (v : ℕ) :
    store32 (tempPagedirAddr + 4 * k) v { s with mem := m } =
      .ok () { s with mem := m.set32 (d + 4 * k) v } :=
  store32_eq v (h.translate_shown hroot ht hd hshown hm (by omega))

omit hshown in
theorem KernelSpace.load_root {k : ℕ} (hk : k < 1024) :
    load32 (currentPageDir + 4 * k) { s with mem := m } =
      .ok (if k = 0 then g.table0 + 3 else if k = 1022 then t + 3
        else if k = 1023 then g.root + 3 else 0) { s with mem := m } := by
  have hm' := h.of_loose_bytes hd hm
  have hself := (hm'.active (.inl hroot)).selfMapped
  have hentry := hm'.holds .root g.root k _ rfl hk rfl
  rw [ht, ← hroot] at hentry
  have hload := load_directory (s := { s with mem := m }) h.paging hself hk
  rw [hload]
  change EStateM.Result.ok (entry m s.cr3 k) _ = _
  rw [hentry, hroot]
  rfl

/-- The loop over the upper entries copies the one of the temporary window only. -/
theorem KernelSpace.copyUpper :
    forRange 255 (fun k => do
        let e ← load32 (currentPageDir + 4 * (768 + k))
        if present e then store32 (tempPagedirAddr + 4 * (768 + k)) e else pure ())
      { s with mem := m } = .ok () { s with mem := m.set32 (d + 4 * 1022) (t + 3) } := by
  have hpresent := (h.window_entry (.inl hroot) ht).2.2
  let states : ℕ → Machine := fun i =>
    { s with mem := if i ≤ 254 then m else m.set32 (d + 4 * 1022) (t + 3) }
  have hstep : ∀ i < 255, (do
      let e ← load32 (currentPageDir + 4 * (768 + i))
      if present e then store32 (tempPagedirAddr + 4 * (768 + i)) e else pure () : Kernel Unit)
      (states i) = .ok () (states (i + 1)) := by
    intro i hi
    have hbefore : states i = { s with mem := m } := by
      simp only [states, show i ≤ 254 by omega, if_true]
    have hload := h.load_root hroot ht hd hm (show 768 + i < 1024 by omega)
    rw [if_neg (show ¬768 + i = 0 by omega), if_neg (show ¬768 + i = 1023 by omega)] at hload
    by_cases hlast : i = 254
    · rw [if_pos (show 768 + i = 1022 by omega)] at hload
      rw [hbefore, bind_of_ok hload, if_pos hpresent, hlast]
      exact h.store_shown hroot ht hd hshown hm (by omega) _
    · have hafter : states (i + 1) = { s with mem := m } := by
        simp only [states, show i + 1 ≤ 254 by omega, if_true]
      rw [if_neg (show ¬768 + i = 1022 by omega)] at hload
      rw [hbefore, bind_of_ok hload, if_neg (by decide), hafter]
      rfl
  exact forRange_ok states hstep

omit hm in
/-- With the new directory's frame in the window, the rest of the clone makes it a directory
that shares the kernel's tables. -/
theorem KernelSpace.cloneBody {i : ℕ} (hi : g.space i = none) :
    ∃ m, (do
          memset tempPagedirAddr 0 4096
          copyKernelEntries tempPagedirAddr
          store32 (tempPagedirAddr + 4 * 1023) (d ||| pagingFlagPresent ||| pagingFlagRw)
          pagingMapPage currentPageDir tempPagedirAddr 0 0
          return d : Kernel ℕ) s = .ok d { s with mem := m } ∧
      KernelSpace { s with mem := m } (g.addSpace i d) ∧ HeapKept g s.mem m := by
  have hbound := h.frame_bounds (o := .loose d) (f := d) ⟨rfl, hd⟩
  obtain ⟨haligned, hlt⟩ := hbound
  let m₁ := s.mem.fill d 4096 fun _ => 0
  let m₂ := m₁.set32 (d + 4 * 0) (g.table0 + 3)
  let m₃ := m₂.set32 (d + 4 * 1022) (t + 3)
  let m₄ := m₃.set32 (d + 4 * 1023) (d + 3)
  have hm₁ : ∀ x, x < d ∨ d + 4096 ≤ x → m₁ x = s.mem x :=
    fun x hx => ByteMemory.fill_outside s.mem _ hx
  have hm₂ : ∀ x, x < d ∨ d + 4096 ≤ x → m₂ x = s.mem x :=
    fun x hx => (set32_of_outside m₁ _ (by omega)).trans (hm₁ x hx)
  have hm₃ : ∀ x, x < d ∨ d + 4096 ≤ x → m₃ x = s.mem x :=
    fun x hx => (set32_of_outside m₂ _ (by omega)).trans (hm₂ x hx)
  have hm₄ : ∀ x, x < d ∨ d + 4096 ≤ x → m₄ x = s.mem x :=
    fun x hx => (set32_of_outside m₃ _ (by omega)).trans (hm₃ x hx)
  have hclear : memset tempPagedirAddr 0 4096 s = .ok () { s with mem := m₁ } :=
    memset_eq 0 fun m' hm' k hk => h.translate_shown hroot ht hd hshown hm' hk
  have hfirst := h.load_root hroot ht hd hm₁ (show 0 < 1024 by omega)
  rw [if_pos rfl, Nat.mul_zero, Nat.add_zero] at hfirst
  have hstore₁ := h.store_shown hroot ht hd hshown hm₁ (show 0 < 1024 by omega) (g.table0 + 3)
  rw [Nat.mul_zero, Nat.add_zero] at hstore₁
  have hcopy : copyKernelEntries tempPagedirAddr { s with mem := m₁ } =
      .ok () { s with mem := m₃ } := by
    unfold copyKernelEntries
    rw [bind_of_ok hfirst, bind_of_ok hstore₁]
    exact h.copyUpper hroot ht hd hshown hm₂
  have hstore₂ := h.store_shown hroot ht hd hshown hm₃ (show 1023 < 1024 by omega) (d + 3)
  have hor : d ||| pagingFlagPresent ||| pagingFlagRw = d + 3 := by
    rw [Nat.or_assoc]
    exact or_eq_add haligned (by decide)
  have hspace₄ := h.of_loose_bytes hd hm₄
  have hunmap := hspace₄.map_temp (.inl hroot) ht s.pmm (show 1022 < 1024 by omega) currentPageDir 0 0
  have hdone := hspace₄.setTemp ht (show 1022 ≤ 1022 by omega) (by omega) 0
  refine ⟨m₄.set32 (t + 4 * 1022) 0, ?_, ?_, ?_⟩
  · rw [bind_of_ok hclear, bind_of_ok hcopy, hor, bind_of_ok hstore₂, tempPagedirAddr_eq,
      bind_of_ok hunmap]
    rfl
  · refine hdone.addSpace hd hi ht ?_
    intro k hk
    have htd : t ≠ d := h.exact.ne_of_owner_ne (o := .temp) ht
      (show g.Owns (.loose d) d from ⟨rfl, hd⟩) (by simp)
    have htaligned := (h.frame_bounds (o := .temp) ht).1
    have hkept : entry (m₄.set32 (t + 4 * 1022) 0) d k = entry m₄ d k :=
      entry_set32_frame m₄ 0 htaligned haligned (by omega) hk htd.symm
    change entry (m₄.set32 (t + 4 * 1022) 0) d k = _
    rw [hkept]
    have htlt := (h.frame_bounds (o := .temp) ht).2
    have htable0 := h.frame_bounds (h.valid.owns_role (show g.plan.frame .low = some g.table0 from rfl))
    by_cases h1023 : k = 1023
    · rw [h1023, entry_set32_same]
      exact Nat.mod_eq_of_lt (by omega)
    · rw [entry_set32_index _ _ _ h1023, if_neg h1023]
      by_cases h1022 : k = 1022
      · rw [h1022, entry_set32_same]
        exact Nat.mod_eq_of_lt (by omega)
      · rw [entry_set32_index _ _ _ h1022, if_neg h1022]
        by_cases h0 : k = 0
        · rw [h0, entry_set32_same]
          exact Nat.mod_eq_of_lt (by omega)
        · rw [entry_set32_index _ _ _ h0, if_neg h0]
          exact entry_fill_zero s.mem hk
  · refine HeapKept.trans (h.heapKept (o := .loose d) ⟨rfl, hd⟩ (by simp) hm₄)
      (h.heapKept (o := .temp) ht (by simp) ?_)
    intro x hx
    exact set32_of_outside m₄ 0 (by omega)

end Clone

/-- The layout with a directory for slot `i` that shares the kernel's tables. -/
def Layout.newSpace (g : Layout) (i d : ℕ) : Layout :=
  { g with space := Function.update g.space i (some ⟨d, fun _ => none, fun _ _ => none⟩) }

theorem addSpace_take {i d : ℕ} (hnot : ¬g.loose d) : (g.take d).addSpace i d = g.newSpace i d := by
  change { (g.take d).drop d with
    space := Function.update g.space i (some ⟨d, fun _ => none, fun _ _ => none⟩) } = _
  rw [drop_take hnot]
  rfl

theorem dropSpace_newSpace {i d : ℕ} (hi : g.space i = none) :
    (g.newSpace i d).dropSpace i = g := by
  have hsame : Function.update (g.newSpace i d).space i none = g.space := by
    change Function.update (Function.update g.space i _) i none = _
    rw [Function.update_idem, ← hi, Function.update_eq_self]
  unfold Layout.dropSpace
  rw [hsame]
  rfl

/-- A new directory may be taken for a frame in hand again. -/
theorem KernelSpace.loosen {i d : ℕ} (h : KernelSpace s (g.newSpace i d)) (hi : g.space i = none) :
    KernelSpace s (g.take d) := by
  have hslot : (g.newSpace i d).space i = some ⟨d, fun _ => none, fun _ _ => none⟩ :=
    Function.update_self _ _ _
  have hdir : (g.newSpace i d).Owns (.dir i) d := ⟨_, hslot, rfl⟩
  have haligned := (h.frame_bounds hdir).1
  have hgone : ∀ f, f ≠ d → ∀ o : Owner, o.OfSpace i → ¬(g.newSpace i d).Owns o f := by
    intro f hf o ho hown
    cases o with
    | dir j =>
        obtain ⟨sp, hsp, hd⟩ := hown
        rw [show j = i from ho, hslot] at hsp
        cases hsp
        exact hf hd.symm
    | table j k =>
        obtain ⟨sp, hsp, hd⟩ := hown
        rw [show j = i from ho, hslot] at hsp
        cases hsp
        cases hd
    | page j k l =>
        obtain ⟨sp, hsp, hd⟩ := hown
        rw [show j = i from ho, hslot] at hsp
        cases hsp
        cases hd
    | _ => exact ho
  have hdropped := h.dropSpace (i := i) (m := s.mem) (p := pmmFreeFrame s.pmm d) h.holds
    (pmmFreeFrame_capacity _ _) (by
      intro f
      rw [usedFrame_pmmFreeFrame haligned]
      refine and_congr_right fun _ => ⟨hgone f, ?_⟩
      rintro hnone rfl
      exact hnone (.dir i) rfl hdir)
  rw [dropSpace_newSpace hi] at hdropped
  refine ⟨h.paging, h.root_eq, h.capacity, hdropped.valid.of_frames rfl rfl rfl rfl rfl rfl,
    Exact.take_loose hdropped.exact ?_ ?_, hdropped.holds⟩
  · change ¬(pmmFreeFrame s.pmm d).UsedFrame d
    rw [usedFrame_pmmFreeFrame haligned]
    exact fun hused => hused.2 rfl
  · intro f
    change _ ↔ (pmmFreeFrame s.pmm d).UsedFrame f ∨ f = d
    rw [usedFrame_pmmFreeFrame haligned]
    have hused : s.pmm.UsedFrame d := (h.exact.used_iff d).mpr ⟨_, hdir⟩
    by_cases hf : f = d
    · simp [hf, hused]
    · simp [hf]

/-- With the window's table in place a clone needs one frame. -/
theorem KernelSpace.clone_temp (h : KernelSpace s g) (hroot : s.cr3 = g.root)
    (ht : g.temp = some t) {i : ℕ} (hi : g.space i = none) (hne : (pmmAllocFrame s.pmm).1 ≠ 0)
    (src : ℕ) :
    ∃ m, pagingCloneDirectory src s =
        .ok (pmmAllocFrame s.pmm).1 { s with pmm := (pmmAllocFrame s.pmm).2, mem := m } ∧
      KernelSpace { s with pmm := (pmmAllocFrame s.pmm).2, mem := m }
        (g.newSpace i (pmmAllocFrame s.pmm).1) ∧ HeapKept g s.mem m := by
  obtain ⟨haligned, hcap, hfree, -⟩ := usedFrame_pmmAllocFrame hne
  rw [h.capacity] at hcap
  have htaken := h.alloc hne s.trace
  have hor : (pmmAllocFrame s.pmm).1 ||| (pagingFlagPresent ||| pagingFlagRw) =
      (pmmAllocFrame s.pmm).1 + 3 := or_eq_add haligned (by decide)
  have hmap := h.map_temp (.inl hroot) ht (pmmAllocFrame s.pmm).2 (show 1022 < 1024 by omega)
    currentPageDir (pmmAllocFrame s.pmm).1 (pagingFlagPresent ||| pagingFlagRw)
  rw [hor, ← tempPagedirAddr_eq] at hmap
  have hset := htaken.setTemp ht (show 1022 ≤ 1022 by omega) (by omega) ((pmmAllocFrame s.pmm).1 + 3)
  have hshown : entry (s.mem.set32 (t + 4 * 1022) ((pmmAllocFrame s.pmm).1 + 3)) t 1022 =
      (pmmAllocFrame s.pmm).1 + 3 := by
    rw [entry_set32_same]
    exact Nat.mod_eq_of_lt (by omega)
  obtain ⟨m, hbody, hspace, hkept⟩ := hset.cloneBody hroot ht (.inl rfl) hshown hi
  rw [addSpace_take (h.not_loose hne)] at hspace
  refine ⟨m, ?_, hspace, ?_⟩
  · unfold pagingCloneDirectory
    rw [bind_of_ok (allocFrame_eq hne), if_neg hne, bind_of_ok hmap]
    exact hbody
  · have hmapped := h.heapKept_entry (o := .temp) ht (by simp) s.mem (show 1022 < 1024 by omega)
      ((pmmAllocFrame s.pmm).1 + 3)
    have hcloned : HeapKept g (s.mem.set32 (t + 4 * 1022) ((pmmAllocFrame s.pmm).1 + 3)) m :=
      hkept.of_layout rfl rfl
    exact hmapped.trans hcloned

/-- Without the window's table a clone needs two frames, and the second is zeroed at its own
address. There it may lead to the frame. -/
theorem KernelSpace.clone_reached (h : KernelSpace s g) (hroot : s.cr3 = g.root)
    (hnone : g.temp = none) {i : ℕ} (hi : g.space i = none) (hne : (pmmAllocFrame s.pmm).1 ≠ 0)
    {f : ℕ} (hf : (pmmAllocFrame (pmmAllocFrame s.pmm).2).1 = f) (hf0 : f ≠ 0)
    (hreach : s.translate f = some f) (src : ℕ) :
    ∃ m, pagingCloneDirectory src s = .ok (pmmAllocFrame s.pmm).1 { s with
          pmm := (pmmAllocFrame (pmmAllocFrame s.pmm).2).2, mem := m
          trace := .newTable f (some f) :: s.trace } ∧
      KernelSpace { s with
          pmm := (pmmAllocFrame (pmmAllocFrame s.pmm).2).2, mem := m
          trace := .newTable f (some f) :: s.trace }
        ({ g with temp := some f }.newSpace i (pmmAllocFrame s.pmm).1) ∧
      HeapKept g s.mem m := by
  subst hf
  obtain ⟨haligned, hcap, hfree, -⟩ := usedFrame_pmmAllocFrame hne
  rw [h.capacity] at hcap
  have htaken := h.alloc hne s.trace
  obtain ⟨m, hmap, hspace, hshown, hkept⟩ := htaken.map_temp_new hroot hnone hf0 hreach
    (show 1022 ≤ 1022 by omega) (by omega) currentPageDir haligned (by omega)
  obtain ⟨m', hbody, hspace', hkept'⟩ := hspace.cloneBody hroot rfl (.inl rfl) hshown hi
  rw [← tempPagedirAddr_eq] at hmap
  refine ⟨m', ?_, ?_, ?_⟩
  · unfold pagingCloneDirectory
    rw [bind_of_ok (allocFrame_eq hne), if_neg hne, bind_of_ok hmap]
    exact hbody
  · have hnot : ¬Layout.loose { g with
        temp := some (pmmAllocFrame (pmmAllocFrame s.pmm).2).1 } (pmmAllocFrame s.pmm).1 :=
      h.not_loose hne
    rw [← addSpace_take hnot]
    exact hspace'
  · have hmapped : HeapKept g s.mem m := hkept.of_layout rfl rfl
    have hcloned : HeapKept g m m' := hkept'.of_layout rfl rfl
    exact hmapped.trans hcloned

/-- When such a clone returns, the zeroing of the window's table reached some address. -/
theorem KernelSpace.clone_new (h : KernelSpace s g) (hroot : s.cr3 = g.root)
    (hnone : g.temp = none) {i : ℕ} (hi : g.space i = none) (hne : (pmmAllocFrame s.pmm).1 ≠ 0)
    {src d : ℕ} {s' : Machine} (hrun : pagingCloneDirectory src s = .ok d s') :
    ∃ f pa, f = (pmmAllocFrame (pmmAllocFrame s.pmm).2).1 ∧ f ≠ 0 ∧
      s.translate f = some pa ∧ .newTable f (some pa) ∈ s'.trace ∧
      (pa = f → d = (pmmAllocFrame s.pmm).1 ∧
        (∃ m, s' = { s with
          pmm := (pmmAllocFrame (pmmAllocFrame s.pmm).2).2, mem := m
          trace := .newTable f (some f) :: s.trace }) ∧
        KernelSpace s' ({ g with temp := some f }.newSpace i d) ∧ HeapKept g s.mem s'.mem) := by
  have htaken := h.alloc hne s.trace
  have hself := (htaken.active (.inl hroot)).selfMapped
  have habs : ¬present (entry s.mem s.cr3 (tempPagedirAddr / 2 ^ 22)) := by
    have hentry := (h.active (.inl hroot)).window
    rw [hnone] at hentry
    rw [show tempPagedirAddr / 2 ^ 22 = 1022 by decide, hentry]
    decide
  have hwhole := hrun
  unfold pagingCloneDirectory at hrun
  rw [bind_of_ok (allocFrame_eq hne), if_neg hne] at hrun
  obtain ⟨_, u, hmap, hrun⟩ := bind_eq_ok.mp hrun
  by_cases hnull : (pmmAllocFrame (pmmAllocFrame s.pmm).2).1 = 0
  · have hskip := pagingMapPage_null (s := { s with pmm := (pmmAllocFrame s.pmm).2 }) h.paging hself
      (show tempPagedirAddr < 2 ^ 32 by decide) currentPageDir (pmmAllocFrame s.pmm).1
      (pagingFlagPresent ||| pagingFlagRw) habs hnull
    rw [hskip] at hmap
    cases hmap
    obtain ⟨_, _, hclear, -⟩ := bind_eq_ok.mp hrun
    obtain ⟨_, hfirst⟩ := forRange_first hclear
    obtain ⟨pa, hpa, -⟩ := store8_ok hfirst
    rw [translate_eq (by exact h.paging) (by decide)] at hpa
    exact absurd (translate_eq_some.mp hpa).1 habs
  · obtain ⟨pa, hreach, htrace⟩ := pagingMapPage_new_reached
      (s := { s with pmm := (pmmAllocFrame s.pmm).2 }) h.paging hself
      (show tempPagedirAddr < 2 ^ 32 by decide) _ _ _ habs rfl hnull hmap
    refine ⟨_, pa, rfl, hnull, hreach, ?_, ?_⟩
    · obtain ⟨_, _, h1, hrun⟩ := bind_eq_ok.mp hrun
      obtain ⟨_, _, h2, hrun⟩ := bind_eq_ok.mp hrun
      obtain ⟨_, _, h3, hrun⟩ := bind_eq_ok.mp hrun
      obtain ⟨_, _, h4, hrun⟩ := bind_eq_ok.mp hrun
      cases hrun
      have hgrows := processBlind_trace
      have hsuffix := ((hgrows.memset _ _ _).ok h1).trans (((hgrows.copyKernelEntries _).ok h2).trans
        (((hgrows.store32 _ _).ok h3).trans ((hgrows.pagingMapPage _ _ _ _).ok h4)))
      exact hsuffix.subset htrace
    · intro hpa
      rw [hpa] at hreach
      obtain ⟨m, hclone, hspace, hkept⟩ := h.clone_reached hroot hnone hi hne rfl hnull hreach src
      rw [hclone] at hwhole
      cases hwhole
      exact ⟨rfl, ⟨m, rfl⟩, hspace, hkept⟩

end MyOS
