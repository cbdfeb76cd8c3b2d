import MyOS.Verification.Process.Views

/-! Kernel accesses through the MMU: what a load or store does where the address is mapped,
and what `paging_map_page` does through the recursive window of the active directory. -/

namespace MyOS

open Effect X86Paging ByteMemory

variable {s s' : Machine}

/-- The trace only grows. -/
theorem processBlind_trace : ProcessBlind fun s t : Machine => s.trace <:+ t.trace where
  refl := fun _ => List.suffix_rfl
  trans := List.IsSuffix.trans
  mem := fun _ _ => List.suffix_rfl
  pmm := fun _ _ => List.suffix_rfl
  trace := fun _ e => List.suffix_cons e _
  heapTop := fun _ _ => List.suffix_rfl
  heapEnd := fun _ _ => List.suffix_rfl
  freeListHead := fun _ _ => List.suffix_rfl
  cr3 := fun _ _ => List.suffix_rfl
  dmaBuffer := fun _ _ => List.suffix_rfl
  processTable := fun _ _ => List.suffix_rfl

/-- Stores leave the trace as it is. -/
theorem storeBlind_trace : StoreBlind fun s t : Machine => t.trace = s.trace where
  toChain := chain_eq Machine.trace
  mem := fun _ _ => rfl

/-! ## Bytes and words -/

theorem load8_eq {va pa : ℕ} (h : s.translate va = some pa) : load8 va s = .ok (s.mem pa) s := by
  rw [load8, h]

theorem load8_ok {va : ℕ} {b : UInt8} (h : load8 va s = .ok b s') :
    ∃ pa, s.translate va = some pa ∧ b = s.mem pa ∧ s' = s := by
  unfold load8 at h
  cases ht : s.translate va with
  | none => rw [ht] at h; cases h
  | some pa => rw [ht] at h; cases h; exact ⟨pa, rfl, rfl, rfl⟩

theorem store8_eq {va pa : ℕ} (b : UInt8) (h : s.translate va = some pa) :
    store8 va b s = .ok () { s with mem := s.mem.set8 pa b } := by
  rw [store8, h]

theorem store8_ok {va : ℕ} {b : UInt8} {u : Unit} (h : store8 va b s = .ok u s') :
    ∃ pa, s.translate va = some pa ∧ s' = { s with mem := s.mem.set8 pa b } := by
  unfold store8 at h
  cases ht : s.translate va with
  | none => rw [ht] at h; cases h
  | some pa => rw [ht] at h; cases h; exact ⟨pa, rfl, rfl⟩

theorem store32_eq {va pa : ℕ} (v : ℕ) (h : s.translate va = some pa) :
    store32 va v s = .ok () { s with mem := s.mem.set32 pa v } := by
  rw [store32, h]

theorem store32_ok {va v : ℕ} {u : Unit} (h : store32 va v s = .ok u s') :
    ∃ pa, s.translate va = some pa ∧ s' = { s with mem := s.mem.set32 pa v } := by
  unfold store32 at h
  cases ht : s.translate va with
  | none => rw [ht] at h; cases h
  | some pa => rw [ht] at h; cases h; exact ⟨pa, rfl, rfl⟩

theorem load32_eq {va pa : ℕ} (h : ∀ k < 4, s.translate (va + k) = some (pa + k)) :
    load32 va s = .ok (s.mem.get32 pa) s := by
  have h0 := h 0 (by omega)
  rw [Nat.add_zero, Nat.add_zero] at h0
  unfold load32
  rw [bind_of_ok (load8_eq h0), bind_of_ok (load8_eq (h 1 (by omega))),
    bind_of_ok (load8_eq (h 2 (by omega))), bind_of_ok (load8_eq (h 3 (by omega)))]
  rfl

/-- A word is put together from four bytes, wherever they lie. -/
theorem load32_bytes {m : ByteMemory} {va : ℕ} (h : ∀ k < 4, load8 (va + k) s = .ok (m (va + k)) s) :
    load32 va s = .ok (m.get32 va) s := by
  have h0 := h 0 (by omega)
  rw [Nat.add_zero] at h0
  unfold load32
  rw [bind_of_ok h0, bind_of_ok (h 1 (by omega)), bind_of_ok (h 2 (by omega)),
    bind_of_ok (h 3 (by omega))]
  rfl

theorem load16_bytes {m : ByteMemory} {va : ℕ} (h : ∀ k < 2, load8 (va + k) s = .ok (m (va + k)) s) :
    load16 va s = .ok (m.get16 va) s := by
  have h0 := h 0 (by omega)
  rw [Nat.add_zero] at h0
  unfold load16
  rw [bind_of_ok h0, bind_of_ok (h 1 (by omega))]
  rfl

theorem load32_state {va v : ℕ} (h : load32 va s = .ok v s') : s' = s :=
  (readBlind_id.load32 va).ok h

theorem load16_state {va v : ℕ} (h : load16 va s = .ok v s') : s' = s :=
  (readBlind_id.load16 va).ok h

theorem allocFrame_eq (hne : (pmmAllocFrame s.pmm).1 ≠ 0) :
    allocFrame s = .ok (pmmAllocFrame s.pmm).1 { s with pmm := (pmmAllocFrame s.pmm).2 } := by
  unfold allocFrame
  simp only [if_neg hne]

/-- Without a free frame only the trace changes. -/
theorem allocFrame_null (hnull : (pmmAllocFrame s.pmm).1 = 0) :
    allocFrame s =
      .ok 0 { s with pmm := (pmmAllocFrame s.pmm).2, trace := .allocFailed :: s.trace } := by
  unfold allocFrame
  simp only [hnull, if_true]

/-! ## Runs of bytes -/

/-- A copy from a kernel array, where the destination stays mapped while it is filled. -/
theorem memcpyFrom_eq {va pa n : ℕ} (src : ℕ → UInt8)
    (h : ∀ m', (∀ x, x < pa ∨ pa + n ≤ x → m' x = s.mem x) →
      ∀ k < n, ({ s with mem := m' } : Machine).translate (va + k) = some (pa + k)) :
    memcpyFrom va src n s = .ok () { s with mem := s.mem.fill pa n src } := by
  have hstep : ∀ i < n, store8 (va + i) (src i) { s with mem := s.mem.fill pa i src } =
      .ok () { s with mem := s.mem.fill pa (i + 1) src } := by
    intro i hi
    have ht := h (s.mem.fill pa i src)
      (fun x hx => ByteMemory.fill_outside s.mem src (by omega)) i hi
    rw [store8_eq (src i) ht, fill_succ]
  have hrun := forRange_ok (fun i => ({ s with mem := s.mem.fill pa i src } : Machine)) hstep
  rw [fill_zero] at hrun
  exact hrun

theorem memset_eq {va pa n : ℕ} (c : UInt8)
    (h : ∀ m', (∀ x, x < pa ∨ pa + n ≤ x → m' x = s.mem x) →
      ∀ k < n, ({ s with mem := m' } : Machine).translate (va + k) = some (pa + k)) :
    memset va c n s = .ok () { s with mem := s.mem.fill pa n fun _ => c } :=
  memcpyFrom_eq (fun _ => c) h

/-- A counted loop that returns got through its first round. -/
theorem forRange_first {body : ℕ → Kernel Unit} {n : ℕ}
    (h : forRange (n + 1) body s = .ok () s') : ∃ t, body 0 s = .ok () t := by
  induction n generalizing s' with
  | zero =>
      obtain ⟨_, t, hpre, hlast⟩ := bind_eq_ok.mp h
      cases hpre
      exact ⟨s', hlast⟩
  | succ n ih =>
      obtain ⟨_, t, hpre, -⟩ := bind_eq_ok.mp h
      exact ih hpre

/-! ## The window of the active directory -/

theorem translate_eq (hp : s.paging = true) {va : ℕ} (hva : va < 2 ^ 32) :
    s.translate va = X86Paging.translate s.mem s.cr3 va := by
  rw [Machine.translate, if_pos hp, Nat.mod_eq_of_lt hva]

section Window

variable (hp : s.paging = true) (hself : SelfMapped s.mem s.cr3) {k : ℕ} (hk : k < 1024)

include hp hself hk

theorem translate_directory {o : ℕ} (ho : o < 4) :
    s.translate (currentPageDir + 4 * k + o) = some (s.cr3 + 4 * k + o) := by
  have haddr : currentPageDir + 4 * k + o = 0xFFFFF000 + (4 * k + o) := by
    unfold currentPageDir
    omega
  rw [haddr, translate_eq hp (by omega), hself.translate_directory (by omega)]
  congr 1
  omega

theorem load_directory :
    load32 (currentPageDir + 4 * k) s = .ok (entry s.mem s.cr3 k) s :=
  load32_eq fun _ ho => translate_directory hp hself hk ho

theorem store_directory (v : ℕ) :
    store32 (currentPageDir + 4 * k) v s =
      .ok () { s with mem := s.mem.set32 (s.cr3 + 4 * k) v } :=
  store32_eq v (translate_directory hp hself hk (o := 0) (by omega))

theorem store_window {j : ℕ} (hj : j < 1024) (hpres : present (entry s.mem s.cr3 k)) (v : ℕ) :
    store32 (currentPageTables + 4096 * k + 4 * j) v s =
      .ok () { s with mem := s.mem.set32 (frameOf (entry s.mem s.cr3 k) + 4 * j) v } := by
  refine store32_eq v ?_
  rw [translate_eq hp (by unfold currentPageTables; omega)]
  exact hself.translate_window hk (by omega) hpres

end Window

/-! ## `paging_map_page` -/

section MapPage

variable (hp : s.paging = true) (hself : SelfMapped s.mem s.cr3) {va : ℕ} (hva : va < 2 ^ 32)
  (dir phys flags : ℕ)

include hp hself hva

/-- With a table in place one of its entries is written. -/
theorem pagingMapPage_present (hpres : present (entry s.mem s.cr3 (va / 2 ^ 22))) :
    pagingMapPage dir va phys flags s =
      .ok () { s with
        mem := s.mem.set32
          (frameOf (entry s.mem s.cr3 (va / 2 ^ 22)) + 4 * (va / 4096 % 1024)) (phys ||| flags) } := by
  have hk : va / 2 ^ 22 < 1024 := by omega
  have hpte : currentPageTables + 4096 * (va / 2 ^ 22) + 4 * (va / 4096 % 1024) ≠ 0 := by
    unfold currentPageTables
    omega
  have hget : pagingGetPage dir va true flags s =
      .ok (currentPageTables + 4096 * (va / 2 ^ 22) + 4 * (va / 4096 % 1024)) s := by
    unfold pagingGetPage
    rw [bind_of_ok (load_directory hp hself hk), if_pos hpres]
    rfl
  unfold pagingMapPage
  rw [bind_of_ok hget, if_pos hpte]
  exact store_window hp hself hk (by omega) hpres _

/-- Without a table and without a frame for one, nothing is mapped. -/
theorem pagingMapPage_null (habs : ¬present (entry s.mem s.cr3 (va / 2 ^ 22)))
    (hnull : (pmmAllocFrame s.pmm).1 = 0) :
    pagingMapPage dir va phys flags s =
      .ok () { s with pmm := (pmmAllocFrame s.pmm).2, trace := .allocFailed :: s.trace } := by
  have hk : va / 2 ^ 22 < 1024 := by omega
  have hget : pagingGetPage dir va true flags s =
      .ok 0 { s with pmm := (pmmAllocFrame s.pmm).2, trace := .allocFailed :: s.trace } := by
    unfold pagingGetPage
    rw [bind_of_ok (load_directory hp hself hk), if_neg habs, if_pos rfl,
      bind_of_ok (allocFrame_null hnull), if_pos rfl]
    rfl
  unfold pagingMapPage
  rw [bind_of_ok hget, if_neg (by omega)]
  rfl

theorem pagingGetPage_new {table : ℕ} (habs : ¬present (entry s.mem s.cr3 (va / 2 ^ 22)))
    (htable : (pmmAllocFrame s.pmm).1 = table) (hne : table ≠ 0) :
    pagingGetPage dir va true flags s =
      (do
        memset table 0 4096
        store32 (currentPageDir + 4 * (va / 2 ^ 22)) (table ||| (flags &&& 0x7))
        return currentPageTables + 4096 * (va / 2 ^ 22) + 4 * (va / 4096 % 1024) : Kernel ℕ)
      { s with
        pmm := (pmmAllocFrame s.pmm).2, trace := .newTable table (s.translate table) :: s.trace } := by
  have hk : va / 2 ^ 22 < 1024 := by omega
  have halloc := allocFrame_eq (s := s) (by rw [htable]; exact hne)
  rw [htable] at halloc
  unfold pagingGetPage
  rw [bind_of_ok (load_directory hp hself hk), if_neg habs, if_pos rfl, bind_of_ok halloc,
    if_neg hne]
  exact bind_of_ok (modify_apply _ _)

/-- A new table whose zeroing reaches its frame: the frame is cleared, linked into the
directory, and gets its first entry. -/
theorem pagingMapPage_new {table : ℕ} (habs : ¬present (entry s.mem s.cr3 (va / 2 ^ 22)))
    (htable : (pmmAllocFrame s.pmm).1 = table) (hne : table ≠ 0) (haligned : table % 4096 = 0)
    (hlt : table < 2 ^ 32) (hdir : s.cr3 ≠ table) (hodd : flags % 2 = 1)
    (hzero : ∀ m', (∀ x, x < table ∨ table + 4096 ≤ x → m' x = s.mem x) →
      ∀ o < 4096, ({ s with mem := m' } : Machine).translate (table + o) = some (table + o)) :
    pagingMapPage dir va phys flags s =
      .ok () { s with
        pmm := (pmmAllocFrame s.pmm).2
        trace := .newTable table (some table) :: s.trace
        mem := ((s.mem.fill table 4096 fun _ => 0).set32 (s.cr3 + 4 * (va / 2 ^ 22))
          (table + flags % 8)).set32 (table + 4 * (va / 4096 % 1024)) (phys ||| flags) } := by
  have hk : va / 2 ^ 22 < 1024 := by omega
  have hcr3 := hself.aligned
  have hk' : va / 2 ^ 22 ≠ 1023 := by
    intro h
    rw [h] at habs
    exact habs hself.present
  have hreach : s.translate table = some table := hzero s.mem (fun _ _ => rfl) 0 (by omega)
  have hor : table ||| (flags &&& 0x7) = table + flags % 8 := by
    have hand : flags &&& 0x7 = flags % 8 := Nat.and_two_pow_sub_one_eq_mod flags 3
    rw [hand, or_eq_add haligned (by omega)]
  have hfilled : memset table 0 4096
      { s with pmm := (pmmAllocFrame s.pmm).2, trace := .newTable table (some table) :: s.trace } =
      .ok () { s with
        pmm := (pmmAllocFrame s.pmm).2
        trace := .newTable table (some table) :: s.trace
        mem := s.mem.fill table 4096 fun _ => 0 } := memset_eq 0 hzero
  have hself₁ : SelfMapped (s.mem.fill table 4096 fun _ => 0) s.cr3 := by
    refine hself.congr (entry_congr (by omega) ?_)
    intro o ho
    exact ByteMemory.fill_outside s.mem _ (by omega)
  have hstored := store_directory (s := { s with
        pmm := (pmmAllocFrame s.pmm).2
        trace := .newTable table (some table) :: s.trace
        mem := s.mem.fill table 4096 fun _ => 0 }) hp hself₁ hk (table + flags % 8)
  have hgot : pagingGetPage dir va true flags s =
      .ok (currentPageTables + 4096 * (va / 2 ^ 22) + 4 * (va / 4096 % 1024)) { s with
        pmm := (pmmAllocFrame s.pmm).2
        trace := .newTable table (some table) :: s.trace
        mem := (s.mem.fill table 4096 fun _ => 0).set32 (s.cr3 + 4 * (va / 2 ^ 22))
          (table + flags % 8) } := by
    rw [pagingGetPage_new hp hself hva dir flags habs htable hne, hreach, bind_of_ok hfilled, hor,
      bind_of_ok hstored]
    rfl
  have hself₂ : SelfMapped ((s.mem.fill table 4096 fun _ => 0).set32 (s.cr3 + 4 * (va / 2 ^ 22))
      (table + flags % 8)) s.cr3 :=
    hself₁.congr (entry_set32_index _ _ _ (Ne.symm hk'))
  have hentry : entry ((s.mem.fill table 4096 fun _ => 0).set32 (s.cr3 + 4 * (va / 2 ^ 22))
      (table + flags % 8)) s.cr3 (va / 2 ^ 22) = table + flags % 8 := by
    rw [entry_set32_same]
    exact Nat.mod_eq_of_lt (by omega)
  have hpte : currentPageTables + 4096 * (va / 2 ^ 22) + 4 * (va / 4096 % 1024) ≠ 0 := by
    unfold currentPageTables
    omega
  have hpres : present (table + flags % 8) := by
    unfold present
    omega
  have hframe : frameOf (table + flags % 8) = table := frameOf_add haligned (by omega)
  have hwin := store_window (s := { s with
        pmm := (pmmAllocFrame s.pmm).2
        trace := .newTable table (some table) :: s.trace
        mem := (s.mem.fill table 4096 fun _ => 0).set32 (s.cr3 + 4 * (va / 2 ^ 22))
          (table + flags % 8) }) (j := va / 4096 % 1024) hp hself₂ hk (by omega)
    (by rw [hentry]; exact hpres) (phys ||| flags)
  unfold pagingMapPage
  rw [bind_of_ok hgot, if_pos hpte, hwin, hentry, hframe]

/-- Whatever the outcome, a new table leaves one event in the trace. -/
theorem pagingMapPage_new_trace {table : ℕ} (habs : ¬present (entry s.mem s.cr3 (va / 2 ^ 22)))
    (htable : (pmmAllocFrame s.pmm).1 = table) (hne : table ≠ 0) :
    (final (pagingMapPage dir va phys flags) s).trace =
      .newTable table (s.translate table) :: s.trace := by
  have hf := storeBlind_trace
  obtain ⟨c, hc, hget⟩ : ∃ c : Kernel ℕ, Leads (fun s t : Machine => t.trace = s.trace) c ∧
      pagingGetPage dir va true flags s = c { s with
        pmm := (pmmAllocFrame s.pmm).2
        trace := .newTable table (s.translate table) :: s.trace } :=
    ⟨_, hf.bind (hf.memset _ _ _) fun _ => hf.bind (hf.store32 _ _) fun _ => hf.pure _,
      pagingGetPage_new hp hself hva dir flags habs htable hne⟩
  have hrest := hf.bind hc fun pte =>
    leads_ite (p := pte ≠ 0) (hf.store32 pte (phys ||| flags)) (hf.pure ())
  have hkept := hrest { s with
    pmm := (pmmAllocFrame s.pmm).2, trace := .newTable table (s.translate table) :: s.trace }
  unfold final at hkept ⊢
  unfold pagingMapPage
  rw [bind_congr hget]
  exact hkept

/-- When a mapping with a new table returns, the zeroing of the table reached some address. -/
theorem pagingMapPage_new_reached {table : ℕ} {s' : Machine}
    (habs : ¬present (entry s.mem s.cr3 (va / 2 ^ 22)))
    (htable : (pmmAllocFrame s.pmm).1 = table) (hne : table ≠ 0)
    (hok : pagingMapPage dir va phys flags s = .ok () s') :
    ∃ pa, s.translate table = some pa ∧ .newTable table (some pa) ∈ s'.trace := by
  have htrace := pagingMapPage_new_trace hp hself hva dir phys flags habs htable hne
  obtain ⟨pte, t, hget, -⟩ := bind_eq_ok.mp hok
  rw [pagingGetPage_new hp hself hva dir flags habs htable hne] at hget
  obtain ⟨_, u, hset, -⟩ := bind_eq_ok.mp hget
  obtain ⟨_, hfirst⟩ := forRange_first hset
  obtain ⟨pa, hpa, -⟩ := store8_ok hfirst
  have hreach : s.translate table = some pa := hpa
  rw [final, hok, hreach] at htrace
  refine ⟨pa, hreach, ?_⟩
  rw [htrace]
  exact List.mem_cons_self

end MapPage

end MyOS
