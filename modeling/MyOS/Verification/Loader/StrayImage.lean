import MyOS.Verification.Loader.ProgramDisk

/-! A file that is no program. Its one segment has four bytes in the file and none in memory:
no page is mapped for it, but `memcpy` writes the bytes into the new directory. They name the next
free frame as the table behind the user stack. The stack's first page gets the same frame, so the
strings are written over the table that leads to them. -/

namespace MyOS

open Effect X86Paging ByteMemory PageTables Ownership

/-! ## The file -/

/-- An image whose segment is entry 767 of the directory, as the recursive window shows it. -/
def strayImage : List UInt8 :=
  [0x7F, 69, 76, 70, 1, 1, 1, 0, 0, 0, 0, 0, 0, 0, 0, 0, 2, 0, 3, 0, 1, 0, 0, 0,
    0, 0, 0x40, 0, 52, 0, 0, 0, 0, 0, 0, 0, 0, 0, 0, 0, 52, 0, 32, 0, 1, 0, 0, 0, 0, 0, 0, 0,
    1, 0, 0, 0, 84, 0, 0, 0, 0xFC, 0xFB, 0xFF, 0xFF, 0, 0, 0, 0, 4, 0, 0, 0, 0, 0, 0, 0, 6, 0, 0, 0,
    0, 0x10, 0, 0, 0x07, 0xD0, 0x02, 0]

variable {base s t : Machine} {g : Layout} {buf : ℕ}

/-- The file lies in the heap. -/
def Buffered (base : Machine) (g : Layout) (buf : ℕ) : Prop :=
  ∀ i < 88, g.InHeap (buf + i) ∧ base.mem (g.phys (buf + i)) = strayImage.getD i 0

/-! ## The directory -/

/-- The load works in the directory at `0x2B000`, a frame in hand, and since `base` it has written
to memory. -/
structure Stray (base : Machine) (g : Layout) (s : Machine) : Prop where
  space : KernelSpace s g
  active : ActiveDir s.mem g 0x2B000
  loose : g.loose 0x2B000
  cr3 : s.cr3 = 0x2B000
  kept : HeapKept g base.mem s.mem
  same : s = { base with mem := s.mem }

/-- Bytes of frames in hand may change, but for what makes the directory one of the kernel. -/
theorem Stray.of_bytes (h : Stray base g s) {m : ByteMemory}
    (hm : ∀ x, m x = s.mem x ∨ ∃ f, g.loose f ∧ f ≤ x ∧ x < f + 4096 ∧
      (f = 0x2B000 → f + 4 ≤ x ∧ x < f + 4088)) : Stray base g { s with mem := m } := by
  have haligned : ∀ f, g.loose f → f % 4096 = 0 := fun f hf =>
    (h.space.frame_bounds (o := .loose f) ⟨rfl, hf⟩).1
  have hentry : ∀ k, k = 0 ∨ k = 1022 ∨ k = 1023 → entry m 0x2B000 k = entry s.mem 0x2B000 k := by
    intro k hk
    refine get32_congr ?_
    intro i hi
    rcases hm (0x2B000 + 4 * k + i) with hsame | ⟨f, hf, hlow, hhigh, hspared⟩
    · exact hsame
    · have hfa := haligned f hf
      have hspared := hspared (by omega)
      omega
  refine ⟨h.space.of_bytes ?_, ?_, h.loose, h.cr3, h.kept.trans ?_, ?_⟩
  · intro r f hr o ho
    rcases hm (f + o) with hsame | ⟨f', hf', hlow, hhigh, -⟩
    · exact hsame
    · have hout := h.space.outside (o := .loose f') ⟨rfl, hf'⟩
        (fun r => by cases r <;> simp [Layout.roleOwner]) hr
      omega
  · refine ⟨h.active.aligned, h.active.lt, ?_, ?_, ?_⟩
    · exact (hentry 0 (.inl rfl)).trans h.active.low
    · exact (hentry 1022 (.inr (.inl rfl))).trans h.active.window
    · exact (hentry 1023 (.inr (.inr rfl))).trans h.active.self
  · intro va hva
    rcases hm (g.phys va) with hsame | ⟨f, hf, hlow, hhigh, -⟩
    · exact hsame
    · obtain ⟨f', hf', hfa', hphys⟩ := h.space.phys_heap hva
      have hne := h.space.exact.ne_of_owner_ne (o := .loose f) ⟨rfl, hf⟩ hf' (by simp)
      have hfa := haligned f hf
      omega
  · have hsame := h.same
    rw [hsame]

theorem Stray.translate_heap (h : Stray base g s) {va : ℕ} (hva : g.InHeap va) :
    s.translate va = some (g.phys va) := by
  have hlt := h.space.inHeap_lt hva
  rw [translate_eq h.space.paging (by omega), h.cr3, h.space.translate_low h.active hlt]
  rfl

theorem Stray.load8_file (h : Stray base g s) (hfile : Buffered base g buf) {i : ℕ} (hi : i < 88) :
    load8 (buf + i) s = .ok (strayImage.getD i 0) s := by
  obtain ⟨hin, hbyte⟩ := hfile i hi
  rw [load8_eq (h.translate_heap hin), h.kept _ hin, hbyte]

theorem Stray.load32_file (h : Stray base g s) (hfile : Buffered base g buf) {o w : ℕ}
    (ho : o + 4 ≤ 88) (hw : ByteMemory.get32 (fun i => strayImage.getD i 0) o = w) :
    load32 (buf + o) s = .ok w s := by
  have hbyte : ∀ k < 4, load8 (buf + o + k) s = .ok (strayImage.getD (o + k) 0) s := by
    intro k hk
    rw [Nat.add_assoc]
    exact h.load8_file hfile (by omega)
  rw [load32, bind_of_ok (h.load8_file hfile (show o < 88 by omega)),
    bind_of_ok (hbyte 1 (by omega)), bind_of_ok (hbyte 2 (by omega)),
    bind_of_ok (hbyte 3 (by omega)), ← hw]
  rfl

/-! ## The segment -/

/-- The four bytes reach the directory. -/
theorem Stray.copySegment (h : Stray base g s) (hfile : Buffered base g buf) :
    ∃ t, memcpy 0xFFFFFBFC (buf + 84) 4 s = .ok () t ∧ Stray base g t ∧
      entry t.mem 0x2B000 767 = 0x2D007 := by
  have hloop : ∃ t, memcpy 0xFFFFFBFC (buf + 84) 4 s = .ok () t ∧ Stray base g t ∧
      ∀ k < 4, t.mem (0x2BBFC + k) = strayImage.getD (84 + k) 0 := forRange_total
    (fun i t => Stray base g t ∧ ∀ k < i, t.mem (0x2BBFC + k) = strayImage.getD (84 + k) 0)
    (by
      rintro i t hi ⟨ht, hbytes⟩
      have hself := ht.active.selfMapped.translate_directory (show 0xBFC + i < 4096 by omega)
      have hva : 0xFFFFF000 + (0xBFC + i) = 0xFFFFFBFC + i := by omega
      have hpa : 0x2B000 + (0xBFC + i) = 0x2BBFC + i := by omega
      rw [hva, hpa] at hself
      have hreach : t.translate (0xFFFFFBFC + i) = some (0x2BBFC + i) := by
        rw [translate_eq ht.space.paging (by omega), ht.cr3, hself]
      have hload : load8 (buf + 84 + i) t = .ok (strayImage.getD (84 + i) 0) t := by
        rw [Nat.add_assoc]
        exact ht.load8_file hfile (by omega)
      refine ⟨_, by rw [bind_of_ok hload]; exact store8_eq _ hreach, ht.of_bytes ?_, ?_⟩
      · intro x
        by_cases hx : x = 0x2BBFC + i
        · exact .inr ⟨0x2B000, ht.loose, by omega, by omega, fun _ => by omega⟩
        · exact .inl (set8_of_ne _ _ hx)
      · intro k hk
        change t.mem.set8 (0x2BBFC + i) _ (0x2BBFC + k) = _
        by_cases hki : k = i
        · rw [hki, set8_same]
        · rw [set8_of_ne _ _ (by omega)]
          exact hbytes k (by omega))
    ⟨h, fun k hk => absurd hk (Nat.not_lt_zero k)⟩
  obtain ⟨t, hcopy, ht, hbytes⟩ := hloop
  refine ⟨t, hcopy, ht, ?_⟩
  change (t.mem 0x2BBFC).toNat + 256 * (t.mem (0x2BBFC + 1)).toNat +
    65536 * (t.mem (0x2BBFC + 2)).toNat + 16777216 * (t.mem (0x2BBFC + 3)).toNat = 0x2D007
  have hfirst := hbytes 0 (by omega)
  rw [Nat.add_zero] at hfirst
  rw [hfirst, hbytes 1 (by omega), hbytes 2 (by omega), hbytes 3 (by omega)]
  decide

/-- The program header is read, nothing is mapped, and the bytes are copied. -/
theorem Stray.loadSegments (h : Stray base g s) (hfile : Buffered base g buf) (dir : ℕ) :
    ∃ t, loadSegments dir buf (buf + 52) (2 ^ 16) 0 s = .ok true t ∧ Stray base g t ∧
      entry t.mem 0x2B000 767 = 0x2D007 := by
  have hfield : ∀ {u o w}, Stray base g u → 52 + o + 4 ≤ 88 →
      ByteMemory.get32 (fun i => strayImage.getD i 0) (52 + o) = w →
      load32 (buf + 52 + o) u = .ok w u := by
    intro u o w hu ho hw
    rw [Nat.add_assoc]
    exact hu.load32_file hfile ho hw
  have hphnum : ∀ {u}, Stray base g u → load16 (buf + ehdrPhnum) u = .ok 1 u := by
    intro u hu
    have hbyte : load8 (buf + ehdrPhnum + 1) u = .ok 0 u := by
      rw [Nat.add_assoc]
      exact hu.load8_file hfile (by decide)
    rw [load16, bind_of_ok (hu.load8_file hfile (show ehdrPhnum < 88 by decide)), bind_of_ok hbyte]
    rfl
  have hpages : mapSegmentPages dir (buf + 52) (s.pmm.pmmBitmapSize * 8 + 1) 0 s = .ok true s := by
    rw [mapSegmentPages, bind_of_ok (hfield h (o := phdrMemsz) (by decide) rfl)]
    rfl
  obtain ⟨t, hcopy, ht, hentry⟩ := h.copySegment hfile
  have hfill : fillSegment buf (buf + 52) s = .ok () t := by
    rw [fillSegment, bind_of_ok (hfield h (o := phdrVaddr) (by decide) rfl),
      bind_of_ok (hfield h (o := phdrOffset) (by decide) rfl),
      bind_of_ok (hfield h (o := phdrFilesz) (by decide) rfl)]
    change (memcpy 0xFFFFFBFC (buf + 84) 4 >>= _) s = _
    rw [bind_of_ok hcopy, clearBss, bind_of_ok (hfield ht (o := phdrMemsz) (by decide) rfl),
      bind_of_ok (hfield ht (o := phdrFilesz) (by decide) rfl)]
    rfl
  have hsegment : loadSegment dir buf (buf + 52) s = .ok true t := by
    rw [loadSegment, bind_of_ok (hfield h (o := phdrType) (w := ptLoad) (by decide) rfl),
      if_pos rfl, bind_of_ok (get_apply s)]
    rw [bind_of_ok hpages, if_pos rfl, bind_of_ok hfill]
    rfl
  obtain ⟨n, hn⟩ : ∃ n, 2 ^ 16 = n + 1 + 1 := ⟨65534, rfl⟩
  have hdone : MyOS.loadSegments dir buf (buf + 52) (n + 1) 1 t = .ok true t := by
    rw [MyOS.loadSegments, bind_of_ok (hphnum ht)]
    rfl
  refine ⟨t, ?_, ht, hentry⟩
  rw [hn, MyOS.loadSegments, bind_of_ok (hphnum h)]
  change (loadSegment dir buf (buf + 52) >>= _) s = _
  rw [bind_of_ok hsegment]
  exact hdone

/-! ## The stack -/

/-- Frame `0x2D000` is the table behind the stack. After `i` pages of the stack it is the first
page as well, and frame `0x2E000` is the second. -/
structure Pinned (base : Machine) (g : Layout) (i : ℕ) (s : Machine) : Prop
    extends Stray base g s where
  roomy : Roomy base g (45 + i)
  pde : entry s.mem 0x2B000 767 = 0x2D007
  first : 0 < i → g.loose 0x2D000 ∧ entry s.mem 0x2D000 1023 = 0x2D007
  second : 1 < i → g.loose 0x2E000

/-- One more frame is in hand. -/
theorem Stray.alloc (h : Stray base g s) (hne : (pmmAllocFrame s.pmm).1 ≠ 0) :
    Stray { base with pmm := (pmmAllocFrame s.pmm).2 } (g.take (pmmAllocFrame s.pmm).1)
      { s with pmm := (pmmAllocFrame s.pmm).2 } :=
  ⟨h.space.alloc hne s.trace, ⟨h.active.aligned, h.active.lt, h.active.low, h.active.window,
      h.active.self⟩,
    .inr h.loose, h.cr3, h.kept,
    congrArg (fun w : Machine => { w with pmm := (pmmAllocFrame s.pmm).2 }) h.same⟩

/-- The next page of the stack. -/
theorem Pinned.next {i : ℕ} (h : Pinned base g i s) (hi : i < 4) (dir : ℕ) :
    (pmmAllocFrame s.pmm).1 ≠ 0 ∧ ∃ p g' t, pagingMapPage dir
        (userStackTop - (i + 1) * pmmFrameSize) (pmmAllocFrame s.pmm).1 userPageFlags
        { s with pmm := (pmmAllocFrame s.pmm).2 } = .ok () t ∧
      Pinned { base with pmm := p } g' (i + 1) t ∧ ∃ f, g' = g.take f := by
  have hpmm : s.pmm = base.pmm := by rw [h.same]
  have hbelow : 45 + i < windowPage := by
    unfold windowPage
    omega
  obtain ⟨hframe, hne, hroom⟩ := h.roomy.alloc hbelow
  rw [← hpmm] at hframe hne hroom
  obtain ⟨f, hf⟩ : ∃ f, f = (pmmAllocFrame s.pmm).1 := ⟨_, rfl⟩
  obtain ⟨u, hu⟩ : ∃ u : Machine, u = { s with pmm := (pmmAllocFrame s.pmm).2 } := ⟨_, rfl⟩
  obtain ⟨p, hp⟩ : ∃ p, p = (pmmAllocFrame s.pmm).2 := ⟨_, rfl⟩
  have haddr : userStackTop - (i + 1) * pmmFrameSize = 0xC0000000 - 4096 * (i + 1) := by
    rw [Nat.mul_comm]
    rfl
  have hslot : (0xC0000000 - 4096 * (i + 1)) / 2 ^ 22 = 767 := by omega
  have hindex : (0xC0000000 - 4096 * (i + 1)) / 4096 % 1024 = 1023 - i := by omega
  have hmem : u.mem = s.mem := by rw [hu]
  have htaken : Stray { base with pmm := p } (g.take f) u := by
    rw [hp, hf, hu]
    exact h.toStray.alloc hne
  rw [haddr, ← hf, ← hu]
  rw [← hf] at hframe hne
  rw [← hp] at hroom
  have hor : f ||| userPageFlags = f + 7 := or_eq_add (by omega) (by decide)
  have hpde : entry u.mem u.cr3 767 = 0x2D007 := by
    rw [hmem, htaken.cr3]
    exact h.pde
  have htable : frameOf 0x2D007 = 0x2D000 := by decide
  have hmap := pagingMapPage_present htaken.space.paging
    (by rw [htaken.cr3]; exact htaken.active.selfMapped)
    (show 0xC0000000 - 4096 * (i + 1) < 2 ^ 32 by omega) dir f userPageFlags
    (by rw [hslot, hpde]; decide)
  rw [hslot, hindex, hor, hpde, htable] at hmap
  have hloose : (g.take f).loose 0x2D000 := by
    by_cases hpos : 0 < i
    · exact .inr (h.first hpos).1
    · exact .inl (by omega)
  refine ⟨hne, p, g.take f, _, hmap, ⟨htaken.of_bytes ?_, ?_, ?_, ?_, ?_⟩, f, rfl⟩
  · intro x
    by_cases hx : x < 0x2D000 + 4 * (1023 - i) ∨ 0x2D000 + 4 * (1023 - i) + 4 ≤ x
    · exact .inl (set32_of_outside _ _ hx)
    · exact .inr ⟨0x2D000, hloose, by omega, by omega, fun heq => by omega⟩
  · exact ⟨hroom.linear, h.roomy.pos.trans (by omega), hroom.behind, h.roomy.clean⟩
  · have hother := entry_set32_frame u.mem (f + 7) (show 0x2D000 % 4096 = 0 by decide)
      (show 0x2B000 % 4096 = 0 by decide) (show 1023 - i < 1024 by omega)
      (show 767 < 1024 by decide) (by decide)
    rw [← htaken.cr3] at hother
    exact (htaken.cr3 ▸ hother).trans (htaken.cr3 ▸ hpde)
  · intro _
    refine ⟨hloose, ?_⟩
    by_cases hpos : 0 < i
    · refine (entry_set32_index u.mem _ _ (by omega)).trans ?_
      rw [hmem]
      exact (h.first hpos).2
    · obtain rfl : i = 0 := by omega
      refine (entry_set32_same u.mem _ _ _).trans ?_
      rw [hframe]
      rfl
  · intro hmore
    by_cases hone : 1 < i
    · exact .inr (h.second hone)
    · exact .inl (by omega)

theorem Pinned.mapStackPages (dir n : ℕ) : ∀ i base g s, Pinned base g i s → i + n = 4 →
    ∃ p loose t, mapStackPages dir n i s = .ok true t ∧
      Pinned { base with pmm := p } { g with loose := loose } 4 t := by
  induction n with
  | zero =>
      intro i base g s h hi
      obtain rfl : i = 4 := hi
      exact ⟨base.pmm, g.loose, s, rfl, h⟩
  | succ n ih =>
      intro i base g s h hi
      obtain ⟨hne, p, _, t, hmap, ht, f, rfl⟩ := h.next (by omega) dir
      obtain ⟨p', loose, u, hrun, hu⟩ := ih (i + 1) _ _ t ht (by omega)
      refine ⟨p', loose, u, ?_, hu⟩
      rw [MyOS.mapStackPages, bind_of_ok (allocFrame_eq hne), if_neg hne, bind_of_ok hmap]
      exact hrun

/-! ## The arguments -/

/-- The first page of the stack is now frame `0x2E000`, in which one byte is as it was. -/
structure Redirected (base : Machine) (g : Layout) (old : UInt8) (s : Machine) : Prop
    extends Stray base g s where
  pde : entry s.mem 0x2B000 767 = 0x2D007
  pte : present (entry s.mem 0x2D000 1023) ∧ frameOf (entry s.mem 0x2D000 1023) = 0x2E000
  first : g.loose 0x2D000
  second : g.loose 0x2E000
  old_eq : s.mem 0x2EFFD = old

variable {old c : UInt8}

/-- The first page of the stack. -/
theorem Stray.translate_stack (h : Stray base g s) (hpde : entry s.mem 0x2B000 767 = 0x2D007)
    (hpte : present (entry s.mem 0x2D000 1023)) (va : ℕ) (hlow : 0xBFFFF000 ≤ va)
    (hhigh : va < 0xC0000000) :
    s.translate va = some (frameOf (entry s.mem 0x2D000 1023) + (va - 0xBFFFF000)) := by
  have hslot : va / 2 ^ 22 = 767 := by omega
  have hindex : va / 4096 % 1024 = 1023 := by omega
  have hoffset : va % 4096 = va - 0xBFFFF000 := by omega
  have htable : frameOf 0x2D007 = 0x2D000 := by decide
  rw [translate_eq h.space.paging (by omega), h.cr3, translate_eq_some, hslot, hindex, hoffset,
    hpde, htable]
  exact ⟨by decide, hpte, rfl⟩

/-- The first byte of the last string goes into the entry that leads to it. -/
theorem Pinned.redirect (h : Pinned base g 4 s) (hc : c.toNat / 16 = 14) :
    ∃ t, store8 0xBFFFFFFD c s = .ok () t ∧ Redirected base g (s.mem 0x2EFFD) t := by
  obtain ⟨hloose, hpte⟩ := h.first (by decide)
  have hreach := h.translate_stack h.pde (by rw [hpte]; decide) 0xBFFFFFFD (by decide)
    (by decide)
  rw [hpte] at hreach
  have hpa : s.translate 0xBFFFFFFD = some 0x2DFFD := hreach
  have hentry : entry (s.mem.set8 0x2DFFD c) 0x2D000 1023 = 7 + 256 * c.toNat + 65536 * 2 := by
    have h0 := (s.mem 0x2DFFC).toNat_lt
    have h1 := (s.mem 0x2DFFD).toNat_lt
    have h2 := (s.mem 0x2DFFE).toNat_lt
    have h3 := (s.mem 0x2DFFF).toNat_lt
    have hold : (s.mem 0x2DFFC).toNat + 256 * (s.mem 0x2DFFD).toNat +
        65536 * (s.mem 0x2DFFE).toNat + 16777216 * (s.mem 0x2DFFF).toNat = 0x2D007 := hpte
    change (s.mem.set8 0x2DFFD c 0x2DFFC).toNat + 256 * (s.mem.set8 0x2DFFD c 0x2DFFD).toNat +
      65536 * (s.mem.set8 0x2DFFD c 0x2DFFE).toNat +
      16777216 * (s.mem.set8 0x2DFFD c 0x2DFFF).toNat = _
    rw [set8_same, set8_of_ne _ _ (by decide), set8_of_ne _ _ (by decide),
      set8_of_ne _ _ (by decide)]
    omega
  refine ⟨_, store8_eq c hpa, ?_, ?_, ?_, hloose, h.second (by decide), ?_⟩
  · refine h.of_bytes ?_
    intro x
    by_cases hx : x = 0x2DFFD
    · exact .inr ⟨0x2D000, hloose, by omega, by omega, fun heq => by omega⟩
    · exact .inl (set8_of_ne _ _ hx)
  · refine (entry_congr (by decide) ?_).trans h.pde
    intro o ho
    exact set8_of_ne _ _ (by omega)
  · have hlt := c.toNat_lt
    rw [hentry]
    unfold present frameOf
    omega
  · exact set8_of_ne s.mem c (show 0x2EFFD ≠ 0x2DFFD by decide)

/-- Everything else goes to the other frame. -/
theorem Redirected.of_bytes (h : Redirected base g old s) {m : ByteMemory}
    (hm : ∀ x, m x = s.mem x ∨ 0x2E000 ≤ x ∧ x < 0x2F000 ∧ x ≠ 0x2EFFD) :
    Redirected base g old { s with mem := m } := by
  have hentry : ∀ f k, f + 4096 ≤ 0x2E000 → k < 1024 → entry m f k = entry s.mem f k := by
    intro f k hf hk
    refine get32_congr ?_
    intro i hi
    rcases hm (f + 4 * k + i) with hsame | ⟨hlow, -⟩
    · exact hsame
    · omega
  have hpte := hentry 0x2D000 1023 (by decide) (by decide)
  refine ⟨h.toStray.of_bytes ?_, (hentry _ _ (by decide) (by decide)).trans h.pde, ?_, h.first,
    h.second, ?_⟩
  · intro x
    rcases hm x with hsame | ⟨hlow, hhigh, -⟩
    · exact .inl hsame
    · exact .inr ⟨0x2E000, h.second, hlow, hhigh, fun heq => by omega⟩
  · change present (entry m _ _) ∧ frameOf (entry m _ _) = _
    rw [hpte]
    exact h.pte
  · rcases hm 0x2EFFD with hsame | ⟨-, -, hne⟩
    · exact hsame.trans h.old_eq
    · exact absurd rfl hne

theorem Redirected.translate (h : Redirected base g old s) {va : ℕ} (hlow : 0xBFFFF000 ≤ va)
    (hhigh : va < 0xC0000000) : s.translate va = some (va - 0xBFFD1000) := by
  have hpa : 0x2E000 + (va - 0xBFFFF000) = va - 0xBFFD1000 := by omega
  rw [h.translate_stack h.pde h.pte.1 va hlow hhigh, h.pte.2, hpa]

theorem Redirected.store8 (h : Redirected base g old s) (va : ℕ) (hlow : 0xBFFFF000 ≤ va)
    (hhigh : va < 0xC0000000) (hne : va ≠ 0xBFFFFFFD) (b : UInt8) :
    ∃ t, MyOS.store8 va b s = .ok () t ∧ Redirected base g old t := by
  refine ⟨_, store8_eq b (h.translate hlow hhigh), h.of_bytes ?_⟩
  intro x
  by_cases hx : x = va - 0xBFFD1000
  · exact .inr (by omega)
  · exact .inl (set8_of_ne _ _ hx)

theorem Redirected.store32 (h : Redirected base g old s) (va : ℕ) (hlow : 0xBFFFF000 ≤ va)
    (hhigh : va + 4 ≤ 0xBFFFFFFD) (w : ℕ) :
    ∃ t, MyOS.store32 va w s = .ok () t ∧ Redirected base g old t ∧
      t.mem = s.mem.set32 (va - 0xBFFD1000) w := by
  refine ⟨_, store32_eq w (h.translate hlow (by omega)), h.of_bytes ?_, rfl⟩
  intro x
  by_cases hx : x < va - 0xBFFD1000 ∨ va - 0xBFFD1000 + 4 ≤ x
  · exact .inl (set32_of_outside _ _ hx)
  · exact .inr (by omega)

/-- What the heap does later does not show. -/
theorem Redirected.seen (h : Redirected base g old s) {m : ByteMemory} (hm : HeapOnly g s.mem m)
    {va : ℕ} (hlow : 0xBFFFF000 ≤ va) (hhigh : va < 0xC0000000) :
    X86Paging.translate m 0x2B000 va = some (va - 0xBFFD1000) ∧
      m (va - 0xBFFD1000) = s.mem (va - 0xBFFD1000) := by
  have hbyte : ∀ f, g.loose f → ∀ o < 4096, m (f + o) = s.mem (f + o) := by
    intro f hf o ho
    refine hm _ ?_
    intro x hx heq
    obtain ⟨f', hf', hfa', hphys⟩ := h.space.phys_heap hx
    have hne := h.space.exact.ne_of_owner_ne (o := .loose f) ⟨rfl, hf⟩ hf' (by simp)
    have hfa := (h.space.frame_bounds (o := .loose f) ⟨rfl, hf⟩).1
    omega
  have hslot : va / 2 ^ 22 = 767 := by omega
  have hindex : va / 4096 % 1024 = 1023 := by omega
  have htable : frameOf (entry s.mem 0x2B000 767) = 0x2D000 := by
    rw [h.pde]
    decide
  have hreach := h.translate hlow hhigh
  rw [translate_eq h.space.paging (by omega), h.cr3] at hreach
  constructor
  · rw [← hreach]
    refine translate_congr ?_ ?_
    · rw [hslot]
      exact entry_congr (by decide) (hbyte _ h.loose)
    · rw [hslot, hindex, htable]
      exact entry_congr (by decide) (hbyte _ h.first)
  · have hpa : 0x2E000 + (va - 0xBFFFF000) = va - 0xBFFD1000 := by omega
    rw [← hpa]
    exact hbyte _ h.second _ (by omega)

/-- A string below the last one. -/
theorem Redirected.pushString (h : Redirected base g old s) (va : ℕ) (str : List UInt8)
    (hlow : 0xBFFFF000 ≤ va) (hhigh : va + str.length + 1 ≤ 0xBFFFFFFD) :
    ∃ t, pushString va str s = .ok () t ∧ Redirected base g old t :=
  forRange_total (fun _ t => Redirected base g old t)
    (fun _ _ hi ht => ht.store8 _ (by omega) (by omega) (by omega) _) h

/-- The last string, two characters long. -/
theorem Pinned.pushString (h : Pinned base g 4 s) (hc : c.toNat / 16 = 14) (x : UInt8) :
    ∃ t, pushString 0xBFFFFFFD [c, x] s = .ok () t ∧ Redirected base g (s.mem 0x2EFFD) t := by
  have hloop : ∃ t, MyOS.pushString 0xBFFFFFFD [c, x] s = .ok () t ∧ (3 = 0 → t = s) ∧
      (0 < 3 → Redirected base g (s.mem 0x2EFFD) t) := forRange_total
    (fun i t => (i = 0 → t = s) ∧ (0 < i → Redirected base g (s.mem 0x2EFFD) t))
    (by
      rintro i t hi ⟨hfirst, hrest⟩
      have hi3 : i < 3 := hi
      by_cases hpos : 0 < i
      · obtain ⟨u, hstore, hu⟩ := (hrest hpos).store8 (0xBFFFFFFD + i) (by omega) (by omega)
          (by omega) ([c, x].getD i 0)
        exact ⟨u, hstore, fun hzero => by omega, fun _ => hu⟩
      · obtain rfl : i = 0 := by omega
        rw [hfirst rfl]
        obtain ⟨u, hstore, hu⟩ := h.redirect hc
        exact ⟨u, hstore, fun hzero => by omega, fun _ => hu⟩)
    ⟨fun _ => rfl, fun hpos => absurd hpos (Nat.lt_irrefl 0)⟩
  obtain ⟨t, hrun, -, hrest⟩ := hloop
  exact ⟨t, hrun, hrest (by decide)⟩

/-- The arguments of the call. -/
def strayArgs (c : UInt8) : List (List UInt8) := [text "prog.bin", [c, 120]]

/-- The pointer to the array and the pointer to the last string are in their places. -/
theorem Pinned.setupArguments (h : Pinned base g 4 s) (hc : c.toNat / 16 = 14) :
    ∃ t, setupArguments (strayArgs c) s = .ok 0xBFFFFFE0 t ∧
      Redirected base g (s.mem 0x2EFFD) t ∧ t.mem.get32 0x2EFE4 = 0xBFFFFFE8 ∧
      t.mem.get32 0x2EFEC = 0xBFFFFFFD := by
  have hlength : (text "prog.bin").length = 8 := by decide +kernel
  obtain ⟨t, hlast, ht⟩ := h.pushString hc 120
  obtain ⟨u, hname, hu⟩ := ht.pushString 0xBFFFFFF4 (text "prog.bin") (by decide)
    (by rw [hlength])
  have hpushLast : pushStrings [[c, 120]] userStackTop s = .ok (0xBFFFFFFD, [0xBFFFFFFD]) t := by
    have htop : userStackTop = 0xC0000000 := rfl
    have htwo : [c, 120].length = 2 := rfl
    have hdest : (userStackTop + 2 ^ 32 - ([c, 120].length + 1)) % 2 ^ 32 = 0xBFFFFFFD := by omega
    have hnil : pushStrings [] userStackTop s = .ok (userStackTop, []) s := rfl
    rw [pushStrings, bind_of_ok hnil]
    simp only [hdest]
    rw [bind_of_ok hlast]
    rfl
  have hpush : pushStrings (strayArgs c) userStackTop s =
      .ok (0xBFFFFFF4, [0xBFFFFFF4, 0xBFFFFFFD]) u := by
    have hdest : (0xBFFFFFFD + 2 ^ 32 - ((text "prog.bin").length + 1)) % 2 ^ 32 = 0xBFFFFFF4 := by
      omega
    rw [strayArgs, pushStrings, bind_of_ok hpushLast]
    simp only [hdest]
    rw [bind_of_ok hname]
    rfl
  obtain ⟨t₁, h₁, ht₁, hm₁⟩ := hu.store32 0xBFFFFFE8 (by decide) (by decide) 0xBFFFFFF4
  obtain ⟨t₂, h₂, ht₂, hm₂⟩ := ht₁.store32 0xBFFFFFEC (by decide) (by decide) 0xBFFFFFFD
  obtain ⟨t₃, h₃, ht₃, hm₃⟩ := ht₂.store32 0xBFFFFFF0 (by decide) (by decide) 0
  obtain ⟨t₄, h₄, ht₄, hm₄⟩ := ht₃.store32 0xBFFFFFE4 (by decide) (by decide) 0xBFFFFFE8
  obtain ⟨t₅, h₅, ht₅, hm₅⟩ := ht₄.store32 0xBFFFFFE0 (by decide) (by decide) 2
  obtain ⟨body, hbody⟩ : ∃ body : ℕ → Kernel Unit, body = fun i =>
    MyOS.store32 (0xBFFFFFE8 + 4 * i) ([0xBFFFFFF4, 0xBFFFFFFD].getD i 0) := ⟨_, rfl⟩
  have hone : forRange 1 body u = .ok () t₁ := by
    rw [forRange, bind_of_ok (show forRange 0 body u = .ok () u from rfl), hbody]
    exact h₁
  have hloop : forRange 2 body u = .ok () t₂ := by
    rw [forRange, bind_of_ok hone, hbody]
    exact h₂
  rw [hbody] at hloop
  refine ⟨t₅, ?_, ht₅, ?_, ?_⟩
  · have htwo : (strayArgs c).length = 2 := rfl
    have harray : (0xBFFFFFF4 / 4 * 4 + 2 ^ 32 - 4 * ((strayArgs c).length + 1)) % 2 ^ 32 =
        0xBFFFFFE8 := by omega
    have hslot : (0xBFFFFFE8 + 2 ^ 32 - 4) % 2 ^ 32 = 0xBFFFFFE4 := rfl
    have hargc : (0xBFFFFFE4 + 2 ^ 32 - 4) % 2 ^ 32 = 0xBFFFFFE0 := rfl
    rw [MyOS.setupArguments, bind_of_ok hpush]
    simp only [harray, hslot, hargc]
    rw [htwo, bind_of_ok hloop, bind_of_ok h₃, bind_of_ok h₄, bind_of_ok h₅]
    rfl
  · rw [hm₅, get32_set32_of_disjoint _ _ (by omega), hm₄, get32_set32_same]
    rfl
  · rw [hm₅, get32_set32_of_disjoint _ _ (by omega), hm₄, get32_set32_of_disjoint _ _ (by omega),
      hm₃, get32_set32_of_disjoint _ _ (by omega), hm₂, get32_set32_same]
    rfl

/-! ## The call -/

/-- The layout when the new directory is in hand. -/
def strayLayout (t : ℕ) : Layout := { fsLayout 33 4 with temp := some t }.take 0x2B000

/-- The file is read, and the load may begin in the new directory. -/
structure StrayStart (u : Machine) (v : HeapView) (a t : ℕ) (c : Machine) : Prop where
  heap : KernelHeap u (fsLayout 33 4) v
  live : (a, 88) ∈ v.live
  clone : pagingCloneDirectory u.kernelDirectory u = .ok 0x2B000 c
  machine : ∃ m p tr, c = { u with mem := m, pmm := p, trace := tr }
  kept : HeapKept (fsLayout 33 4) u.mem c.mem
  stray : Stray { c with cr3 := 0x2B000 } (strayLayout t) { c with cr3 := 0x2B000 }
  roomy : Roomy { c with cr3 := 0x2B000 } (strayLayout t) 45
  file : Buffered { c with cr3 := 0x2B000 } (strayLayout t) (a + 8)

theorem ImageRead.stray {u : Machine} (hread : ImageRead strayImage s (fsLayout 33 4) buf u)
    (hroom : s.alignedTop + 96 ≤ s.heapEnd) :
    ∃ v a t c, buf = a + 8 ∧ StrayStart u v a t c := by
  obtain ⟨frames, v, a, hheap, rfl, hlive, hroomy, -, hnone⟩ := hread.block
  obtain rfl := hnone hroom
  rw [Layout.extend_nil] at hheap hroomy
  have hroomy : Roomy u (fsLayout 33 4) 43 := hroomy
  obtain ⟨t, d, c, hclone, ⟨hd, -⟩, hmachine, hcspace, hkept, hroomc⟩ :=
    hheap.clone_total hroomy (by decide) rfl (i := 2) rfl u.kernelDirectory
  obtain rfl : d = 0x2B000 := hd
  have hloosened := KernelSpace.loosen (g := { fsLayout 33 4 with temp := some t }) hcspace rfl
  have hslot : ((fsLayout 33 4).cloned t 2 0x2B000).space 2 = some (emptySpace 0x2B000) := by
    change Function.update (fsLayout 33 4).space 2 (some (emptySpace 0x2B000)) 2 = _
    rw [Function.update_self]
  have hactive := hcspace.activeSpace hslot
  refine ⟨v, a, t, c, rfl, hheap, hlive, hclone, hmachine, hkept, ?_, ?_, ?_⟩
  · exact ⟨hloosened.same rfl rfl rfl rfl, ⟨hactive.aligned, hactive.lt, hactive.low,
      hactive.window, hactive.self⟩, .inl rfl, rfl, fun _ _ => rfl, rfl⟩
  · exact ⟨hroomc.linear, hroomc.pos, hroomc.behind, hroomc.clean⟩
  · intro i hi
    have hin := (hheap.heap.live_bounds hlive hi).1
    refine ⟨hin, ?_⟩
    rw [← hread.image i hi, hheap.view_heap hin]
    exact hkept _ hin

/-- A call of `exec_program` that goes through with the file: the arguments are on the stack, and
what follows is the task. -/
structure StrayCall (c old : UInt8) (s ready left s' : Machine) (g : Layout) (v : HeapView)
    (a : ℕ) : Prop where
  run : execProgram (strayArgs c) s = .ok (some 2) s'
  fresh : c ≠ old ∧ c ≠ 0
  redirected : ∃ base, Redirected base g old ready
  array : ready.mem.get32 0x2EFE4 = 0xBFFFFFE8
  string : ready.mem.get32 0x2EFEC = 0xBFFFFFFD
  heap : KernelHeap left g v
  same : left.mem = ready.mem
  live : (a, 88) ∈ v.live
  installs : installTask (text "prog.bin") (a + 8) 0x2B000 0xBFFFFFE0 left = .ok (some 2) s'
  clean : Clean s'.trace

theorem exists_fresh (old : UInt8) : ∃ c : UInt8, c.toNat / 16 = 14 ∧ c ≠ old ∧ c ≠ 0 := by
  by_cases h : old = 0xE0
  · exact ⟨0xE1, by decide, by rw [h]; decide, by decide⟩
  · exact ⟨0xE0, by decide, Ne.symm h, by decide⟩

/-- The call has loaded the file: `ready` is the machine with the arguments on the stack, and
`left` the one that has left the new directory. -/
structure StrayLoad (u c : Machine) (x old : UInt8) (ready left : Machine) (g : Layout)
    (v : HeapView) (a : ℕ) : Prop where
  fresh : x ≠ old ∧ x ≠ 0
  redirected : ∃ base, Redirected base g old ready
  array : ready.mem.get32 0x2EFE4 = 0xBFFFFFE8
  string : ready.mem.get32 0x2EFEC = 0xBFFFFFFD
  heap : KernelHeap left g v
  same : left.mem = ready.mem
  roomy : Roomy left g 49
  file : g.InHeap (a + 8 + 51)
  table : left.processTable = u.processTable
  loads : ∀ filename, loadProgram filename (strayArgs x) (a + 8) 0x2B000 c =
    installTask filename (a + 8) 0x2B000 0xBFFFFFE0 left

theorem StrayStart.load {u c : Machine} {v : HeapView} {a t : ℕ} (h : StrayStart u v a t c) :
    ∃ x old ready left g, StrayLoad u c x old ready left g v a := by
  obtain ⟨base, hbase⟩ : ∃ base : Machine, base = { c with cr3 := 0x2B000 } := ⟨_, rfl⟩
  have hstray := h.stray
  have hroomy := h.roomy
  have hfile := h.file
  rw [← hbase] at hstray hroomy hfile
  obtain ⟨loaded, hload, hloaded, hentry⟩ := hstray.loadSegments hfile 0x2B000
  have hpinned : Pinned base (strayLayout t) 0 loaded :=
    ⟨hloaded, hroomy, hentry, fun hpos => absurd hpos (Nat.lt_irrefl 0),
      fun hpos => absurd hpos (by decide)⟩
  obtain ⟨p, loose, stacked, hstack, hstacked⟩ :=
    Pinned.mapStackPages 0x2B000 userStackPages 0 base _ loaded hpinned rfl
  obtain ⟨x, hx, hfresh⟩ := exists_fresh (stacked.mem 0x2EFFD)
  obtain ⟨ready, hargs, hready, harray, hstring⟩ := hstacked.setupArguments hx
  obtain ⟨m, q, tr, hc⟩ := h.machine
  obtain ⟨left, hleft⟩ : ∃ left : Machine, left = { ready with cr3 := c.cr3 } := ⟨_, rfl⟩
  have hstate : left = { u with mem := ready.mem, pmm := p, trace := tr } := by
    rw [hleft, hready.same, hbase, hc]
  have hkept : HeapKept (fsLayout 33 4) u.mem ready.mem := by
    have hpages := hready.kept
    rw [hbase] at hpages
    exact h.kept.trans (hpages.of_layout rfl rfl)
  refine ⟨x, _, ready, left, { strayLayout t with loose := loose }, hfresh, ⟨_, hready⟩, harray,
    hstring, ⟨?_, HeapInvariant.of_layout (g := fsLayout 33 4) ?_ rfl rfl rfl, ?_⟩,
    by rw [hstate], ⟨?_, ?_, ?_, ?_⟩, (hfile 51 (by decide)).1, by rw [hstate], ?_⟩
  · rw [hleft]
    exact hready.space.same rfl rfl rfl rfl
  · refine h.heap.heap.of_kept ?_ ?_ ?_ ?_
    all_goals rw [hstate]
    exact hkept
  · rw [hstate]
    exact h.heap.cr3
  · rw [hstate]
    exact hstacked.roomy.linear
  · exact hstacked.roomy.pos
  · exact hstacked.roomy.behind
  · rw [show left.trace = base.trace by rw [hstate, hbase, hc]]
    exact hstacked.roomy.clean
  · intro filename
    have hphoff : load32 (a + 8 + ehdrPhoff) base = .ok 52 base :=
      hstray.load32_file hfile (by decide) (by decide)
    have henter : pagingSwitchDirectory 0x2B000 c = .ok () base := by
      rw [hbase]
      rfl
    have hleave : pagingSwitchDirectory c.cr3 ready = .ok () left := by
      rw [hleft]
      rfl
    rw [loadProgram, bind_of_ok (get_apply c), bind_of_ok henter, bind_of_ok hphoff,
      bind_of_ok hload, if_pos rfl, bind_of_ok hstack, if_pos rfl, bind_of_ok hargs,
      bind_of_ok hleave]

theorem FileMachine.stray (h : FileMachine (imageFile strayImage) s) :
    ∃ c old ready left s' g v a, StrayCall c old s ready left s' g v a := by
  have hs := h.toFileVolume.imageMachine
  have hend : s.heapEnd = 139264 := h.fs.heap.end_eq
  obtain ⟨buf, u, hread⟩ := hs.read h.clean
  obtain ⟨v, a, t, c, rfl, hstart⟩ := hread.stray (by rw [h.alignedTop, hend]; decide)
  obtain ⟨x, old, ready, left, g, hload⟩ := hstart.load
  have hslot : findFreeSlot left.processTable = some 2 := by
    rw [hload.table, hread.table]
    exact h.freeSlot
  obtain ⟨s', hinstall, htrace, -⟩ := hload.heap.installTask_total hload.roomy (by decide) hslot
    hstart.live hload.file (text "prog.bin") 0x2B000 0xBFFFFFE0
  refine ⟨x, old, ready, left, s', g, v, a, ?_, hload.fresh, hload.redirected, hload.array,
    hload.string, hload.heap, hload.same, hstart.live, hinstall,
    by rw [htrace]; exact hload.roomy.clean⟩
  have hmagic : load32 (a + 8) u = .ok elfMagic u := by
    have hfirst := (hstart.heap.heap.live_bounds hstart.live (show 0 < 88 by decide)).1
    have hlast := (hstart.heap.heap.live_bounds hstart.live (show 3 < 88 by decide)).1
    have hmagic := hstart.heap.load32_view hfirst hlast
    have hword : u.view.get32 (a + 8 + 0) = elfMagic :=
      (hread.image.get32 (by decide)).trans (by decide)
    rw [hword] at hmagic
    exact hmagic
  unfold MyOS.execProgram strayArgs
  change (openProgram (text "prog.bin") >>= _) s = _
  rw [bind_of_ok (hs.openProgram hread (by omega))]
  change (load32 (a + 8) >>= _) u = _
  rw [bind_of_ok hmagic, if_neg (fun hne => hne rfl), bind_of_ok (get_apply u),
    bind_of_ok hstart.clone, if_neg (by decide)]
  exact (hload.loads _).trans hinstall

end MyOS
