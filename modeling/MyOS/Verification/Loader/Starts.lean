import MyOS.Verification.Loader.Exec

/-! Programs that are started: while free frames lie behind the heap and below the windows, they
are reached at their own addresses, and the loader neither faults nor runs short. -/

namespace MyOS

open Effect X86Paging ByteMemory PageTables Ownership BlockHeap

variable {s : Machine} {g : Layout} {n : ℕ}

/-! ## Room -/

/-- The frames from `n` on are free and lie behind the heap, and nothing went wrong so far. -/
structure Roomy (s : Machine) (g : Layout) (n : ℕ) : Prop where
  linear : s.pmm.Linear n
  pos : 0 < n
  behind : g.heapPage + g.heap.length ≤ n
  clean : Clean s.trace

theorem Roomy.alloc (h : Roomy s g n) (hn : n < windowPage) :
    (pmmAllocFrame s.pmm).1 = n * 4096 ∧ (pmmAllocFrame s.pmm).1 ≠ 0 ∧
      Roomy { s with pmm := (pmmAllocFrame s.pmm).2 } g (n + 1) := by
  unfold windowPage at hn
  obtain ⟨hframe, hlinear⟩ := h.linear.alloc (by omega)
  have hpos := h.pos
  have hbehind := h.behind
  exact ⟨hframe, by omega, hlinear, by omega, by omega, h.clean⟩

/-- A frame behind the heap and below the windows is mapped to itself. -/
theorem KernelSpace.translate_behind (h : KernelSpace s g) (hdir : g.IsDir s.cr3)
    (hbehind : g.heapPage + g.heap.length ≤ n) (hn : n < windowPage) :
    s.translate (n * 4096) = some (n * 4096) := by
  have hheap : ¬g.InHeap (n * 4096) := by
    rintro ⟨-, hlt⟩
    omega
  have hwin : ¬g.InWindows (n * 4096) := by
    rintro ⟨hle, -⟩
    omega
  have hlow := g.lowFrame_identity hheap hwin
  unfold windowPage at hn
  rw [h.translate_phys hdir (by omega)]
  unfold Layout.phys
  rw [hlow]
  congr 1
  omega

/-- A kernel stack there is reached at its own addresses. -/
theorem KernelSpace.stack_behind (h : KernelSpace s g)
    (hbehind : g.heapPage + g.heap.length ≤ n) (hn : n < windowPage) :
    s.StackReached (n * 4096) := by
  have hheap : ¬g.InHeap (n * 4096) := by
    rintro ⟨-, hlt⟩
    omega
  have hwin : ¬g.InWindows (n * 4096) := by
    rintro ⟨hle, -⟩
    omega
  have hlow := g.lowFrame_identity hheap hwin
  unfold windowPage at hn
  refine (h.stackReached_iff (Nat.mul_mod_left n 4096)).mpr ⟨by omega, ?_⟩
  rw [hlow]
  omega

theorem KernelSpace.isDir_used (h : KernelSpace s g) {dir : ℕ} (hdir : g.IsDir dir) :
    s.pmm.UsedFrame dir := by
  rcases hdir with rfl | ⟨i, sp, hsp, rfl⟩
  · exact (h.exact.used_iff _).mpr ⟨.boot g.root, rfl, h.valid.root_aligned, h.valid.root_lt⟩
  · exact (h.exact.used_iff _).mpr ⟨.dir i, sp, hsp, rfl⟩

/-- A page is mapped, if need be with a new table. -/
theorem Roomy.map (h : Roomy s g n) (hspace : KernelSpace s g) (hdir : g.IsDir s.cr3)
    (hn : n < windowPage) {va : ℕ} (hva : va < 2 ^ 32) (dir phys : ℕ) {flags : ℕ}
    (hodd : flags % 2 = 1) :
    ∃ t n', pagingMapPage dir va phys flags s = .ok () t ∧ Roomy t g n' ∧ n' ≤ n + 1 := by
  have hself := (hspace.active hdir).selfMapped
  by_cases hpres : present (entry s.mem s.cr3 (va / 2 ^ 22))
  · refine ⟨_, n, pagingMapPage_present hspace.paging hself hva dir phys flags hpres, ?_, by omega⟩
    exact ⟨h.linear, h.pos, h.behind, h.clean⟩
  · obtain ⟨hframe, hne, hroom⟩ := h.alloc hn
    obtain ⟨haligned, hcap, hfree, -⟩ := usedFrame_pmmAllocFrame hne
    rw [hspace.capacity] at hcap
    have hlt : (pmmAllocFrame s.pmm).1 < 2 ^ 24 := by omega
    have hreach : s.translate (pmmAllocFrame s.pmm).1 = some (pmmAllocFrame s.pmm).1 := by
      rw [hframe]
      exact hspace.translate_behind hdir h.behind hn
    have hcr3 : s.cr3 ≠ (pmmAllocFrame s.pmm).1 := by
      intro heq
      rw [← heq] at hfree
      exact hfree (hspace.isDir_used hdir)
    refine ⟨_, n + 1, pagingMapPage_new hspace.paging hself hva dir phys flags hpres rfl hne haligned
      (hlt.trans (by decide)) hcr3 hodd fun m' hm o ho =>
        hspace.zero_reaches hdir hfree haligned hlt hreach hm ho, ?_, Nat.le_refl _⟩
    refine ⟨hroom.linear, hroom.pos, hroom.behind, ?_, ?_⟩
    · intro hmem
      rcases List.mem_cons.mp hmem with hmem | hmem
      · cases hmem
      · exact h.clean.served hmem
    · intro f r hmem
      rcases List.mem_cons.mp hmem with hmem | hmem
      · cases hmem
        rfl
      · exact h.clean.reached f r hmem

/-! ## Pages -/

variable {l : Load} {ps : List ℕ} {E : ℕ → Option UInt8} {sp : Space} {loose : ℕ → Prop}

/-- With room the next page gets its frame and is mapped. -/
theorem Loaded.next_page_total (h : Loaded l ps E s sp loose) (hroom : Roomy s l.layout n)
    (hn : n + 2 ≤ windowPage) {va : ℕ} (hlow : 1 ≤ va / 2 ^ 22) (hhigh : va / 2 ^ 22 < 1022)
    (hp : va / 4096 :: ps <:+ l.pages) (dir : ℕ) :
    (pmmAllocFrame s.pmm).1 ≠ 0 ∧ ∃ t n',
      pagingMapPage dir va (pmmAllocFrame s.pmm).1 userPageFlags
        { s with pmm := (pmmAllocFrame s.pmm).2 } = .ok () t ∧
      Roomy t l.layout n' ∧ n' ≤ n + 2 ∧
      ∃ E' sp' loose', Loaded l (va / 4096 :: ps) E' t sp' loose' := by
  obtain ⟨-, hne, hroom₁⟩ := hroom.alloc (by omega)
  have hu := h.toMapping.alloc hne
  obtain ⟨t, n', hmap, hroom₂, hn'⟩ := Roomy.map
    (g := l.layout.withSpace l.slot sp fun f => f = (pmmAllocFrame s.pmm).1 ∨ loose f)
    ⟨hroom₁.linear, hroom₁.pos, hroom₁.behind, hroom₁.clean⟩ hu.space hu.isDir (by omega)
    (show va < 2 ^ 32 by omega) dir (pmmAllocFrame s.pmm).1 (show userPageFlags % 2 = 1 from rfl)
  refine ⟨hne, t, n', hmap, ⟨hroom₂.linear, hroom₂.pos, hroom₂.behind, hroom₂.clean⟩, by omega, ?_⟩
  rcases (h.map_page hne hlow hhigh hp dir).ok hmap with hstray | hloaded
  · exact absurd hstray hroom₂.clean.not_strays
  · exact ⟨_, hloaded⟩

theorem Loaded.mapStackPages_total (dir k : ℕ) :
    ∀ i ps E s sp loose n, Loaded l ps E s sp loose → Roomy s l.layout n →
      n + 2 * k ≤ windowPage → i + k ≤ userStackPages →
      (stackPagesFrom i k).reverse ++ ps <:+ l.pages →
      ∃ t n', MyOS.mapStackPages dir k i s = .ok true t ∧ Roomy t l.layout n' ∧
        n' ≤ n + 2 * k ∧
        ∃ E' sp' loose', Loaded l ((stackPagesFrom i k).reverse ++ ps) E' t sp' loose' := by
  induction k with
  | zero =>
      intro i ps E s sp loose n h hroom _ _ _
      exact ⟨s, n, rfl, hroom, Nat.le_refl _, E, sp, loose, h⟩
  | succ k ih =>
      intro i ps E s sp loose n h hroom hn hi hsuffix
      have hpages : userStackPages = 4 := rfl
      have haddr : userStackTop - (i + 1) * pmmFrameSize = 0xC0000000 - 4096 * (i + 1) := by
        rw [Nat.mul_comm]
        rfl
      rw [stackPagesFrom_succ, List.reverse_cons, List.append_assoc, List.singleton_append]
        at hsuffix ⊢
      obtain ⟨hne, t, n', hmap, hroom', hn', E', sp', loose', hloaded⟩ :=
        h.next_page_total hroom (by omega) (by omega) (by omega)
          ((List.suffix_append _ _).trans hsuffix) dir
      obtain ⟨u, n'', hrun, hroom'', hn'', hdone⟩ :=
        ih (i + 1) _ _ t sp' loose' n' hloaded hroom' (by omega) (by omega) hsuffix
      refine ⟨u, n'', ?_, hroom'', by omega, hdone⟩
      rw [MyOS.mapStackPages, bind_of_ok (allocFrame_eq hne), if_neg hne, bind_of_ok hmap]
      exact hrun

theorem Loaded.mapSegmentPages_total {limit phdr dir : ℕ} (hphdr : HeaderInHeap l phdr)
    (hin : (phdrAt l.image phdr).Inside limit) (hlimit : limit ≤ 1022 * 2 ^ 22) (fuel : ℕ) :
    ∀ i ps E s sp loose n, Loaded l ps E s sp loose → Roomy s l.layout n →
      n + 2 * ((phdrAt l.image phdr).pageCount - i) ≤ windowPage →
      (phdrAt l.image phdr).pageCount - i < fuel →
      ((phdrAt l.image phdr).pagesFrom i).reverse ++ ps <:+ l.pages →
      ∃ t n', MyOS.mapSegmentPages dir phdr fuel (4096 * i) s = .ok true t ∧ Roomy t l.layout n' ∧
        n' ≤ n + 2 * ((phdrAt l.image phdr).pageCount - i) ∧
        ∃ E' sp' loose', Loaded l (((phdrAt l.image phdr).pagesFrom i).reverse ++ ps) E' t
          sp' loose' := by
  obtain ⟨d, hd⟩ : ∃ d, d = phdrAt l.image phdr := ⟨_, rfl⟩
  have hmemsz : l.image.get32 (phdr + phdrMemsz) = d.memsz := by rw [hd]; rfl
  have hvaddr : l.image.get32 (phdr + phdrVaddr) = d.vaddr := by rw [hd]; rfl
  rw [← hd] at hin ⊢
  have hlow := hin.low
  have hhigh := hin.high
  have hcount : d.pageCount = (d.memsz + 4095) / 4096 := rfl
  induction fuel with
  | zero =>
      intro i ps E s sp loose n _ _ _ hfuel
      omega
  | succ fuel ih =>
      intro i ps E s sp loose n h hroom hn hfuel hsuffix
      have hload := h.load_header hphdr (show phdrMemsz + 3 < sizeofPhdr by decide)
      have hload' := h.load_header hphdr (show phdrVaddr + 3 < sizeofPhdr by decide)
      rw [hmemsz] at hload
      rw [hvaddr] at hload'
      unfold MyOS.mapSegmentPages
      rw [bind_of_ok hload]
      by_cases hi : 4096 * i < d.memsz
      · have hcons := d.pagesFrom_cons (show i < d.pageCount by omega)
        have hva : (d.vaddr + 4096 * i) % 2 ^ 32 = d.vaddr + 4096 * i :=
          Nat.mod_eq_of_lt (by omega)
        have hnext : (4096 * i + pmmFrameSize) % 2 ^ 32 = 4096 * (i + 1) := by
          unfold pmmFrameSize
          rw [Nat.mod_eq_of_lt (by omega)]
          omega
        rw [hcons, List.reverse_cons, List.append_assoc, List.singleton_append] at hsuffix ⊢
        obtain ⟨hne, t, n', hmap, hroom', hn', E', sp', loose', hloaded⟩ :=
          h.next_page_total hroom (by omega) (by omega) (by omega)
            ((List.suffix_append _ _).trans hsuffix) dir
        obtain ⟨u, n'', hrun, hroom'', hn'', hdone⟩ :=
          ih (i + 1) _ _ t sp' loose' n' hloaded hroom' (by omega) (by omega) hsuffix
        refine ⟨u, n'', ?_, hroom'', by omega, hdone⟩
        rw [if_pos hi, bind_of_ok hload', hva, hnext, bind_of_ok (allocFrame_eq hne), if_neg hne,
          bind_of_ok hmap]
        exact hrun
      · rw [if_neg hi, d.pagesFrom_done (show d.pageCount ≤ i by omega)]
        exact ⟨s, n, rfl, hroom, by omega, E, sp, loose, h⟩

/-! ## Bytes -/

/-- A load between two pages: since `base` only memory was written. -/
structure Filling (l : Load) (ps : List ℕ) (sp : Space) (loose : ℕ → Prop) (base s : Machine) :
    Prop where
  loaded : Loaded l ps (fun _ => none) s sp loose
  same : s = { base with mem := s.mem }
  clean : Clean base.trace

variable {base : Machine}

theorem Loaded.filling (h : Loaded l ps E s sp loose) (hclean : Clean s.trace) :
    Filling l ps sp loose s s :=
  ⟨h.weaken (fun _ _ hb => by cases hb), rfl, hclean⟩

theorem Filling.trace_eq (h : Filling l ps sp loose base s) : s.trace = base.trace := by
  rw [h.same]

theorem Filling.roomy (h : Filling l ps sp loose base s) (hroom : Roomy base g n) : Roomy s g n := by
  refine ⟨?_, hroom.pos, hroom.behind, ?_⟩
  · rw [h.same]
    exact hroom.linear
  · rw [h.trace_eq]
    exact h.clean

/-- The pages mapped so far can be written. -/
theorem Filling.translate (h : Filling l ps sp loose base s) {va : ℕ} (hp : va / 4096 ∈ ps)
    (hlow : 2 ^ 22 ≤ va) (hhigh : va < 1022 * 2 ^ 22) : ∃ pa, s.translate va = some pa := by
  have hwhole := h.loaded.whole.resolve_right fun hshort =>
    h.clean.served (h.trace_eq ▸ hshort.2)
  obtain ⟨f, hf⟩ := hwhole.mapped (va / 4096) hp
  have hdiv : va / 4096 / 1024 = va / 2 ^ 22 := by omega
  rw [hdiv] at hf
  rw [h.loaded.translate_user hlow hhigh, hf]
  exact ⟨_, rfl⟩

/-- What a store to such a page leaves. -/
theorem Filling.stored (h : Filling l ps sp loose base s) {c : Kernel Unit} {t : Machine}
    {E : ℕ → Option UInt8} (hc : c s = .ok () t) (hsame : t = { s with mem := t.mem })
    (hloads : Loads l c s fun _ t => Loaded l ps E t sp loose) : Filling l ps sp loose base t := by
  have hsame' : t = { base with mem := t.mem } := by
    rw [h.same] at hsame
    exact hsame
  rcases hloads.ok hc with hstray | hloaded
  · refine absurd hstray (Clean.not_strays ?_)
    rw [hsame']
    exact h.clean
  · exact ⟨hloaded.weaken (fun _ _ hb => by cases hb), hsame', h.clean⟩

theorem Filling.store8 (h : Filling l ps sp loose base s) {va : ℕ} (hp : va / 4096 ∈ ps)
    (hlow : 2 ^ 22 ≤ va) (hhigh : va < 1022 * 2 ^ 22) (b : UInt8) :
    ∃ t, MyOS.store8 va b s = .ok () t ∧ Filling l ps sp loose base t := by
  obtain ⟨pa, hpa⟩ := h.translate hp hlow hhigh
  exact ⟨_, store8_eq b hpa, h.stored (store8_eq b hpa) rfl (h.loaded.store8 hlow hhigh b)⟩

theorem Filling.store32 (h : Filling l ps sp loose base s) {va : ℕ} (hp : va / 4096 ∈ ps)
    (hlow : 2 ^ 22 ≤ va) (hhigh : va < 1022 * 2 ^ 22) (haligned : va % 4 = 0) (v : ℕ) :
    ∃ t, MyOS.store32 va v s = .ok () t ∧ Filling l ps sp loose base t := by
  obtain ⟨pa, hpa⟩ := h.translate hp hlow hhigh
  exact ⟨_, store32_eq v hpa,
    h.stored (store32_eq v hpa) rfl (h.loaded.store32 hlow hhigh haligned v)⟩

theorem Filling.forRange (h : Filling l ps sp loose base s) (k : ℕ) (body : ℕ → Kernel Unit)
    (hbody : ∀ i t, i < k → Filling l ps sp loose base t →
      ∃ u, body i t = .ok () u ∧ Filling l ps sp loose base u) :
    ∃ t, Effect.forRange k body s = .ok () t ∧ Filling l ps sp loose base t :=
  forRange_total (fun _ t => Filling l ps sp loose base t) hbody h

/-! ## Segments -/

/-- A segment that begins at a page, whose bytes in the file are in the heap. -/
structure PlainSegment (l : Load) (buf : ℕ) (d : Phdr) : Prop where
  aligned : d.vaddr % 4096 = 0
  filesz_le : d.filesz ≤ d.memsz
  source : ∀ i < d.filesz, l.layout.InHeap (buf + d.offset + i)

theorem Phdr.page_mem {d : Phdr} (haligned : d.vaddr % 4096 = 0) {i : ℕ} (hi : i < d.memsz) :
    (d.vaddr + i) / 4096 ∈ d.pages := by
  refine List.mem_map.mpr ⟨i / 4096, ?_, by omega⟩
  rw [List.mem_range'_1]
  unfold Phdr.pageCount
  omega

theorem Phdr.pages_length (d : Phdr) : d.pages.length = d.pageCount := by
  simp [Phdr.pages, Phdr.pagesFrom]

theorem Filling.fillSegment (h : Filling l ps sp loose base s) {limit phdr buf : ℕ}
    (hphdr : HeaderInHeap l phdr) (hin : (phdrAt l.image phdr).Inside limit)
    (hlimit : limit ≤ 1022 * 2 ^ 22) (hplain : PlainSegment l buf (phdrAt l.image phdr))
    (hpages : (phdrAt l.image phdr).pages ⊆ ps) :
    ∃ t, MyOS.fillSegment buf phdr s = .ok () t ∧ Filling l ps sp loose base t := by
  obtain ⟨d, hd⟩ : ∃ d, d = phdrAt l.image phdr := ⟨_, rfl⟩
  have hmemsz : l.image.get32 (phdr + phdrMemsz) = d.memsz := by rw [hd]; rfl
  have hvaddr : l.image.get32 (phdr + phdrVaddr) = d.vaddr := by rw [hd]; rfl
  have hfilesz : l.image.get32 (phdr + phdrFilesz) = d.filesz := by rw [hd]; rfl
  have hoffset : l.image.get32 (phdr + phdrOffset) = d.offset := by rw [hd]; rfl
  rw [← hd] at hin hplain hpages
  have hlow := hin.low
  have hhigh := hin.high
  have hle := hplain.filesz_le
  have htarget : ∀ i < d.memsz, (d.vaddr + i) / 4096 ∈ ps := fun i hi =>
    hpages (Phdr.page_mem hplain.aligned hi)
  have hfield : ∀ {u off}, Filling l ps sp loose base u → off + 3 < sizeofPhdr →
      load32 (phdr + off) u = .ok (l.image.get32 (phdr + off)) u := fun hu hoff =>
    hu.loaded.load_header hphdr hoff
  obtain ⟨t, hcopy, ht⟩ := h.forRange d.filesz
    (fun i => do
      let b ← load8 (buf + d.offset + i)
      MyOS.store8 (d.vaddr + i) b) (by
    intro i u hi hu
    obtain ⟨w, hstore, hw⟩ := hu.store8 (htarget i (by omega)) (by omega) (by omega)
      (l.image (buf + d.offset + i))
    refine ⟨w, ?_, hw⟩
    rw [bind_of_ok (hu.loaded.load8_heap (hplain.source i hi))]
    exact hstore)
  have hcopy : memcpy d.vaddr (buf + d.offset) d.filesz s = .ok () t := hcopy
  unfold MyOS.fillSegment
  rw [bind_of_ok (hfield h (by decide)), bind_of_ok (hfield h (by decide)),
    bind_of_ok (hfield h (by decide)), hvaddr, hoffset, hfilesz, bind_of_ok hcopy]
  unfold MyOS.clearBss
  rw [bind_of_ok (hfield ht (by decide)), bind_of_ok (hfield ht (by decide)), hmemsz, hfilesz]
  by_cases hmore : d.memsz > d.filesz
  · rw [if_pos hmore, bind_of_ok (hfield ht (by decide)), hvaddr]
    refine ht.forRange (d.memsz - d.filesz) _ ?_
    intro i u hi hu
    have hp := htarget (d.filesz + i) (by omega)
    rw [← Nat.add_assoc] at hp
    exact hu.store8 hp (by omega) (by omega) 0
  · rw [if_neg hmore]
    exact ⟨t, rfl, ht⟩

/-- One header of the image. -/
theorem Loaded.loadSegment_total {limit phdr buf : ℕ} (h : Loaded l ps E s sp loose)
    (hroom : Roomy s l.layout n) (hphdr : HeaderInHeap l phdr)
    (hin : (phdrAt l.image phdr).Inside limit) (hlimit : limit ≤ 1022 * 2 ^ 22)
    (htype : (phdrAt l.image phdr).type = ptLoad)
    (hn : n + 2 * (phdrAt l.image phdr).pageCount ≤ windowPage)
    (hsuffix : (phdrAt l.image phdr).pages.reverse ++ ps <:+ l.pages)
    (hplain : PlainSegment l buf (phdrAt l.image phdr)) (dir : ℕ) :
    ∃ t n', MyOS.loadSegment dir buf phdr s = .ok true t ∧ Roomy t l.layout n' ∧
      n' ≤ n + 2 * (phdrAt l.image phdr).pageCount ∧
      ∃ E' sp' loose', Loaded l ((phdrAt l.image phdr).pages.reverse ++ ps) E' t sp' loose' := by
  have hload := h.load_header hphdr (show phdrType + 3 < sizeofPhdr by decide)
  have htype' : l.image.get32 (phdr + phdrType) = ptLoad := htype
  have hfuel : (phdrAt l.image phdr).pageCount - 0 < s.pmm.pmmBitmapSize * 8 + 1 := by
    have hcap : s.pmm.pmmBitmapSize / 4 * 32 = 4096 := h.space.capacity
    unfold windowPage at hn
    omega
  obtain ⟨t, n', hmap, hroom', hn', E', sp', loose', hloaded⟩ :=
    Loaded.mapSegmentPages_total hphdr hin hlimit _ 0 ps E s sp loose n h hroom
      (by omega) hfuel hsuffix
  obtain ⟨u, hfill, hu⟩ := (hloaded.filling hroom'.clean).fillSegment hphdr hin hlimit hplain
    fun p hp => List.mem_append_left _ (List.mem_reverse.mpr hp)
  refine ⟨u, n', ?_, hu.roomy hroom', hn', _, sp', loose', hu.loaded⟩
  unfold MyOS.loadSegment
  rw [bind_of_ok hload, if_pos htype', bind_of_ok (get_apply s)]
  refine (bind_of_ok hmap).trans ?_
  rw [if_pos rfl, bind_of_ok hfill]
  rfl

/-- An image of plain segments is loaded while there is room. -/
theorem Loaded.loadSegments_total {limit buf : ℕ} (himage : ImageInHeap l buf limit)
    (hlimit : limit ≤ 1022 * 2 ^ 22)
    (hplain : ∀ d ∈ segmentsOf l.image buf, PlainSegment l buf d) (dir fuel : ℕ) :
    ∀ i k ps E s sp loose n, Loaded l ps E s sp loose → Roomy s l.layout n →
      i + k = phnum l.image buf → k < fuel →
      n + 2 * (pagesOf (loadable l.image buf i k)).length ≤ windowPage →
      (pagesOf (loadable l.image buf i k)).reverse ++ ps <:+ l.pages →
      ∃ t n', MyOS.loadSegments dir buf (buf + l.image.get32 (buf + ehdrPhoff)) fuel i s =
          .ok true t ∧ Roomy t l.layout n' ∧
        n' ≤ n + 2 * (pagesOf (loadable l.image buf i k)).length ∧
        ∃ E' sp' loose', Loaded l ((pagesOf (loadable l.image buf i k)).reverse ++ ps) E' t
          sp' loose' := by
  induction fuel with
  | zero =>
      intro i k ps E s sp loose n _ _ _ hk
      omega
  | succ fuel ih =>
      intro i k ps E s sp loose n h hroom hphnum hk hn hsuffix
      have hfirst := himage.first.1
      have hlast := himage.last.2
      have hin : l.layout.InHeap (buf + ehdrPhnum) :=
        ⟨by unfold ehdrPhnum; omega, by unfold ehdrPhnum; omega⟩
      have hload := h.load16_heap hin ⟨by unfold ehdrPhnum; omega, by unfold ehdrPhnum; omega⟩
      have hcount : l.image.get16 (buf + ehdrPhnum) = i + k := hphnum.symm
      rw [hcount] at hload
      unfold MyOS.loadSegments
      rw [bind_of_ok hload]
      cases k with
      | zero =>
          rw [if_neg (by omega)]
          exact ⟨s, n, rfl, hroom, by omega, E, sp, loose, h⟩
      | succ k =>
          have hi : i < phnum l.image buf := by omega
          have hphdr := himage.headers i hi
          have haddr : buf + l.image.get32 (buf + ehdrPhoff) + sizeofPhdr * i =
              phdrAddr l.image buf i := rfl
          rw [if_pos (by omega), haddr]
          by_cases htype : (phdrAt l.image (phdrAddr l.image buf i)).type = ptLoad
          · have hmem := mem_segmentsOf hi htype
            rw [loadable_cons_load htype] at hn hsuffix ⊢
            rw [pagesOf, List.flatMap_cons, List.length_append, Phdr.pages_length] at hn ⊢
            rw [pagesOf, List.flatMap_cons] at hsuffix
            rw [List.reverse_append, List.append_assoc] at hsuffix ⊢
            obtain ⟨t, n', hseg, hroom', hn', E', sp', loose', hloaded⟩ :=
              h.loadSegment_total hroom hphdr (himage.inside _ hmem) hlimit htype (by omega)
                ((List.suffix_append _ _).trans hsuffix) (hplain _ hmem) dir
            obtain ⟨u, n'', hrun, hroom'', hn'', hdone⟩ :=
              ih (i + 1) k _ _ t sp' loose' n' hloaded hroom' (by omega) (by omega)
                (by unfold pagesOf; omega) hsuffix
            unfold pagesOf at hn''
            refine ⟨u, n'', ?_, hroom'', by omega, hdone⟩
            rw [bind_of_ok hseg, if_pos rfl]
            exact hrun
          · rw [loadable_cons_skip htype] at hn hsuffix ⊢
            obtain ⟨u, n'', hrun, hdone⟩ :=
              ih (i + 1) k ps E s sp loose n h hroom (by omega) (by omega) hn hsuffix
            refine ⟨u, n'', ?_, hdone⟩
            rw [bind_of_ok (h.loadSegment_skip hphdr htype dir buf), if_pos rfl]
            exact hrun

/-! ## The arguments -/

/-- The stack pages are mapped. -/
theorem Filling.pushStrings (h : Filling l ps sp loose base s) (hstack : stackPages ⊆ ps)
    (argv : List (List UInt8)) (hfits : stringBytes argv ≤ 0x4000) :
    ∃ t, MyOS.pushStrings argv userStackTop s =
        .ok (userStackTop - stringBytes argv, stringAddrs argv) t ∧
      Filling l ps sp loose base t := by
  have htop : userStackTop = 0xC0000000 := rfl
  induction argv with
  | nil => exact ⟨s, rfl, h⟩
  | cons str rest ih =>
      have hcons := stringBytes_cons str rest
      obtain ⟨t, hrest, ht⟩ := ih (by omega)
      have hdest : (userStackTop - stringBytes rest + 2 ^ 32 - (str.length + 1)) % 2 ^ 32 =
          userStackTop - stringBytes (str :: rest) := by
        rw [hcons]
        omega
      obtain ⟨u, hcopy, hu⟩ := ht.forRange (str.length + 1)
        (fun i => MyOS.store8 (userStackTop - stringBytes (str :: rest) + i) (str.getD i 0))
        fun i u hi hu => hu.store8 (hstack (mem_stackPages.mpr (by omega))) (by omega) (by omega) _
      have hcopy : pushString (userStackTop - stringBytes (str :: rest)) str t = .ok () u := hcopy
      refine ⟨u, ?_, hu⟩
      rw [MyOS.pushStrings, bind_of_ok hrest]
      simp only [hdest]
      rw [bind_of_ok hcopy]
      rfl

theorem Filling.setupArguments (h : Filling l ps sp loose base s) (hstack : stackPages ⊆ ps)
    {argv : List (List UInt8)} (hfits : ArgsFit argv) :
    ∃ r t, MyOS.setupArguments argv s = .ok r t ∧ Filling l ps sp loose base t := by
  obtain ⟨hlow, haligned, hhigh, hstrings⟩ := hfits.bounds
  have htop : userStackTop = 0xC0000000 := rfl
  have harray : ((userStackTop - stringBytes argv) / 4 * 4 + 2 ^ 32 - 4 * (argv.length + 1)) %
      2 ^ 32 = argvArray argv := by
    unfold argvArray at hlow hhigh ⊢
    omega
  have hslot : (argvArray argv + 2 ^ 32 - 4) % 2 ^ 32 = argvArray argv - 4 := by omega
  have hargc : (argvArray argv - 4 + 2 ^ 32 - 4) % 2 ^ 32 = argvArray argv - 8 := by omega
  have hword : ∀ {u va}, Filling l ps sp loose base u → 0xBFFFC000 ≤ va → va < userStackTop →
      va % 4 = 0 → ∀ v, ∃ w, MyOS.store32 va v u = .ok () w ∧ Filling l ps sp loose base w :=
    fun hu hlow hhigh haligned v =>
      hu.store32 (hstack (mem_stackPages.mpr (by omega))) (by omega) (by omega) haligned v
  obtain ⟨t, hpush, ht⟩ := h.pushStrings hstack argv hstrings
  obtain ⟨t₁, hloop, ht₁⟩ := ht.forRange argv.length
    (fun i => MyOS.store32 (argvArray argv + 4 * i) ((stringAddrs argv).getD i 0))
    fun i u hi hu => hword hu (by omega) (by omega) (by omega) _
  obtain ⟨t₂, hnull, ht₂⟩ := hword ht₁
    (show 0xBFFFC000 ≤ argvArray argv + 4 * argv.length by omega) (by omega) (by omega) 0
  obtain ⟨t₃, hptr, ht₃⟩ := hword ht₂ (show 0xBFFFC000 ≤ argvArray argv - 4 by omega) (by omega)
    (by omega) (argvArray argv)
  obtain ⟨t₄, hcount, ht₄⟩ := hword ht₃ (show 0xBFFFC000 ≤ argvArray argv - 8 by omega) (by omega)
    (by omega) argv.length
  refine ⟨argvArray argv - 8, t₄, ?_, ht₄⟩
  unfold MyOS.setupArguments
  rw [bind_of_ok hpush]
  simp only [harray, hslot, hargc]
  rw [bind_of_ok hloop, bind_of_ok hnull, bind_of_ok hptr, bind_of_ok hcount]
  rfl

/-! ## The task -/

variable {v : HeapView} {pid : ℕ}

theorem KernelHeap.load32_view (h : KernelHeap s g v) {va : ℕ} (hva : g.InHeap va)
    (hva' : g.InHeap (va + 3)) : load32 va s = .ok (s.view.get32 va) s := by
  refine load32_bytes ?_
  intro k hk
  have hin : g.InHeap (va + k) := ⟨by have := hva.1; omega, by have := hva'.2; omega⟩
  have htranslate := h.space.translate_phys (.inl h.cr3) (h.space.inHeap_lt hin)
  rw [h.view_heap hin]
  exact load8_eq htranslate

/-- The slot is taken, a kernel stack is found, and the file's block goes back to the heap. -/
theorem KernelHeap.installTask_total (h : KernelHeap s g v) (hroom : Roomy s g n)
    (hn : n < windowPage) (hslot : findFreeSlot s.processTable = some pid) {a size : ℕ}
    (ha : (a, size) ∈ v.live) (hin : g.InHeap (a + 8 + 51)) (filename : List UInt8)
    (newDir userStackPtr : ℕ) :
    ∃ s', MyOS.installTask filename (a + 8) newDir userStackPtr s = .ok (some pid) s' ∧
      s'.trace = s.trace ∧ s'.StackReached (s'.processTable pid).kernelStack := by
  obtain ⟨hframe, hne, -⟩ := hroom.alloc hn
  obtain ⟨k, hk, -⟩ := h.heap.heap.fits _ ha
  obtain ⟨⟨hlow, -⟩, -⟩ := h.heap.block_bounds hk
  have hhigh := hin.2
  have htaken : KernelHeap { s with pmm := (pmmAllocFrame s.pmm).2 }
      (g.take (pmmAllocFrame s.pmm).1) v :=
    ⟨h.space.alloc hne s.trace,
      HeapInvariant.of_layout (h.heap.of_kept rfl rfl rfl fun _ _ => rfl) rfl rfl rfl, h.cr3⟩
  have hentry : g.InHeap (a + 8 + ehdrEntry) ∧ g.InHeap (a + 8 + ehdrEntry + 3) := by
    unfold ehdrEntry
    exact ⟨⟨by omega, by omega⟩, ⟨by omega, by omega⟩⟩
  obtain ⟨entry, hread⟩ : ∃ entry, load32 (a + 8 + ehdrEntry)
      { s with pmm := (pmmAllocFrame s.pmm).2 } =
        .ok entry { s with pmm := (pmmAllocFrame s.pmm).2 } :=
    ⟨_, htaken.load32_view hentry.1 hentry.2⟩
  obtain ⟨task, htask⟩ : ∃ task, task = newTask pid filename (pmmAllocFrame s.pmm).1 newDir entry
      userStackPtr (s.processTable pid).wakeupTime := ⟨_, rfl⟩
  have hinstalled : KernelHeap { s with
      pmm := (pmmAllocFrame s.pmm).2
      processTable := Function.update s.processTable pid task }
      (g.take (pmmAllocFrame s.pmm).1) v := htaken.same rfl rfl rfl rfl rfl rfl rfl rfl
  obtain ⟨m, hfree, -, hfreed, -⟩ :=
    hinstalled.heap.free_spec hinstalled.space (.inl hinstalled.cr3) ha
  rw [htask] at hfree
  refine ⟨{ s with
    pmm := (pmmAllocFrame s.pmm).2
    processTable := Function.update s.processTable pid task
    mem := m
    freeListHead := a }, ?_, rfl, ?_⟩
  · unfold MyOS.installTask
    rw [bind_of_ok (get_apply s), hslot]
    change (allocFrame >>= _) s = _
    rw [bind_of_ok (allocFrame_eq hne), bind_of_ok hread, bind_of_ok (modify_apply _ _),
      bind_of_ok hfree, htask]
    rfl
  · have hstack : task.kernelStack = n * 4096 := by
      rw [htask]
      exact hframe
    simp only [Function.update_self, hstack]
    exact hfreed.stack_behind hroom.behind hn

/-- With room for a directory and the window's table a clone succeeds. -/
theorem KernelHeap.clone_total (h : KernelHeap s g v) (hroom : Roomy s g n)
    (hn : n + 2 ≤ windowPage) (htemp : g.temp = none) {i : ℕ} (hi : g.space i = none) (src : ℕ) :
    ∃ t d c, pagingCloneDirectory src s = .ok d c ∧ (d = n * 4096 ∧ d ≠ 0) ∧
      (∃ m p tr, c = { s with mem := m, pmm := p, trace := tr }) ∧
      KernelSpace c (g.cloned t i d) ∧ HeapKept g s.mem c.mem ∧
      Roomy c (g.cloned t i d) (n + 2) := by
  obtain ⟨hframe, hne, hroom₁⟩ := hroom.alloc (by omega)
  obtain ⟨htable, htable0, hroom₂⟩ := hroom₁.alloc (by omega)
  rw [htable] at htable0
  have hreach := h.space.translate_behind (.inl h.cr3) hroom₁.behind (by omega)
  obtain ⟨m, hclone, hspace, hkept⟩ :=
    h.space.clone_reached h.cr3 htemp hi hne htable htable0 hreach src
  refine ⟨(n + 1) * 4096, _, _, hclone, ⟨hframe, hne⟩, ⟨m, _, _, rfl⟩, hspace, hkept, ?_⟩
  refine ⟨hroom₂.linear, hroom₂.pos, hroom₂.behind, ?_, ?_⟩
  · intro hmem
    rcases List.mem_cons.mp hmem with hmem | hmem
    · cases hmem
    · exact hroom.clean.served hmem
  · intro f r hmem
    rcases List.mem_cons.mp hmem with hmem | hmem
    · cases hmem
      rfl
    · exact hroom.clean.reached f r hmem

/-! ## The whole program -/

/-- An image whose segments begin at a page and have their bytes in the file. -/
structure PlainImage (m : ByteMemory) (buf size : ℕ) : Prop extends ProgramImage m buf size where
  aligned : ∀ d ∈ segmentsOf m buf, d.vaddr % 4096 = 0
  bytes : ∀ d ∈ segmentsOf m buf, d.filesz ≤ d.memsz ∧ d.offset + d.filesz ≤ size

/-- A load of plain segments gets through: its pages, the stack's and the arguments. -/
theorem Loaded.program_total {limit buf : ℕ} (h : Loaded l [] (fun _ => none) s sp loose)
    (hroom : Roomy s l.layout n) (himage : ImageInHeap l buf limit) (hlimit : limit ≤ 1022 * 2 ^ 22)
    (hplain : ∀ d ∈ segmentsOf l.image buf, PlainSegment l buf d)
    (hpages : l.pages = stackPages.reverse ++ (pagesOf (segmentsOf l.image buf)).reverse)
    (hn : n + 8 + 2 * (pagesOf (segmentsOf l.image buf)).length ≤ windowPage)
    {argv : List (List UInt8)} (hfit : ArgsFit argv) (dir : ℕ) :
    ∃ t stacked r ready n', MyOS.loadSegments dir buf (buf + l.image.get32 (buf + ehdrPhoff))
        (2 ^ 16) 0 s = .ok true t ∧ MyOS.mapStackPages dir userStackPages 0 t = .ok true stacked ∧
      MyOS.setupArguments argv stacked = .ok r ready ∧ Roomy ready l.layout n' ∧
      n' ≤ n + 8 + 2 * (pagesOf (segmentsOf l.image buf)).length ∧
      ∃ sp' loose', Loaded l l.pages (fun _ => none) ready sp' loose' := by
  have hphnum : phnum l.image buf < 2 ^ 16 := get16_lt _ _
  have hsuffix : (pagesOf (segmentsOf l.image buf)).reverse ++ [] <:+ l.pages := by
    rw [hpages, List.append_nil]
    exact List.suffix_append _ _
  obtain ⟨t, n₁, hload, hroom₁, hn₁, E₁, sp₁, loose₁, hloaded⟩ :=
    Loaded.loadSegments_total himage hlimit hplain dir (2 ^ 16) 0 (phnum l.image buf) [] _ s sp
      loose n h hroom (by omega) hphnum (by unfold segmentsOf at hn; omega) hsuffix
  change n₁ ≤ n + 2 * (pagesOf (segmentsOf l.image buf)).length at hn₁
  change Loaded l ((pagesOf (segmentsOf l.image buf)).reverse ++ []) E₁ t sp₁ loose₁ at hloaded
  have hstackPages : userStackPages = 4 := rfl
  have hsuffix' : (stackPagesFrom 0 userStackPages).reverse ++
      ((pagesOf (segmentsOf l.image buf)).reverse ++ []) <:+ l.pages := by
    rw [hpages, List.append_nil]
    exact List.suffix_rfl
  obtain ⟨stacked, n₂, hmap, hroom₂, hn₂, E₂, sp₂, loose₂, hstacked⟩ :=
    Loaded.mapStackPages_total dir userStackPages 0 _ _ t sp₁ loose₁ n₁ hloaded hroom₁ (by omega)
      (by omega) hsuffix'
  obtain ⟨r, ready, hargs, hready⟩ := (hstacked.filling hroom₂.clean).setupArguments
    (fun p hp => List.mem_append_left _ (List.mem_reverse.mpr hp)) hfit
  refine ⟨t, stacked, r, ready, n₂, hload, hmap, hargs, hready.roomy hroom₂, by omega, sp₂, loose₂,
    ?_⟩
  have hready := hready.loaded
  rw [List.append_nil] at hready
  rw [hpages]
  exact hready

/-- A plain image is started when the kernel has room: eleven frames are enough, and two more for
each of its pages. -/
theorem KernelHeap.loadProgram_total (h : KernelHeap s g v) (hroom : Roomy s g n)
    (htemp : g.temp = none) (hslot : findFreeSlot s.processTable = some pid)
    (hspace : g.space pid = none) {a size : ℕ} (ha : (a, size) ∈ v.live)
    (himage : PlainImage s.view (a + 8) size)
    (hn : n + 11 + 2 * (pagesOf (segmentsOf s.view (a + 8))).length ≤ windowPage)
    (filename : List UInt8) {argv : List (List UInt8)} (hfit : ArgsFit argv) (src : ℕ) :
    ∃ d c s', pagingCloneDirectory src s = .ok d c ∧ d ≠ 0 ∧
      loadProgram filename argv (a + 8) d c = .ok (some pid) s' ∧ Clean s'.trace ∧
      s'.StackReached (s'.processTable pid).kernelStack := by
  obtain ⟨t, d, c, hclone, ⟨-, hd⟩, ⟨m, p, tr, hmachine⟩, hcspace, hkept, hroomc⟩ :=
    h.clone_total hroom (by omega) htemp hspace src
  obtain ⟨x, hx⟩ : ∃ x : Execution, x = ⟨filename, s, a + 8, c, d, 0, s, s, s, 0⟩ := ⟨_, rfl⟩
  obtain ⟨l, hl⟩ : ∃ l, l = x.load (g.cloned t pid d) pid := ⟨_, rfl⟩
  obtain ⟨hinHeap, hsegments, -⟩ := h.image (x := x) (by rw [hx]) (by rw [hx]) ha (t := t) (d := d)
    (i := pid) (by rw [hx]; exact hkept) (by rw [hx]; exact himage.toProgramImage)
  rw [← hl, hx] at hinHeap hsegments
  have hstart : l.start = { c with cr3 := d } := by rw [hl, hx]; rfl
  have hlayout : l.layout = g.cloned t pid d := by rw [hl]; rfl
  have hsegments : segmentsOf l.image (a + 8) = segmentsOf s.view (a + 8) := hsegments
  have hbegin : Loaded l [] (fun _ => none) { c with cr3 := d } (emptySpace d) l.layout.loose := by
    rw [← hstart]
    refine Loaded.start ?_ ?_ ?_
    · rw [hstart, hlayout]
      exact hcspace.same rfl rfl rfl rfl
    · rw [hl]
      exact Function.update_self _ _ _
    · rw [hstart]
  have hroom₁ : Roomy { c with cr3 := d } l.layout (n + 2) := by
    rw [hlayout]
    exact ⟨hroomc.linear, hroomc.pos, hroomc.behind, hroomc.clean⟩
  have hplain : ∀ e ∈ segmentsOf l.image (a + 8), PlainSegment l (a + 8) e := by
    intro e he
    rw [hsegments] at he
    obtain ⟨hle, hfile⟩ := himage.bytes e he
    refine ⟨himage.aligned e he, hle, ?_⟩
    intro i hi
    have hin := (h.heap.live_bounds ha (show e.offset + i < size by omega)).1
    rw [hlayout, Nat.add_assoc]
    exact hin
  obtain ⟨loaded, stacked, r, ready, n', hload, hmap, hargs, hroom', hn', sp', loose', hready⟩ :=
    hbegin.program_total hroom₁ hinHeap (by decide) hplain (by rw [hsegments, hl, hx]; rfl)
      (by rw [hsegments]; omega) hfit d
  rw [hsegments] at hn'
  have hphoff : load32 (a + 8 + ehdrPhoff) { c with cr3 := d } =
      .ok (l.image.get32 (a + 8 + ehdrPhoff)) { c with cr3 := d } := by
    have hfirst := hinHeap.first.1
    have hlast := hinHeap.last.2
    simp only at hfirst hlast
    refine hbegin.load32_heap ⟨?_, ?_⟩ ⟨?_, ?_⟩
    all_goals
      unfold ehdrPhoff
      omega
  have hleft := h.left hmachine hkept hstart hlayout hready.toMapping
  have htable : ready.processTable = s.processTable := by
    rw [hready.state, hstart, hmachine]
  have hheader := himage.header
  obtain ⟨s', hinstall, htrace, hstack⟩ := hleft.installTask_total (n := n')
    ⟨hroom'.linear, hroom'.pos, hroom'.behind, hroom'.clean⟩ (by omega)
    (show findFreeSlot ready.processTable = some pid by rw [htable]; exact hslot) ha
    hinHeap.last filename d r
  refine ⟨d, c, s', hclone, hd, ?_, ?_, hstack⟩
  · unfold loadProgram
    rw [bind_of_ok (get_apply c), bind_of_ok (show pagingSwitchDirectory d c = _ from rfl),
      bind_of_ok hphoff, bind_of_ok hload, if_pos rfl, bind_of_ok hmap,
      if_pos rfl, bind_of_ok hargs, bind_of_ok (show pagingSwitchDirectory c.cr3 ready = _ from rfl)]
    exact hinstall
  · rw [htrace]
    exact hroom'.clean

end MyOS
