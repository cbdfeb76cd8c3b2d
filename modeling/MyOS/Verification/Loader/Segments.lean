import MyOS.Verification.Loader.Bytes

/-! The segments of an ELF image: pages for each of them, then its bytes from the file and the
zeros behind these. -/

namespace MyOS

open Effect X86Paging ByteMemory PageTables Ownership

/-! ## Program headers -/

/-- `Elf32_Phdr`, as far as the loader looks at it. -/
structure Phdr where
  type : ℕ
  offset : ℕ
  vaddr : ℕ
  filesz : ℕ
  memsz : ℕ
  deriving DecidableEq, Repr

def phdrAt (m : ByteMemory) (addr : ℕ) : Phdr :=
  ⟨m.get32 (addr + phdrType), m.get32 (addr + phdrOffset), m.get32 (addr + phdrVaddr),
    m.get32 (addr + phdrFilesz), m.get32 (addr + phdrMemsz)⟩

/-- Where the header `i` of the image at `buf` lies. -/
def phdrAddr (m : ByteMemory) (buf i : ℕ) : ℕ := buf + m.get32 (buf + ehdrPhoff) + sizeofPhdr * i

def phnum (m : ByteMemory) (buf : ℕ) : ℕ := m.get16 (buf + ehdrPhnum)

/-- The segments to be loaded among `n` headers from `i` on. -/
def loadable (m : ByteMemory) (buf i n : ℕ) : List Phdr :=
  ((List.range' i n).map fun k => phdrAt m (phdrAddr m buf k)).filter (·.type = ptLoad)

/-- The segments of the image at `buf`. -/
def segmentsOf (m : ByteMemory) (buf : ℕ) : List Phdr := loadable m buf 0 (phnum m buf)

def Phdr.pageCount (d : Phdr) : ℕ := (d.memsz + 4095) / 4096

/-- The pages the loader maps for a segment from its page `i` on. A segment that does not start
at a page may reach into one more. -/
def Phdr.pagesFrom (d : Phdr) (i : ℕ) : List ℕ :=
  (List.range' i (d.pageCount - i)).map fun k => (d.vaddr + 4096 * k) / 4096

def Phdr.pages (d : Phdr) : List ℕ := d.pagesFrom 0

/-- The segment lies between 4 MiB and `limit`. -/
structure Phdr.Inside (limit : ℕ) (d : Phdr) : Prop where
  low : 2 ^ 22 ≤ d.vaddr
  high : d.vaddr + d.memsz ≤ limit

theorem Phdr.pagesFrom_cons {d : Phdr} {i : ℕ} (h : i < d.pageCount) :
    d.pagesFrom i = (d.vaddr + 4096 * i) / 4096 :: d.pagesFrom (i + 1) := by
  have hsub : d.pageCount - i = (d.pageCount - (i + 1)) + 1 := by omega
  unfold Phdr.pagesFrom
  rw [hsub, List.range'_succ, List.map_cons]

theorem Phdr.pagesFrom_done {d : Phdr} {i : ℕ} (h : d.pageCount ≤ i) : d.pagesFrom i = [] := by
  unfold Phdr.pagesFrom
  rw [Nat.sub_eq_zero_of_le h]
  rfl

variable {l : Load} {s t : Machine} {ps : List ℕ} {E : ℕ → Option UInt8} {sp : Space}
  {loose : ℕ → Prop}

/-! ## Pages -/

/-- There were too few frames, and one request got `NULL`. -/
def Short (l : Load) (s : Machine) : Prop :=
  l.start.freeFrames < frameCost l.pages ∧ .allocFailed ∈ s.trace

/-- Nothing is known any more about the bytes of these pages. -/
def forget (E : ℕ → Option UInt8) (pages : List ℕ) : ℕ → Option UInt8 :=
  fun va => if va / 4096 ∈ pages then none else E va

theorem forget_nil (E : ℕ → Option UInt8) : forget E [] = E := by
  funext va
  simp [forget]

theorem forget_forget (E : ℕ → Option UInt8) (p : ℕ) (pages : List ℕ) :
    forget (forget E [p]) pages = forget E (p :: pages) := by
  funext va
  unfold forget
  by_cases hp : va / 4096 = p
  · simp [hp]
  · by_cases hin : va / 4096 ∈ pages
    · simp [hin]
    · simp [hp, hin]

/-- A frame is missing for the next page. -/
theorem Loaded.short (h : Loaded l ps E s sp loose) (hnull : (pmmAllocFrame s.pmm).1 = 0) {p : ℕ}
    (hp : p :: ps <:+ l.pages) {t : Machine} (ht : .allocFailed ∈ t.trace) : Short l t := by
  have hcost := frameCost_suffix hp
  have hnext : frameCost ps < frameCost (p :: ps) := by
    by_cases hmem : ∃ q ∈ ps, q / 1024 = p / 1024
    · rw [frameCost_cons_mem hmem]
      omega
    · rw [frameCost_cons_notMem hmem]
      omega
  have hzero : s.freeFrames = 0 := h.space.freeFrameCount_null hnull
  refine ⟨?_, ht⟩
  rcases h.whole with hwhole | ⟨hshort, -⟩
  · have hfree := hwhole.free
    omega
  · omega

/-- One round of the page loops: a frame for the next page, which is mapped, and then the rest. -/
theorem Loaded.next_page (h : Loaded l ps E s sp loose) {va : ℕ} (hlow : 1 ≤ va / 2 ^ 22)
    (hhigh : va / 2 ^ 22 < 1022) (hp : va / 4096 :: ps <:+ l.pages) (dir : ℕ)
    {rest : Kernel Bool} {Q : Bool → Machine → Prop}
    (hgrows : Leads (fun s t : Machine => s.trace <:+ t.trace) rest)
    (hshort : ∀ t, Short l t → Q false t)
    (hrest : ∀ t sp' loose', Loaded l (va / 4096 :: ps) (forget E [va / 4096]) t sp' loose' →
      Loads l rest t Q) :
    Loads l (do
      let physFrame ← allocFrame
      if physFrame = 0 then
        return false
      else
        pagingMapPage dir va physFrame userPageFlags
        rest) s Q := by
  by_cases hnull : (pmmAllocFrame s.pmm).1 = 0
  · refine loads_of_ok (bind_of_ok (allocFrame_null hnull)) ?_
    exact hshort _ (h.short hnull hp List.mem_cons_self)
  · have hforget : (fun x => if x / 4096 = va / 4096 then none else E x) =
        forget E [va / 4096] := by
      funext x
      simp [forget]
    have hmap := h.map_page hnull hlow hhigh hp dir
    rw [hforget] at hmap
    unfold Loads
    rw [bind_of_ok (allocFrame_eq hnull), if_neg hnull]
    refine hmap.bind (fun _ => hgrows) ?_
    intro _ t ht
    obtain ⟨sp', loose', hloaded⟩ := ht
    exact hrest t sp' loose' hloaded

/-- The header at `phdr` lies in the heap. -/
structure HeaderInHeap (l : Load) (phdr : ℕ) : Prop where
  first : l.layout.InHeap phdr
  last : l.layout.InHeap (phdr + 31)

theorem Mapping.load_header (h : Mapping l ps E s sp loose) {phdr : ℕ}
    (hphdr : HeaderInHeap l phdr) {off : ℕ} (hoff : off + 3 < sizeofPhdr) :
    load32 (phdr + off) s = .ok (l.image.get32 (phdr + off)) s := by
  have hfirst := hphdr.first.1
  have hlast := hphdr.last.2
  unfold sizeofPhdr at hoff
  exact h.load32_heap ⟨by omega, by omega⟩ ⟨by omega, by omega⟩

/-- The page loop of one segment. Each round takes a frame, so the fuel lasts. -/
theorem Loaded.mapSegmentPages {limit phdr dir : ℕ} (hphdr : HeaderInHeap l phdr)
    (hin : (phdrAt l.image phdr).Inside limit) (hlimit : limit ≤ 1022 * 2 ^ 22) (fuel : ℕ) :
    ∀ i ps E s sp loose, Loaded l ps E s sp loose →
      ((phdrAt l.image phdr).pagesFrom i).reverse ++ ps <:+ l.pages →
      Loads l (MyOS.mapSegmentPages dir phdr fuel (4096 * i)) s fun ok t =>
        if ok then ∃ sp' loose', Loaded l (((phdrAt l.image phdr).pagesFrom i).reverse ++ ps)
          (forget E ((phdrAt l.image phdr).pagesFrom i)) t sp' loose'
        else Short l t := by
  obtain ⟨d, hd⟩ : ∃ d, d = phdrAt l.image phdr := ⟨_, rfl⟩
  have hmemsz : l.image.get32 (phdr + phdrMemsz) = d.memsz := by rw [hd]; rfl
  have hvaddr : l.image.get32 (phdr + phdrVaddr) = d.vaddr := by rw [hd]; rfl
  rw [← hd] at hin ⊢
  have hlow := hin.low
  have hhigh := hin.high
  induction fuel with
  | zero =>
      intro i ps E s sp loose h _
      exact loads_of_error rfl (h.halted rfl)
  | succ fuel ih =>
      intro i ps E s sp loose h hsuffix
      have hload := h.load_header hphdr (show phdrMemsz + 3 < sizeofPhdr by decide)
      have hload' := h.load_header hphdr (show phdrVaddr + 3 < sizeofPhdr by decide)
      rw [hmemsz] at hload
      rw [hvaddr] at hload'
      unfold MyOS.mapSegmentPages Loads
      rw [bind_of_ok hload]
      by_cases hi : 4096 * i < d.memsz
      · have hcons := d.pagesFrom_cons (show i < d.pageCount by unfold Phdr.pageCount; omega)
        have hva : (d.vaddr + 4096 * i) % 2 ^ 32 = d.vaddr + 4096 * i :=
          Nat.mod_eq_of_lt (by omega)
        have hnext : (4096 * i + pmmFrameSize) % 2 ^ 32 = 4096 * (i + 1) := by
          unfold pmmFrameSize
          rw [Nat.mod_eq_of_lt (by omega)]
          omega
        rw [hcons, List.reverse_cons, List.append_assoc, List.singleton_append] at hsuffix ⊢
        rw [if_pos hi, bind_of_ok hload', hva, hnext]
        refine h.next_page (by omega) (by omega) ?_ dir (processBlind_trace.mapSegmentPages _ _ _ _)
          ?_ ?_
        · exact (List.suffix_append _ _).trans hsuffix
        · intro t ht
          exact ht
        · intro t sp' loose' ht
          rw [← forget_forget]
          exact ih (i + 1) _ _ t sp' loose' ht hsuffix
      · rw [if_neg hi]
        rw [d.pagesFrom_done (show d.pageCount ≤ i by unfold Phdr.pageCount; omega), forget_nil]
        exact loads_of_ok rfl ⟨sp, loose, h⟩

/-! ## Bytes -/

/-- The bytes known after a segment of the image at `buf` was loaded. -/
def Load.fill (l : Load) (buf : ℕ) (E : ℕ → Option UInt8) (d : Phdr) : ℕ → Option UInt8 :=
  overlay (overlay (forget E d.pages) d.vaddr d.filesz fun i => l.byteAt (buf + d.offset + i))
    (d.vaddr + d.filesz) (d.memsz - d.filesz) fun _ => some 0

theorem Loaded.clearBss {limit phdr : ℕ} (h : Loaded l ps E s sp loose)
    (hphdr : HeaderInHeap l phdr) (hin : (phdrAt l.image phdr).Inside limit)
    (hlimit : limit ≤ 1022 * 2 ^ 22) :
    Loads l (MyOS.clearBss phdr) s fun _ t => Loaded l ps
      (overlay E ((phdrAt l.image phdr).vaddr + (phdrAt l.image phdr).filesz)
        ((phdrAt l.image phdr).memsz - (phdrAt l.image phdr).filesz) fun _ => some 0) t sp loose := by
  obtain ⟨d, hd⟩ : ∃ d, d = phdrAt l.image phdr := ⟨_, rfl⟩
  have hmemsz : l.image.get32 (phdr + phdrMemsz) = d.memsz := by rw [hd]; rfl
  have hvaddr : l.image.get32 (phdr + phdrVaddr) = d.vaddr := by rw [hd]; rfl
  have hfilesz : l.image.get32 (phdr + phdrFilesz) = d.filesz := by rw [hd]; rfl
  rw [← hd] at hin ⊢
  have hlow := hin.low
  have hhigh := hin.high
  have hload := h.load_header hphdr (show phdrMemsz + 3 < sizeofPhdr by decide)
  have hload' := h.load_header hphdr (show phdrFilesz + 3 < sizeofPhdr by decide)
  rw [hmemsz] at hload
  rw [hfilesz] at hload'
  unfold MyOS.clearBss Loads
  rw [bind_of_ok hload, bind_of_ok hload']
  by_cases hmore : d.memsz > d.filesz
  · have hload'' := h.load_header hphdr (show phdrVaddr + 3 < sizeofPhdr by decide)
    rw [hvaddr] at hload''
    rw [if_pos hmore, bind_of_ok hload'']
    exact h.memset (by omega) (by omega) 0 _
  · rw [if_neg hmore, Nat.sub_eq_zero_of_le (by omega), overlay_zero]
    exact loads_of_ok rfl h

theorem Loaded.fillSegment {limit phdr : ℕ} (h : Loaded l ps E s sp loose)
    (hphdr : HeaderInHeap l phdr) (hin : (phdrAt l.image phdr).Inside limit)
    (hlimit : limit ≤ 1022 * 2 ^ 22) (buf : ℕ) :
    Loads l (MyOS.fillSegment buf phdr) s fun _ t => Loaded l ps
      (overlay (overlay E (phdrAt l.image phdr).vaddr (phdrAt l.image phdr).filesz fun i =>
          l.byteAt (buf + (phdrAt l.image phdr).offset + i))
        ((phdrAt l.image phdr).vaddr + (phdrAt l.image phdr).filesz)
        ((phdrAt l.image phdr).memsz - (phdrAt l.image phdr).filesz) fun _ => some 0) t sp loose := by
  have hlow := hin.low
  have hhigh := hin.high
  have hload := h.load_header hphdr (show phdrVaddr + 3 < sizeofPhdr by decide)
  have hload' := h.load_header hphdr (show phdrOffset + 3 < sizeofPhdr by decide)
  have hload'' := h.load_header hphdr (show phdrFilesz + 3 < sizeofPhdr by decide)
  unfold MyOS.fillSegment Loads
  rw [bind_of_ok hload, bind_of_ok hload', bind_of_ok hload'']
  have hcopy := h.memcpy hlow (by omega)
    (buf + (phdrAt l.image phdr).offset) (phdrAt l.image phdr).filesz
  refine Loads.bind hcopy (fun _ => processBlind_trace.clearBss _) ?_
  intro _ t ht
  exact ht.clearBss hphdr hin hlimit

/-- One header of the image. -/
theorem Loaded.loadSegment {limit phdr : ℕ} (h : Loaded l ps E s sp loose)
    (hphdr : HeaderInHeap l phdr) (hin : (phdrAt l.image phdr).Inside limit)
    (hlimit : limit ≤ 1022 * 2 ^ 22) (htype : (phdrAt l.image phdr).type = ptLoad)
    (hsuffix : (phdrAt l.image phdr).pages.reverse ++ ps <:+ l.pages) (dir buf : ℕ) :
    Loads l (MyOS.loadSegment dir buf phdr) s fun ok t =>
      if ok then ∃ sp' loose', Loaded l ((phdrAt l.image phdr).pages.reverse ++ ps)
        (l.fill buf E (phdrAt l.image phdr)) t sp' loose'
      else Short l t := by
  have hload := h.load_header hphdr (show phdrType + 3 < sizeofPhdr by decide)
  have htype' : l.image.get32 (phdr + phdrType) = ptLoad := htype
  unfold MyOS.loadSegment Loads
  rw [bind_of_ok hload, if_pos htype', bind_of_ok (get_apply s)]
  refine (Loaded.mapSegmentPages hphdr hin hlimit _ 0 ps E s sp loose h hsuffix).bind ?_ ?_
  · intro ok
    refine leads_ite ?_ (processBlind_trace.pure _)
    exact processBlind_trace.bind (processBlind_trace.fillSegment _ _)
      fun _ => processBlind_trace.pure _
  · intro ok t ht
    cases ok with
    | false => exact loads_of_ok rfl ht
    | true =>
        obtain ⟨sp', loose', ht⟩ := ht
        refine (ht.fillSegment hphdr hin hlimit buf).bind (fun _ => processBlind_trace.pure _) ?_
        intro _ u hu
        exact loads_of_ok rfl ⟨sp', loose', hu⟩

theorem Loaded.loadSegment_skip {phdr : ℕ} (h : Loaded l ps E s sp loose)
    (hphdr : HeaderInHeap l phdr) (htype : (phdrAt l.image phdr).type ≠ ptLoad) (dir buf : ℕ) :
    MyOS.loadSegment dir buf phdr s = .ok true s := by
  have hload := h.load_header hphdr (show phdrType + 3 < sizeofPhdr by decide)
  have htype' : ¬l.image.get32 (phdr + phdrType) = ptLoad := htype
  unfold MyOS.loadSegment
  rw [bind_of_ok hload, if_neg htype']
  rfl

/-! ## The whole image -/

/-- The file's header and its program headers lie in the heap, and all segments to be loaded
between 4 MiB and `limit`. -/
structure ImageInHeap (l : Load) (buf limit : ℕ) : Prop where
  first : l.layout.InHeap buf
  last : l.layout.InHeap (buf + 51)
  headers : ∀ i < phnum l.image buf, HeaderInHeap l (phdrAddr l.image buf i)
  inside : ∀ d ∈ segmentsOf l.image buf, d.Inside limit

/-- Pages of segments, in the order in which they are mapped. -/
def pagesOf (ds : List Phdr) : List ℕ := ds.flatMap Phdr.pages

theorem loadable_cons_load {m : ByteMemory} {buf i n : ℕ}
    (h : (phdrAt m (phdrAddr m buf i)).type = ptLoad) :
    loadable m buf i (n + 1) = phdrAt m (phdrAddr m buf i) :: loadable m buf (i + 1) n := by
  unfold loadable
  rw [List.range'_succ, List.map_cons, List.filter_cons_of_pos (by simpa using h)]

theorem loadable_cons_skip {m : ByteMemory} {buf i n : ℕ}
    (h : (phdrAt m (phdrAddr m buf i)).type ≠ ptLoad) :
    loadable m buf i (n + 1) = loadable m buf (i + 1) n := by
  unfold loadable
  rw [List.range'_succ, List.map_cons, List.filter_cons_of_neg (by simpa using h)]

theorem mem_segmentsOf {m : ByteMemory} {buf i : ℕ} (hi : i < phnum m buf)
    (htype : (phdrAt m (phdrAddr m buf i)).type = ptLoad) :
    phdrAt m (phdrAddr m buf i) ∈ segmentsOf m buf := by
  refine List.mem_filter.mpr ⟨List.mem_map.mpr ⟨i, ?_, rfl⟩, by simpa using htype⟩
  exact List.mem_range'_1.mpr ⟨by omega, by omega⟩

theorem Loaded.loadSegments {limit buf : ℕ} (himage : ImageInHeap l buf limit)
    (hlimit : limit ≤ 1022 * 2 ^ 22) (dir fuel : ℕ) :
    ∀ i n ps E s sp loose, Loaded l ps E s sp loose → i + n = phnum l.image buf → n < fuel →
      (pagesOf (loadable l.image buf i n)).reverse ++ ps <:+ l.pages →
      Loads l (MyOS.loadSegments dir buf (buf + l.image.get32 (buf + ehdrPhoff)) fuel i) s
        fun ok t => if ok then ∃ sp' loose', Loaded l
            ((pagesOf (loadable l.image buf i n)).reverse ++ ps)
            ((loadable l.image buf i n).foldl (l.fill buf) E) t sp' loose'
          else Short l t := by
  induction fuel with
  | zero =>
      intro i n ps E s sp loose _ _ hn
      omega
  | succ fuel ih =>
      intro i n ps E s sp loose h hphnum hn hsuffix
      have hfirst := himage.first.1
      have hlast := himage.last.2
      have hin : l.layout.InHeap (buf + ehdrPhnum) :=
        ⟨by unfold ehdrPhnum; omega, by unfold ehdrPhnum; omega⟩
      have hload := h.load16_heap hin ⟨by unfold ehdrPhnum; omega, by unfold ehdrPhnum; omega⟩
      have hcount : l.image.get16 (buf + ehdrPhnum) = i + n := hphnum.symm
      rw [hcount] at hload
      unfold MyOS.loadSegments Loads
      rw [bind_of_ok hload]
      cases n with
      | zero =>
          rw [if_neg (by omega)]
          exact loads_of_ok rfl ⟨sp, loose, h⟩
      | succ n =>
          have hi : i < phnum l.image buf := by omega
          have hphdr := himage.headers i hi
          have haddr : buf + l.image.get32 (buf + ehdrPhoff) + sizeofPhdr * i =
              phdrAddr l.image buf i := rfl
          rw [if_pos (by omega), haddr]
          have hgrows : ∀ ok, Leads (fun s t : Machine => s.trace <:+ t.trace)
              (if ok = true then MyOS.loadSegments dir buf
                (buf + l.image.get32 (buf + ehdrPhoff)) fuel (i + 1) else return false) := by
            intro ok
            exact leads_ite (processBlind_trace.loadSegments _ _ _ _ _) (processBlind_trace.pure _)
          by_cases htype : (phdrAt l.image (phdrAddr l.image buf i)).type = ptLoad
          · rw [loadable_cons_load htype] at hsuffix ⊢
            rw [pagesOf, List.flatMap_cons, List.reverse_append, List.append_assoc] at hsuffix ⊢
            have hseg := h.loadSegment hphdr (himage.inside _ (mem_segmentsOf hi htype)) hlimit htype
              ((List.suffix_append _ _).trans hsuffix) dir buf
            refine hseg.bind hgrows ?_
            intro ok t ht
            cases ok with
            | false => exact loads_of_ok rfl ht
            | true =>
                obtain ⟨sp', loose', ht⟩ := ht
                exact ih (i + 1) n _ _ t sp' loose' ht (by omega) (by omega) hsuffix
          · rw [loadable_cons_skip htype] at hsuffix ⊢
            rw [bind_of_ok (h.loadSegment_skip hphdr htype dir buf)]
            exact ih (i + 1) n _ _ s sp loose h (by omega) (by omega) hsuffix

end MyOS
