import MyOS.Verification.Fs.FsState
import MyOS.Verification.Loader.Open
import MyOS.Verification.Loader.Stages
import MyOS.Verification.Memory.Clone

/-! A call to `exec_program` that returns a pid: the file is read, a directory is cloned, the
segments and the stack are loaded into it, and the new task gets its slot. -/

namespace MyOS

open Effect X86Paging ByteMemory PageTables Ownership BlockHeap

variable {s s' : Machine} {g : Layout} {v : HeapView} {argv : List (List UInt8)} {pid : ℕ}

/-! ## The new directory -/

/-- The layout after a directory was cloned for slot `i`; the window's table is `t`. -/
def Layout.cloned (g : Layout) (t i d : ℕ) : Layout := { g with temp := some t }.newSpace i d

theorem pagingCloneDirectory_alloc {src d : ℕ} (hrun : pagingCloneDirectory src s = .ok d s')
    (hd : d ≠ 0) : (pmmAllocFrame s.pmm).1 ≠ 0 := by
  intro hnull
  unfold pagingCloneDirectory at hrun
  rw [bind_of_ok (allocFrame_null hnull), if_pos rfl] at hrun
  cases hrun
  exact hd rfl

/-- A clone in which no frame was missing and the window's table, if it was new, was zeroed in
its frame. -/
theorem KernelHeap.clone (h : KernelHeap s g v) {i : ℕ} (hi : g.space i = none) {src d : ℕ}
    (hrun : pagingCloneDirectory src s = .ok d s') (hd : d ≠ 0) (hclean : Clean s'.trace) :
    ∃ t, (g.temp = none ∨ g.temp = some t) ∧
      (∃ m p tr, s' = { s with mem := m, pmm := p, trace := tr }) ∧
      KernelSpace s' (g.cloned t i d) ∧ HeapKept g s.mem s'.mem := by
  have hne := pagingCloneDirectory_alloc hrun hd
  cases ht : g.temp with
  | some t =>
      obtain ⟨m, hclone, hspace, hkept⟩ := h.space.clone_temp h.cr3 ht hi hne src
      rw [hclone] at hrun
      cases hrun
      have hsame : g.cloned t i (pmmAllocFrame s.pmm).1 = g.newSpace i (pmmAllocFrame s.pmm).1 := by
        unfold Layout.cloned
        rw [← ht]
      refine ⟨t, .inr rfl, ⟨m, _, s.trace, rfl⟩, ?_, hkept⟩
      rw [hsame]
      exact hspace
  | none =>
      obtain ⟨f, pa, -, -, -, hevent, hspec⟩ := h.space.clone_new h.cr3 ht hi hne hrun
      have hpa : pa = f := Option.some.inj (hclean.reached f _ hevent)
      obtain ⟨-, ⟨m, hs'⟩, hspace, hkept⟩ := hspec hpa
      exact ⟨f, .inl rfl, ⟨m, _, _, hs'⟩, hspace, hkept⟩

/-! ## The load -/

/-- The load of the image in `x` into slot `i`. -/
def Execution.load (x : Execution) (g : Layout) (i : ℕ) : Load where
  start := x.entered
  layout := g
  slot := i
  pages := stackPages.reverse ++ (pagesOf (segmentsOf x.opened.view x.buf)).reverse

def emptySpace (d : ℕ) : Space := ⟨d, fun _ => none, fun _ _ => none⟩

theorem Loaded.start {l : Load} {d : ℕ} (hspace : KernelSpace l.start l.layout)
    (hslot : l.layout.space l.slot = some (emptySpace d)) (hcr3 : l.start.cr3 = d) :
    Loaded l [] (fun _ => none) l.start (emptySpace d) l.layout.loose := by
  have hsame : l.layout.withSpace l.slot (emptySpace d) l.layout.loose = l.layout := by
    unfold Layout.withSpace
    rw [← hslot, Function.update_eq_self]
  refine ⟨⟨?_, rfl, hcr3.symm, List.nil_suffix, ?_, ?_, fun _ hf => hf, fun _ _ => rfl, ?_⟩,
    .inl ⟨?_, ?_, rfl, fun _ => rfl⟩⟩
  · rw [hsame]
    exact hspace
  · intro k f hf
    cases hf
  · intro k j f hf
    cases hf
  · intro va b hb
    cases hb
  · intro p hp
    cases hp
  · rfl

/-- The bytes known of the program when its image, its stack and its arguments are in place. -/
def Load.bytes (l : Load) (buf : ℕ) (argv : List (List UInt8)) : ℕ → Option UInt8 :=
  withArguments (forget ((segmentsOf l.image buf).foldl (l.fill buf) fun _ => none) stackPages) argv

/-- When the arguments are on the stack, all pages are mapped and their bytes known, unless a new
table went astray. -/
theorem Execution.Runs.ready_loaded {x : Execution} (hx : x.Runs argv s pid s') {i d : ℕ}
    (hspace : KernelSpace x.entered g) (hslot : g.space i = some (emptySpace d))
    (hdir : x.newDir = d) (himage : ImageInHeap (x.load g i) x.buf 0xBFFFC000)
    (hsame : segmentsOf (x.load g i).image x.buf = segmentsOf x.opened.view x.buf)
    (hargs : ArgsFit argv) :
    Strays (x.load g i) x.ready ∨ x.userStackPtr = argsPtr argv ∧
      ∃ sp loose, Loaded (x.load g i) (x.load g i).pages ((x.load g i).bytes x.buf argv) x.ready
        sp loose := by
  obtain ⟨l, hl⟩ : ∃ l, l = x.load g i := ⟨_, rfl⟩
  rw [← hl] at himage hsame ⊢
  have hstart : l.start = x.entered := by rw [hl]; rfl
  have hpages : l.pages = stackPages.reverse ++
      ((pagesOf (segmentsOf l.image x.buf)).reverse ++ []) := by
    rw [hsame, List.append_nil, hl]
    rfl
  have hbegin : Loaded l [] (fun _ => none) x.entered (emptySpace d) l.layout.loose := by
    rw [← hstart]
    refine Loaded.start ?_ ?_ ?_
    · rw [hstart, hl]
      exact hspace
    · rw [hl]
      exact hslot
    · rw [hstart]
      exact hdir
  have hphoff : x.phoff = l.image.get32 (x.buf + ehdrPhoff) := by
    have hread := hbegin.load32_heap (show l.layout.InHeap (x.buf + ehdrPhoff) from ?_) ?_
    · rw [hx.header] at hread
      exact (EStateM.Result.ok.inj hread).1
    · have h1 := himage.first.1
      have h2 := himage.last.2
      exact ⟨by omega, by unfold ehdrPhoff; omega⟩
    · have h1 := himage.first.1
      have h2 := himage.last.2
      exact ⟨by omega, by unfold ehdrPhoff; omega⟩
  obtain ⟨-, -, -, htrace, htrace', -⟩ := hx.traces
  have hloads := hx.loads
  rw [hphoff] at hloads
  have hphnum : phnum l.image x.buf < 2 ^ 16 := get16_lt _ _
  have hsegments := (Loaded.loadSegments himage (by decide) x.newDir (2 ^ 16) 0
    (phnum l.image x.buf) [] _ _ _ _ hbegin (by omega) hphnum
    ⟨stackPages.reverse, hpages.symm⟩).ok hloads
  rcases hsegments with hstray | hsegments
  · exact .inl (hstray.mono (htrace.trans htrace'))
  · obtain ⟨sp, loose, hloaded⟩ := hsegments
    have hstack := (Loaded.mapStackPages x.newDir userStackPages 0 _ _ _ _ _ hloaded
      (by omega) ⟨[], hpages.symm⟩).ok hx.stack_maps
    rcases hstack with hstray | hstack
    · exact .inl (hstray.mono htrace')
    · obtain ⟨sp', loose', hstacked⟩ := hstack
      have hready := (hstacked.setupArguments hargs).ok hx.arguments
      rcases hready with hstray | ⟨hptr, hready⟩
      · exact .inl hstray
      · refine .inr ⟨hptr, sp', loose', ?_⟩
        rw [hpages]
        exact hready

/-! ## The new task -/

theorem HeapInvariant.of_layout {g' : Layout} (hh : HeapInvariant s g v)
    (hpage : g'.heapPage = g.heapPage) (hheap : g'.heap = g.heap)
    (hwindows : g'.windows = g.windows) : HeapInvariant s g' v := by
  have hword : s.word g' = s.word g := by
    funext va
    unfold Machine.word Layout.phys Layout.lowFrame Layout.fixedFrame
    rw [hpage, hheap, hwindows]
  refine ⟨?_, hh.top_le, ?_⟩
  · rw [hpage, hheap]
    exact hh.end_eq
  · rw [hword, hpage]
    exact hh.heap

theorem installTask_some {filename : List UInt8} {buf newDir userStackPtr : ℕ}
    (h : installTask filename buf newDir userStackPtr s = .ok (some pid) s') :
    findFreeSlot s.processTable = some pid ∧ ∃ kernelStack t entry wakeupTime,
      allocFrame s = .ok kernelStack t ∧ load32 (buf + ehdrEntry) t = .ok entry t ∧
      free buf { t with
          processTable := Function.update t.processTable pid
            (newTask pid filename kernelStack newDir entry userStackPtr wakeupTime) } =
        .ok () s' := by
  unfold installTask at h
  rw [bind_of_ok (get_apply s)] at h
  cases hslot : findFreeSlot s.processTable with
  | none =>
      rw [hslot] at h
      obtain ⟨_, _, -, h⟩ := bind_eq_ok.mp h
      obtain ⟨_, _, -, h⟩ := bind_eq_ok.mp h
      cases h
  | some newPid =>
      rw [hslot] at h
      obtain ⟨kernelStack, t, halloc, h⟩ := bind_eq_ok.mp h
      obtain ⟨entry, t', hentry, hrest⟩ := bind_eq_ok.mp h
      obtain rfl := load32_state hentry
      obtain ⟨_, u, hmodify, hfinish⟩ := bind_eq_ok.mp hrest
      obtain ⟨_, w, hfree, hreturn⟩ := bind_eq_ok.mp hfinish
      cases hmodify
      cases hreturn
      exact ⟨rfl, kernelStack, t', entry, _, halloc, hentry, hfree⟩

/-- The new task gets a kernel stack, and the file's block goes back to the heap. -/
theorem KernelHeap.installTask (h : KernelHeap s g v) {filename : List UInt8}
    {a n newDir userStackPtr : ℕ} (ha : (a, n) ∈ v.live)
    (hrun : installTask filename (a + 8) newDir userStackPtr s = .ok (some pid) s')
    (hclean : Clean s'.trace) (hstack : g.stack pid = none) :
    ∃ kernelStack entry wakeupTime,
      KernelHeap s' { g with stack := Function.update g.stack pid (some kernelStack) }
        (v.release a n) ∧
      s'.processTable = Function.update s.processTable pid
        (newTask pid filename kernelStack newDir entry userStackPtr wakeupTime) := by
  obtain ⟨-, kernelStack, t, entry, wakeupTime, halloc, -, hfree⟩ := installTask_some hrun
  have htrace := (processBlind_trace.free (a + 8)).ok hfree
  have hne : (pmmAllocFrame s.pmm).1 ≠ 0 := by
    intro hnull
    rw [allocFrame_null hnull] at halloc
    cases halloc
    exact hclean.served (htrace.subset List.mem_cons_self)
  rw [allocFrame_eq hne] at halloc
  cases halloc
  have hlayout : (g.take (pmmAllocFrame s.pmm).1).giveStack pid (pmmAllocFrame s.pmm).1 =
      { g with stack := Function.update g.stack pid (some (pmmAllocFrame s.pmm).1) } := by
    unfold Layout.giveStack
    rw [drop_take (h.space.not_loose hne)]
    rfl
  have hgiven := (h.space.alloc hne s.trace).giveStack (.inl rfl) hstack
  rw [hlayout] at hgiven
  have hbefore : KernelHeap
      { s with
        pmm := (pmmAllocFrame s.pmm).2
        processTable := Function.update s.processTable pid
          (newTask pid filename (pmmAllocFrame s.pmm).1 newDir entry userStackPtr wakeupTime) }
      { g with stack := Function.update g.stack pid (some (pmmAllocFrame s.pmm).1) } v := by
    refine ⟨hgiven.same rfl rfl rfl rfl, ?_, h.cr3⟩
    refine HeapInvariant.of_layout (g := g) ?_ rfl rfl rfl
    exact h.heap.of_kept rfl rfl rfl fun _ _ => rfl
  obtain ⟨m, hfree', -, hspace, hheap⟩ := hbefore.heap.free_spec hbefore.space (.inl h.cr3) ha
  rw [hfree'] at hfree
  cases hfree
  exact ⟨_, entry, wakeupTime, ⟨hspace, hheap, h.cr3⟩, rfl⟩

theorem Execution.load_pages_lt {x : Execution} {i : ℕ}
    (hinside : ∀ d ∈ segmentsOf x.opened.view x.buf, d.Inside 0xBFFFC000) {p : ℕ}
    (hp : p ∈ (x.load g i).pages) : p < 0xC0000 := by
  rcases List.mem_append.mp hp with hp | hp
  · rw [List.mem_reverse] at hp
    exact (mem_stackPages.mp hp).2
  · rw [List.mem_reverse] at hp
    obtain ⟨d, hd, hpd⟩ := List.mem_flatMap.mp hp
    obtain ⟨a, -, ha, hap⟩ := Phdr.mem_pages hpd
    have hhigh := (hinside d hd).high
    omega

/-! ## The whole call -/

theorem KernelHeap.view_heap (h : KernelHeap s g v) {va : ℕ} (hva : g.InHeap va) :
    s.view va = s.mem (g.phys va) := by
  unfold Machine.view
  rw [h.space.translate_phys (.inl h.cr3) (h.space.inHeap_lt hva)]
  rfl

theorem KernelHeap.opened (h : KernelHeap s g v) {x : Execution} (hx : x.Runs argv s pid s')
    {Q : ByteMemory → ℕ → ℕ → Prop} (hfile : ReadsFile Q argv s)
    (hQ : ∀ m buf size, Q m buf size → ProgramImage m buf size) (hclean : Clean x.opened.trace) :
    ∃ frames v' a size, KernelHeap x.opened (g.extend frames) v' ∧ x.buf = a + 8 ∧
      (a, size) ∈ v'.live ∧ Q x.opened.view x.buf size := by
  obtain ⟨rest, hargv⟩ := hx.argv_eq
  obtain ⟨entry, hfind, hread, hbuf⟩ := openProgram_some hx.opens
  obtain ⟨size, hsize⟩ := fsReadFile_size hread
  have hfile' := hfile _ _ _ _ _ _ hargv hfind hsize hread hbuf
  have himage := hQ _ _ _ hfile'
  obtain ⟨frames, v', a, hopened, hbuf', hlive⟩ :=
    h.fsReadFile hsize himage.size_le hclean hread hbuf
  refine ⟨frames, v', a, size, hopened, hbuf', ?_, hfile'⟩
  have hheader := himage.header
  unfold requestSize at hlive
  rw [if_neg (by omega)] at hlive
  rw [hlive]
  exact List.mem_cons_self

theorem KernelHeap.image (h : KernelHeap s g v) {x : Execution} (hx : x.opened = s) {a size : ℕ}
    (hbuf : x.buf = a + 8) (hlive : (a, size) ∈ v.live) {t d i : ℕ}
    (hkept : HeapKept g x.opened.mem x.cloned.mem)
    (himage : ProgramImage x.opened.view x.buf size) :
    ImageInHeap (x.load (g.cloned t i d) i) x.buf 0xBFFFC000 ∧
      segmentsOf (x.load (g.cloned t i d) i).image x.buf = segmentsOf x.opened.view x.buf ∧
      ∀ k < size, (x.load (g.cloned t i d) i).byteAt (x.buf + k) =
        some (x.opened.view (x.buf + k)) := by
  subst hx
  obtain ⟨l, hl⟩ : ∃ l, l = x.load (g.cloned t i d) i := ⟨_, rfl⟩
  rw [← hl]
  have hin : ∀ k < size, g.InHeap (x.buf + k) := by
    intro k hk
    rw [hbuf]
    exact (h.heap.live_bounds hlive hk).1
  have hbytes : ∀ k < size, l.image (x.buf + k) = x.opened.view (x.buf + k) := by
    intro k hk
    rw [h.view_heap (hin k hk), ← hkept _ (hin k hk), hl]
    rfl
  obtain ⟨himage', hsegments, -, -⟩ := himage.congr hbytes
  have hlayout : ∀ va, g.InHeap va → l.layout.InHeap va := by
    intro va hva
    rw [hl]
    exact hva
  have hheader := himage'.header
  have htable := himage'.table
  refine ⟨⟨hlayout _ (hin 0 (by omega)), hlayout _ (hin 51 (by omega)), ?_, himage'.inside⟩,
    hsegments, ?_⟩
  · intro k hk
    unfold phdrAddr
    unfold sizeofPhdr at htable ⊢
    rw [Nat.add_assoc]
    refine ⟨hlayout _ (hin _ (by omega)), ?_⟩
    rw [Nat.add_assoc]
    exact hlayout _ (hin _ (by omega))
  · intro k hk
    have hk' := hlayout _ (hin k hk)
    exact (if_pos hk').trans (congrArg some (hbytes k hk))

theorem Clean.not_strays {l : Load} (h : Clean s.trace) : ¬Strays l s := by
  rintro ⟨f, pa, hevent, hne, -⟩
  exact hne (Option.some.inj (h.reached f _ hevent))

/-- The load of a call into slot `i`, when the heap has `frames` more and the window's table is
`t`. -/
def Execution.loadIn (x : Execution) (g : Layout) (frames : List ℕ) (t i : ℕ) : Load :=
  x.load ((g.extend frames).cloned t i x.newDir) i

/-- What holds of a call that returns a pid when the caller's directory is active again. -/
structure Execution.Ready (x : Execution) (l : Load) (sp : Space)
    (loose : ℕ → Prop) (v : HeapView) (argv : List (List UInt8)) (a size : ℕ) : Prop where
  buf : x.buf = a + 8
  live : (a, size) ∈ v.live
  userStackPtr : x.userStackPtr = argsPtr argv
  dir : sp.dir = x.newDir
  stack : ∀ p ∈ stackPages, p ∈ l.pages
  loaded : Loaded l l.pages (l.bytes x.buf argv) x.ready sp loose
  whole : Whole l l.pages x.ready sp loose
  left : KernelHeap x.left (l.layout.withSpace l.slot sp loose) v

/-- The kernel's heap is as it was when the directory of the caller is active again. -/
theorem KernelHeap.left (h : KernelHeap s g v) {c : Machine} {m : ByteMemory} {p : Pmm}
    {tr : List Event} (hc : c = { s with mem := m, pmm := p, trace := tr })
    (hkept : HeapKept g s.mem c.mem) {l : Load} {d t i : ℕ} (hstart : l.start = { c with cr3 := d })
    (hlayout : l.layout = g.cloned t i d) {u : Machine} {ps : List ℕ} {E : ℕ → Option UInt8}
    {sp : Space} {loose : ℕ → Prop} (hu : Mapping l ps E u sp loose) :
    KernelHeap { u with cr3 := c.cr3 } (l.layout.withSpace l.slot sp loose) v := by
  have hstate := hu.state
  rw [hstart, hc] at hstate
  have hstartMem : l.start.mem = c.mem := by rw [hstart]
  have hheap : HeapInvariant { u with cr3 := c.cr3 } g v := by
    refine h.heap.of_kept ?_ ?_ ?_ ?_
    · change u.heapTop = s.heapTop
      rw [hstate]
    · change u.heapEnd = s.heapEnd
      rw [hstate]
    · change u.freeListHead = s.freeListHead
      rw [hstate]
    · have hpages := hu.heap
      rw [hlayout, hstartMem] at hpages
      exact hkept.trans (hpages.of_layout rfl rfl)
  refine ⟨hu.space.same rfl rfl rfl rfl, HeapInvariant.of_layout hheap ?_ ?_ ?_, ?_⟩
  · rw [hlayout]
    rfl
  · rw [hlayout]
    rfl
  · rw [hlayout]
    rfl
  · rw [hlayout, hc]
    exact h.cr3

/-- The load works on the image that `exec_program` has read into the buffer. -/
structure Execution.LoadsImage (x : Execution) (l : Load) (size : ℕ) : Prop where
  segments : segmentsOf l.image x.buf = segmentsOf x.opened.view x.buf
  bytes : ∀ k < size, l.byteAt (x.buf + k) = some (x.opened.view (x.buf + k))

/-- The file is read, a directory is cloned, and the program is loaded into it. -/
theorem KernelHeap.ready_image (h : KernelHeap s g v) {x : Execution} (hx : x.Runs argv s pid s')
    (hclean : Clean s'.trace) (hspace : g.space pid = none) {Q : ByteMemory → ℕ → ℕ → Prop}
    (hfile : ReadsFile Q argv s) (hQ : ∀ m buf size, Q m buf size → ProgramImage m buf size)
    (hargs : ArgsFit argv) :
    ∃ frames t sp loose v' a size, (g.temp = none ∨ g.temp = some t) ∧
      Q x.opened.view x.buf size ∧
      x.Ready (x.loadIn g frames t pid) sp loose v' argv a size ∧
      x.LoadsImage (x.loadIn g frames t pid) size := by
  obtain ⟨-, htrace₁, htrace₂, htrace₃, htrace₄, htrace₅⟩ := hx.traces
  have hready := hclean.of_suffix htrace₅
  have hcloned := hready.of_suffix (htrace₂.trans (htrace₃.trans htrace₄))
  obtain ⟨frames, v', a, size, hopened, hbuf, hlive, hfile⟩ :=
    h.opened hx hfile hQ (hcloned.of_suffix htrace₁)
  obtain ⟨t, htemp, ⟨m, p, tr, hmachine⟩, hcspace, hkept⟩ :=
    hopened.clone (i := pid) hspace hx.clones hx.newDir_ne hcloned
  obtain ⟨himage, hsegments, hbytes⟩ := hopened.image rfl hbuf hlive (t := t) (d := x.newDir)
    (i := pid) hkept (hQ _ _ _ hfile)
  have hslot : ((g.extend frames).cloned t pid x.newDir).space pid =
      some (emptySpace x.newDir) := Function.update_self _ _ _
  rcases hx.ready_loaded (hcspace.same rfl rfl rfl rfl) hslot rfl himage hsegments hargs with
    hstray | ⟨hptr, sp, loose, hloaded⟩
  · exact absurd hstray hready.not_strays
  · exact ⟨frames, t, sp, loose, v', a, size, htemp, hfile, ⟨hbuf, hlive, hptr, hloaded.dir,
      fun p hp => List.mem_append_left _ (List.mem_reverse.mpr hp), hloaded,
      hloaded.whole.resolve_right fun hshort => hready.served hshort.2,
      hopened.left hmachine hkept rfl rfl hloaded.toMapping⟩, hsegments, hbytes⟩

theorem KernelHeap.ready (h : KernelHeap s g v) {x : Execution} (hx : x.Runs argv s pid s')
    (hclean : Clean s'.trace) (hspace : g.space pid = none) {Q : ByteMemory → ℕ → ℕ → Prop}
    (hfile : ReadsFile Q argv s) (hQ : ∀ m buf size, Q m buf size → ProgramImage m buf size)
    (hargs : ArgsFit argv) :
    ∃ frames t sp loose v' a size, (g.temp = none ∨ g.temp = some t) ∧
      Q x.opened.view x.buf size ∧
      x.Ready (x.loadIn g frames t pid) sp loose v' argv a size := by
  obtain ⟨frames, t, sp, loose, v', a, size, htemp, hQ', hready, -⟩ :=
    h.ready_image hx hclean hspace hfile hQ hargs
  exact ⟨frames, t, sp, loose, v', a, size, htemp, hQ', hready⟩

/-- The layout with more pages of the heap, and a space and a stack for slot `i`. -/
def Layout.addTask (g : Layout) (frames : List ℕ) (t i : ℕ) (sp : Space) (kernelStack : ℕ) :
    Layout :=
  { g.extend frames with
    temp := some t
    space := Function.update g.space i (some sp)
    stack := Function.update g.stack i (some kernelStack) }

/-- A call that returns a pid, in which no frame was missing and every new table was zeroed in its
frame, adds an address space and a kernel stack to the layout, and perhaps pages to the heap. -/
theorem KernelHeap.execProgram (h : KernelHeap s g v)
    (hrun : execProgram argv s = .ok (some pid) s') (hclean : Clean s'.trace)
    (hspace : g.space pid = none) (hstack : g.stack pid = none)
    (hfile : ReadsFile SeparateImage argv s) (hargs : ArgsFit argv) :
    ∃ frames t sp kernelStack v' filename entry wakeupTime,
      (g.temp = none ∨ g.temp = some t) ∧
      KernelHeap s' (g.addTask frames t pid sp kernelStack) v' ∧
      (∀ k f, sp.table k = some f → k < 768) ∧
      s'.processTable = Function.update s.processTable pid
        (newTask pid filename kernelStack sp.dir entry (argsPtr argv) wakeupTime) := by
  obtain ⟨x, hx⟩ := execProgram_stages hrun
  obtain ⟨frames, t, sp, loose, v', a, size, htemp, hfile, hready⟩ :=
    h.ready hx hclean hspace hfile (fun _ _ _ hQ => hQ.toProgramImage) hargs
  have hloose : loose = g.loose := hready.whole.tidy (pages_nodup hfile.disjoint hfile.inside)
  have hinstalls := hx.installs
  rw [hready.buf] at hinstalls
  obtain ⟨kernelStack, entry, wakeupTime, hdone, htable⟩ :=
    hready.left.installTask hready.live hinstalls hclean hstack
  refine ⟨frames, t, sp, kernelStack, v'.release a size, x.filename, entry, wakeupTime, htemp,
    ?_, ?_, ?_⟩
  · have hlayout : { ((g.extend frames).cloned t pid x.newDir).withSpace pid sp loose with
        stack := Function.update g.stack pid (some kernelStack) } =
        g.addTask frames t pid sp kernelStack := by
      rw [hloose]
      simp only [Layout.cloned, Layout.newSpace, Layout.withSpace, Layout.extend,
        Layout.addTask, Function.update_idem]
    rw [← hlayout]
    exact hdone
  · intro k f hf
    obtain ⟨q, hq, hqk⟩ := hready.loaded.tables k f hf
    have hlt := Execution.load_pages_lt hfile.inside hq
    omega
  · rw [htable, hready.userStackPtr, hx.table, hready.dir]

end MyOS
