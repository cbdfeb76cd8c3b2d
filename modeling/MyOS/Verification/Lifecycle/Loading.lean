import MyOS.Verification.Lifecycle.Runs
import MyOS.Verification.Loader.Arguments

/-! What a program finds in memory when it starts: the pages of its segments and of its stack,
and in them the bytes of its file, as far as no later segment took a page over. -/

namespace MyOS

open Effect X86Paging ByteMemory

variable {l : Load} {E : ℕ → Option UInt8} {buf va : ℕ} {d : Phdr}

/-! ## Segments over segments -/

/-- Loading the segment gives the page of `va` a new frame, or writes to `va`. -/
def Phdr.Touches (d : Phdr) (va : ℕ) : Prop :=
  va / 4096 ∈ d.pages ∨ d.vaddr ≤ va ∧ va < d.vaddr + max d.filesz d.memsz

theorem Load.fill_untouched (h : ¬d.Touches va) : l.fill buf E d va = E va := by
  have hpage : va / 4096 ∉ d.pages := fun hmem => h (.inl hmem)
  have hrange : va < d.vaddr ∨ d.vaddr + max d.filesz d.memsz ≤ va := by
    by_contra hin
    exact h (.inr (by omega))
  calc l.fill buf E d va
      = overlay (forget E d.pages) d.vaddr d.filesz
          (fun i => l.byteAt (buf + d.offset + i)) va := overlay_outside (by omega)
    _ = forget E d.pages va := overlay_outside (by omega)
    _ = E va := if_neg hpage

theorem Load.foldl_fill_untouched {ds : List Phdr} (h : ∀ e ∈ ds, ¬e.Touches va) :
    ds.foldl (l.fill buf) E va = E va := by
  induction ds generalizing E with
  | nil => rfl
  | cons e ds ih =>
      have hrest := ih (E := l.fill buf E e) fun e' he' => h e' (List.mem_cons_of_mem e he')
      exact hrest.trans (Load.fill_untouched (h e List.mem_cons_self))

/-- The last segment that touches an address decides what is there. -/
theorem Load.foldl_fill (l : Load) (E : ℕ → Option UInt8) (buf : ℕ) {ds : List Phdr} {i : ℕ}
    (hd : ds[i]? = some d) (hlater : ∀ e ∈ ds.drop (i + 1), ¬e.Touches va) :
    ∃ E', ds.foldl (l.fill buf) E va = l.fill buf E' d va := by
  obtain ⟨hi, rfl⟩ := List.getElem?_eq_some_iff.mp hd
  refine ⟨(ds.take i).foldl (l.fill buf) E, ?_⟩
  calc ds.foldl (l.fill buf) E va
      = (ds.take i ++ ds[i] :: ds.drop (i + 1)).foldl (l.fill buf) E va := by
        rw [← List.drop_eq_getElem_cons hi, List.take_append_drop]
    _ = (ds.drop (i + 1)).foldl (l.fill buf)
          (l.fill buf ((ds.take i).foldl (l.fill buf) E) ds[i]) va := by
        rw [List.foldl_append, List.foldl_cons]
    _ = _ := Load.foldl_fill_untouched hlater

/-- The bytes of a segment: first those of the file, then zeros. -/
theorem Load.fill_file {k : ℕ} (hk : k < d.filesz) :
    l.fill buf E d (d.vaddr + k) = l.byteAt (buf + d.offset + k) := by
  have hsub : d.vaddr + k - d.vaddr = k := by omega
  refine (overlay_outside (by omega)).trans ((overlay_inside (by omega) (by omega)).trans ?_)
  rw [hsub]

theorem Load.fill_zero {k : ℕ} (hfile : d.filesz ≤ k) (hk : k < d.memsz) :
    l.fill buf E d (d.vaddr + k) = some 0 :=
  overlay_inside (by omega) (by omega)

/-- The arguments leave everything below the stack. -/
theorem withArguments_below {argv : List (List UInt8)} (h : ArgsFit argv) (hva : va < 0xBFFFC000) :
    withArguments E argv va = E va := by
  obtain ⟨hlow, -, -, hstrings⟩ := h.bounds
  have htop : userStackTop = 0xC0000000 := rfl
  have hptr : argsPtr argv = argvArray argv - 8 := rfl
  have hbelow : ∀ argv : List (List UInt8), stringBytes argv ≤ 0x4000 →
      withStrings E argv va = E va := by
    intro argv
    induction argv with
    | nil => exact fun _ => rfl
    | cons str rest ih =>
        intro hfits
        rw [stringBytes_cons] at hfits
        refine (overlay_outside (.inl ?_)).trans (ih (by omega))
        rw [stringBytes_cons]
        omega
  calc withArguments E argv va
      = withPointers (withStrings E argv) argv argv.length va :=
        (overlay_outside (by omega)).trans
          ((overlay_outside (by omega)).trans (overlay_outside (by omega)))
    _ = withStrings E argv va := overlay_outside (by omega)
    _ = E va := hbelow argv hstrings

theorem Load.bytes_below {argv : List (List UInt8)} (h : ArgsFit argv) (hva : va < 0xBFFFC000) :
    l.bytes buf argv va = (segmentsOf l.image buf).foldl (l.fill buf) (fun _ => none) va := by
  have hstack : va / 4096 ∉ stackPages := by
    rw [mem_stackPages]
    omega
  exact (withArguments_below h hva).trans (if_neg hstack)

/-! ## What ring 3 may use -/

variable {s s' : Machine} {g : Layout} {v : HeapView} {argv : List (List UInt8)} {pid : ℕ}

theorem user_pte {f : ℕ} (hf : f % 4096 = 0) :
    present (pte 7 (some f)) ∧ X86Paging.user (pte 7 (some f)) ∧ frameOf (pte 7 (some f)) = f := by
  have hframe : frameOf (f + 7) = f := frameOf_add hf (by decide)
  refine ⟨?_, ?_, hframe⟩
  · change (f + 7) % 2 = 1
    omega
  · change (f + 7) / 4 % 2 = 1
    omega

/-- Ring 3 may use exactly the pages of a space. -/
theorem KernelSpace.userAccessible_iff (h : KernelSpace s g) {i : ℕ} {sp : Space}
    (hsp : g.space i = some sp) {va : ℕ} (hva : va < 2 ^ 32) :
    userAccessible s.mem sp.dir va ↔ sp.Mapped (va / 4096) := by
  have hdiv : va / 4096 / 1024 = va / 2 ^ 22 := by omega
  unfold Space.Mapped
  rw [hdiv]
  constructor
  · intro hacc
    obtain ⟨hpde, -, hpte, -⟩ := id hacc
    obtain ⟨-, -, f, hf, -⟩ := h.user_page hsp hva hacc (translate_eq_some.mpr ⟨hpde, hpte, rfl⟩)
    exact ⟨f, hf⟩
  · rintro ⟨f, hf⟩
    obtain ⟨-, t, ht⟩ := h.valid.page_range i sp _ _ f hsp hf
    obtain ⟨hlow, hhigh⟩ := h.valid.table_range i sp _ t hsp ht
    obtain ⟨hpde, huser, hframe⟩ := user_pte (h.frame_bounds (o := .table i _) ⟨sp, hsp, ht⟩).1
    obtain ⟨hpte, huser', -⟩ := user_pte (h.frame_bounds (o := .page i _ _) ⟨sp, hsp, hf⟩).1
    have hdir := h.dir_entry hsp hlow hhigh
    have htable := h.table_entry hsp ht (show va / 4096 % 1024 < 1024 by omega)
    rw [ht] at hdir
    rw [hf] at htable
    simp only [userAccessible, hdir, hframe, htable]
    exact ⟨hpde, huser, hpte, huser'⟩

/-! ## The new program -/

/-- The program in a slot may use address `va`, and finds `b` there. -/
def Machine.UserByte (s : Machine) (pid va : ℕ) (b : UInt8) : Prop :=
  userAccessible s.mem (s.processTable pid).cpuState.cr3 va ∧ (s.asTask pid).view va = b

/-- What the program in a slot finds: `file` is the image of `size` bytes at `buf`. -/
structure FindsProgram (s : Machine) (pid : ℕ) (file : ByteMemory) (buf size : ℕ) : Prop where
  /-- Ring 3 may use the pages of the segments and of the stack, and no others. -/
  pages : ∀ va < 2 ^ 32, userAccessible s.mem (s.processTable pid).cpuState.cr3 va ↔
    va / 4096 ∈ pagesOf (segmentsOf file buf) ∨ va / 4096 ∈ stackPages
  /-- Where no later segment came, a segment has its bytes of the file and then zeros. -/
  bytes : ∀ i d k, (segmentsOf file buf)[i]? = some d → k < d.memsz →
    (∀ e ∈ (segmentsOf file buf).drop (i + 1), ¬e.Touches (d.vaddr + k)) →
    (k < d.filesz → d.offset + k < size →
      s.UserByte pid (d.vaddr + k) (file (buf + d.offset + k))) ∧
    (d.filesz ≤ k → s.UserByte pid (d.vaddr + k) 0)

/-- The directory of the new task holds the space that was loaded. -/
theorem Execution.Ready.directory {x : Execution} {l : Load} {sp : Space} {loose : ℕ → Prop}
    {a n : ℕ} (h : x.Ready l sp loose v argv a n) (hrun : x.Runs argv s pid s') :
    (s'.processTable pid).cpuState.cr3 = sp.dir ∧
      KernelSpace { x.left with mem := s'.mem } (l.layout.withSpace l.slot sp loose) := by
  have hinstalls := hrun.installs
  rw [h.buf] at hinstalls
  obtain ⟨head, hmem, -, hcr3, -⟩ := installTask_mem h.left h.live hinstalls
  obtain ⟨k, hk, -⟩ := h.left.heap.heap.fits _ h.live
  obtain ⟨-, hheap, haligned, -⟩ := h.left.heap.block_bounds hk
  have hspace := h.left.space.of_heap_bytes (heapOnly_set32 hheap (by omega) x.left.mem head)
  rw [hcr3, h.dir, hmem]
  exact ⟨rfl, hspace⟩

theorem Execution.Ready.findsProgram {x : Execution} {l : Load} {sp : Space} {loose : ℕ → Prop}
    {a n size : ℕ} (h : x.Ready l sp loose v argv a n) (hrun : x.Runs argv s pid s')
    (himage : x.LoadsImage l size) (hinside : ProgramImage x.opened.view x.buf size)
    (hpages : l.pages = stackPages.reverse ++ (pagesOf (segmentsOf x.opened.view x.buf)).reverse)
    (hfit : ArgsFit argv) : FindsProgram s' pid x.opened.view x.buf size := by
  obtain ⟨hcr3, hspace⟩ := h.directory hrun
  have hslot : (l.layout.withSpace l.slot sp loose).space l.slot = some sp :=
    Function.update_self _ _ _
  have hopen : ∀ va < 2 ^ 32, userAccessible s'.mem (s'.processTable pid).cpuState.cr3 va ↔
      sp.Mapped (va / 4096) := by
    intro va hva
    rw [hcr3]
    exact hspace.userAccessible_iff hslot hva
  have hmapped : ∀ va, sp.Mapped (va / 4096) ↔ va / 4096 ∈ l.pages := by
    intro va
    constructor
    · rintro ⟨f, hf⟩
      have hmem := h.loaded.pages _ _ f hf
      rwa [Nat.div_add_mod] at hmem
    · exact h.whole.mapped _
  constructor
  · intro va hva
    rw [hopen va hva, hmapped, hpages, List.mem_append, List.mem_reverse, List.mem_reverse]
    exact or_comm
  · intro i d k hd hk hlater
    have hin := hinside.inside d (List.mem_of_getElem? hd)
    have hlow := hin.low
    have hhigh := hin.high
    -- The last segment to touch the address was `d`.
    obtain ⟨E, hE⟩ := l.foldl_fill (fun _ => none) x.buf hd hlater
    rw [← himage.segments, ← Load.bytes_below hfit (by omega)] at hE
    have hbyte : ∀ b, l.fill x.buf E d (d.vaddr + k) = some b →
        s'.UserByte pid (d.vaddr + k) b := by
      intro b hb
      obtain ⟨f, hf, hmem⟩ := h.loaded.bytes _ b (hE.trans hb)
      have htop : userStackTop = 0xC0000000 := rfl
      obtain ⟨-, htranslate, hsame⟩ := h.view hrun (show 2 ^ 22 ≤ d.vaddr + k by omega) (by omega)
      have hdiv : (d.vaddr + k) / 4096 / 1024 = (d.vaddr + k) / 2 ^ 22 := by omega
      constructor
      · rw [hopen _ (by omega)]
        unfold Space.Mapped
        rw [hdiv]
        exact ⟨f, hf⟩
      · unfold Machine.view
        rw [htranslate, hf]
        exact (hsame f hf).trans hmem
    constructor
    · intro hfile hsize
      refine hbyte _ ((Load.fill_file hfile).trans ?_)
      rw [Nat.add_assoc]
      exact himage.bytes _ hsize
    · intro hzero
      exact hbyte _ (Load.fill_zero hzero hk)

/-- The file the command names goes into a buffer at `buf`, in which `file` shows its bytes. -/
def ReadsInto (argv : List (List UInt8)) (s : Machine) (file : ByteMemory) (buf size : ℕ) : Prop :=
  ∃ filename rest entry t, argv = filename :: rest ∧ fsFindFile filename s = .ok entry s ∧
    load32 (entry + 28) s = .ok size s ∧ fsReadFile entry s = .ok buf t ∧ file = t.view

/-- A program that was started finds its file in memory, and nothing is open to it but its own
pages. Segments may begin anywhere and lie on one page: the last of them has the page. -/
theorem exec_program_contents {s s' : Machine} {g : Layout} {v : HeapView}
    {argv : List (List UInt8)} {pid : ℕ} (h : KernelHeap s g v)
    (hslots : ∀ i, (s.processTable i).state = .unused → g.space i = none) (hfit : ArgsFit argv)
    (hfile : ReadsFile ProgramImage argv s) (hrun : execProgram argv s = .ok (some pid) s')
    (hclean : Clean s'.trace) :
    ∃ file buf size, ReadsInto argv s file buf size ∧ FindsProgram s' pid file buf size := by
  obtain ⟨x, hx⟩ := execProgram_stages hrun
  obtain ⟨hslot, -⟩ := installTask_some hx.installs
  rw [hx.table] at hslot
  have hspace := hslots pid (findFreeSlot_eq_some hslot).2
  have hfile' : ReadsFile (fun file buf size => ProgramImage file buf size ∧
      ReadsInto argv s file buf size) argv s := by
    intro filename rest entry size buf t hargv hfind hsize hread hbuf
    exact ⟨hfile filename rest entry size buf t hargv hfind hsize hread hbuf,
      filename, rest, entry, t, hargv, hfind, hsize, hread, rfl⟩
  obtain ⟨frames, t, sp, loose, v', a, size, -, ⟨hprogram, hinto⟩, hready, himage⟩ :=
    h.ready_image hx hclean hspace hfile' (fun _ _ _ hQ => hQ.1) hfit
  exact ⟨_, _, size, hinto, hready.findsProgram hx himage hprogram rfl hfit⟩

/-- The program of the disk finds its four bytes at 4 MiB, and behind them four zeros. -/
theorem exec_program_contents_prog : ∃ s s' : Machine,
    execProgram [text "prog.bin"] s = .ok (some 2) s' ∧
      ∀ k < 8, s'.UserByte 2 (0x400000 + k) ([0xEB, 0xFE, 0x90, 0x90].getD k 0) := by
  have hfit : ArgsFit [text "prog.bin"] := by
    unfold ArgsFit
    decide
  obtain ⟨s, hfile⟩ := exists_fileMachine programFile
  have hs := hfile.toFileVolume.imageMachine
  obtain ⟨s', hrun, hclean, -⟩ := hs.execProgram hfile.clean hfile.freeSlot hfit
  obtain ⟨file, buf, size, ⟨filename, rest, entry, t, hargv, hfind, hload, hread, rfl⟩, hfinds⟩ :=
    exec_program_contents hs.kernelHeap (fun i _ => hs.spaces i) hfit
      ((hs.readsFile hfile.clean []).mono fun _ _ _ himage => himage.toProgramImage) hrun hclean
  obtain ⟨rfl, -⟩ := List.cons.inj hargv
  obtain ⟨himage, rfl⟩ := hs.reads hfile.clean hfind hload hread
  have hsegment : (segmentsOf t.view buf)[0]? = some ⟨ptLoad, 84, 0x400000, 4, 8⟩ := by
    rw [programImage_segments himage]
    rfl
  have hlast : (segmentsOf t.view buf).drop 1 = [] := by
    rw [programImage_segments himage]
    rfl
  refine ⟨s, s', hrun, fun k hk => ?_⟩
  obtain ⟨hbytes, hzeros⟩ := hfinds.bytes 0 _ k hsegment hk fun e he => by
    rw [hlast] at he
    cases he
  by_cases hcode : k < 4
  · have hbyte := hbytes hcode (by simp only; omega)
    rw [Nat.add_assoc, himage (84 + k) (by omega)] at hbyte
    have hsame : ∀ k < 4, programImage.getD (84 + k) 0 =
        [0xEB, 0xFE, 0x90, 0x90].getD k (0 : UInt8) := by decide
    rwa [hsame k hcode] at hbyte
  · rw [List.getD_eq_default _ _ (by simpa using hcode)]
    exact hzeros (by simpa using hcode)

end MyOS
