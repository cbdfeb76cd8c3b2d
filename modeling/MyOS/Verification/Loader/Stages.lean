import MyOS.Model.Boot
import MyOS.Verification.Loader.Stack

/-! The stages of a call to `exec_program` that returns a pid, and the ELF images it is given. -/

namespace MyOS

open Effect X86Paging ByteMemory

/-! ## The stages of a call -/

/-- The states between the stages, and what the stages return. -/
structure Execution where
  filename : List UInt8
  opened : Machine
  buf : ℕ
  cloned : Machine
  newDir : ℕ
  phoff : ℕ
  loaded : Machine
  stacked : Machine
  ready : Machine
  userStackPtr : ℕ

/-- The new directory is active. -/
def Execution.entered (x : Execution) : Machine := { x.cloned with cr3 := x.newDir }

/-- The directory of the caller is active again. -/
def Execution.left (x : Execution) : Machine := { x.ready with cr3 := x.cloned.cr3 }

/-- The stages make up a call on `s` that returns `pid`. -/
structure Execution.Runs (x : Execution) (argv : List (List UInt8)) (s : Machine) (pid : ℕ)
    (s' : Machine) : Prop where
  argv_eq : ∃ rest, argv = x.filename :: rest
  opens : openProgram x.filename s = .ok (some x.buf) x.opened
  clones : pagingCloneDirectory x.opened.kernelDirectory x.opened = .ok x.newDir x.cloned
  newDir_ne : x.newDir ≠ 0
  header : load32 (x.buf + ehdrPhoff) x.entered = .ok x.phoff x.entered
  loads : loadSegments x.newDir x.buf (x.buf + x.phoff) (2 ^ 16) 0 x.entered = .ok true x.loaded
  stack_maps : mapStackPages x.newDir userStackPages 0 x.loaded = .ok true x.stacked
  arguments : setupArguments argv x.stacked = .ok x.userStackPtr x.ready
  installs : installTask x.filename x.buf x.newDir x.userStackPtr x.left = .ok (some pid) s'

variable {s s' : Machine} {argv : List (List UInt8)} {pid : ℕ}

theorem loadProgram_some {filename : List UInt8} {buf newDir : ℕ}
    (h : loadProgram filename argv buf newDir s = .ok (some pid) s') :
    ∃ phoff loaded stacked ready userStackPtr,
      load32 (buf + ehdrPhoff) { s with cr3 := newDir } = .ok phoff { s with cr3 := newDir } ∧
      loadSegments newDir buf (buf + phoff) (2 ^ 16) 0 { s with cr3 := newDir } =
        .ok true loaded ∧
      mapStackPages newDir userStackPages 0 loaded = .ok true stacked ∧
      setupArguments argv stacked = .ok userStackPtr ready ∧
      installTask filename buf newDir userStackPtr { ready with cr3 := s.cr3 } =
        .ok (some pid) s' := by
  unfold loadProgram at h
  rw [bind_of_ok (get_apply s)] at h
  obtain ⟨_, s₁, hswitch, h⟩ := bind_eq_ok.mp h
  cases hswitch
  obtain ⟨phoff, s₂, hheader, h⟩ := bind_eq_ok.mp h
  obtain rfl := load32_state hheader
  obtain ⟨ok, loaded, hload, h⟩ := bind_eq_ok.mp h
  cases ok with
  | false =>
      obtain ⟨_, _, -, h⟩ := bind_eq_ok.mp h
      obtain ⟨_, _, -, h⟩ := bind_eq_ok.mp h
      cases h
  | true =>
      obtain ⟨ok, stacked, hstack, h⟩ := bind_eq_ok.mp h
      cases ok with
      | false =>
          obtain ⟨_, _, -, h⟩ := bind_eq_ok.mp h
          obtain ⟨_, _, -, h⟩ := bind_eq_ok.mp h
          obtain ⟨_, _, -, h⟩ := bind_eq_ok.mp h
          cases h
      | true =>
          obtain ⟨userStackPtr, ready, hargs, h⟩ := bind_eq_ok.mp h
          obtain ⟨_, s₃, hback, h⟩ := bind_eq_ok.mp h
          cases hback
          exact ⟨phoff, loaded, stacked, ready, userStackPtr, hheader, hload, hstack, hargs, h⟩

theorem execProgram_stages (h : execProgram argv s = .ok (some pid) s') :
    ∃ x : Execution, x.Runs argv s pid s' := by
  unfold execProgram at h
  cases argv with
  | nil => cases h
  | cons filename rest =>
      obtain ⟨opened, t₁, hopen, h⟩ := bind_eq_ok.mp h
      cases opened with
      | none => cases h
      | some buf =>
          obtain ⟨magic, t₂, hmagic, hrest⟩ := bind_eq_ok.mp h
          obtain rfl := load32_state hmagic
          by_cases hm : magic ≠ elfMagic
          · rw [if_pos hm] at hrest
            obtain ⟨_, _, -, hrest⟩ := bind_eq_ok.mp hrest
            cases hrest
          · rw [if_neg hm, bind_of_ok (get_apply _)] at hrest
            obtain ⟨newDir, t₃, hclone, h⟩ := bind_eq_ok.mp hrest
            by_cases hd : newDir = 0
            · rw [if_pos hd] at h
              obtain ⟨_, _, -, h⟩ := bind_eq_ok.mp h
              cases h
            · rw [if_neg hd] at h
              obtain ⟨phoff, loaded, stacked, ready, userStackPtr, h1, h2, h3, h4, h5⟩ :=
                loadProgram_some h
              exact ⟨⟨filename, t₂, buf, t₃, newDir, phoff, loaded, stacked, ready, userStackPtr⟩,
                ⟨rest, rfl⟩, hopen, hclone, hd, h1, h2, h3, h4, h5⟩

theorem openProgram_some {filename : List UInt8} {buf : ℕ}
    (h : openProgram filename s = .ok (some buf) s') :
    ∃ entry, fsFindFile filename s = .ok entry s ∧ fsReadFile entry s = .ok buf s' ∧ buf ≠ 0 := by
  unfold openProgram at h
  obtain ⟨entry, t, hfind, hrest⟩ := bind_eq_ok.mp h
  obtain rfl := (readBlind_id.fsFindFile filename).ok hfind
  refine ⟨entry, hfind, ?_⟩
  by_cases hentry : entry = 0
  · rw [if_pos hentry] at hrest
    cases hrest
  · rw [if_neg hentry] at hrest
    obtain ⟨buf', u, hread, hrest⟩ := bind_eq_ok.mp hrest
    by_cases hbuf : buf' = 0
    · rw [if_pos hbuf] at hrest
      cases hrest
    · rw [if_neg hbuf] at hrest
      cases hrest
      exact ⟨hread, hbuf⟩

theorem fsReadFile_size {entry buf : ℕ} (h : fsReadFile entry s = .ok buf s') :
    ∃ size, load32 (entry + 28) s = .ok size s := by
  unfold fsReadFile at h
  obtain ⟨size, t, hsize, -⟩ := bind_eq_ok.mp h
  obtain rfl := load32_state hsize
  exact ⟨size, hsize⟩

/-- The trace grows from stage to stage. -/
theorem Execution.Runs.traces {x : Execution} (hx : x.Runs argv s pid s') :
    s.trace <:+ x.opened.trace ∧ x.opened.trace <:+ x.cloned.trace ∧
      x.cloned.trace <:+ x.loaded.trace ∧ x.loaded.trace <:+ x.stacked.trace ∧
      x.stacked.trace <:+ x.ready.trace ∧ x.ready.trace <:+ s'.trace := by
  have hb := processBlind_trace
  have hloads : x.entered.trace <:+ x.loaded.trace := (hb.loadSegments _ _ _ _ _).ok hx.loads
  have hinstalls : x.left.trace <:+ s'.trace := (hb.installTask _ _ _ _).ok hx.installs
  exact ⟨(hb.openProgram _).ok hx.opens, (hb.pagingCloneDirectory _).ok hx.clones, hloads,
    (hb.mapStackPages _ _ _).ok hx.stack_maps, (hb.setupArguments _).ok hx.arguments, hinstalls⟩

/-- The process table is the same until the new task is installed. -/
theorem Execution.Runs.table {x : Execution} (hx : x.Runs argv s pid s') :
    x.left.processTable = s.processTable := by
  have hb := loaderBlind_processTable
  have hloads : x.loaded.processTable = x.entered.processTable :=
    (hb.loadSegments _ _ _ _ _).ok hx.loads
  calc x.left.processTable = x.ready.processTable := rfl
    _ = x.stacked.processTable := (hb.setupArguments _).ok hx.arguments
    _ = x.loaded.processTable := (hb.mapStackPages _ _ _).ok hx.stack_maps
    _ = x.cloned.processTable := hloads
    _ = x.opened.processTable := (hb.pagingCloneDirectory _).ok hx.clones
    _ = s.processTable := (hb.openProgram _).ok hx.opens

/-! ## Images -/

/-- What the kernel reads at an address. -/
def Machine.view (s : Machine) : ByteMemory := fun va => ((s.translate va).map s.mem).getD 0

/-- A file of `size` bytes at `buf` that is an ELF image: it is no larger than memory, its header
and its program headers lie in it, and its segments between 4 MiB and the user stack. -/
structure ProgramImage (m : ByteMemory) (buf size : ℕ) : Prop where
  size_le : size ≤ memSize.toNat
  header : 52 ≤ size
  table : m.get32 (buf + ehdrPhoff) + sizeofPhdr * phnum m buf ≤ size
  inside : ∀ d ∈ segmentsOf m buf, d.Inside 0xBFFFC000

/-- `Q` holds of the file that `exec_program` reads in this state, as it lies in the buffer. -/
def ReadsFile (Q : ByteMemory → ℕ → ℕ → Prop) (argv : List (List UInt8)) (s : Machine) : Prop :=
  ∀ filename rest entry size buf t, argv = filename :: rest →
    fsFindFile filename s = .ok entry s → load32 (entry + 28) s = .ok size s →
    fsReadFile entry s = .ok buf t → buf ≠ 0 → Q t.view buf size

theorem ReadsFile.mono {Q Q' : ByteMemory → ℕ → ℕ → Prop} {argv : List (List UInt8)}
    (h : ReadsFile Q argv s) (hQ : ∀ m buf size, Q m buf size → Q' m buf size) :
    ReadsFile Q' argv s :=
  fun filename rest entry size buf t hargv hfind hload hread hbuf =>
    hQ _ _ _ (h filename rest entry size buf t hargv hfind hload hread hbuf)

/-- The image is read from its own bytes only. -/
theorem ProgramImage.congr {m m' : ByteMemory} {buf size : ℕ} (h : ProgramImage m buf size)
    (hm : ∀ i < size, m' (buf + i) = m (buf + i)) :
    ProgramImage m' buf size ∧ segmentsOf m' buf = segmentsOf m buf ∧
      m'.get32 (buf + ehdrPhoff) = m.get32 (buf + ehdrPhoff) ∧ phnum m' buf = phnum m buf := by
  have hheader := h.header
  have htable := h.table
  have hword : ∀ o, o + 4 ≤ size → m'.get32 (buf + o) = m.get32 (buf + o) := by
    intro o ho
    refine get32_congr ?_
    intro i hi
    rw [Nat.add_assoc]
    exact hm _ (by omega)
  have hphoff : m'.get32 (buf + ehdrPhoff) = m.get32 (buf + ehdrPhoff) :=
    hword ehdrPhoff (by unfold ehdrPhoff; omega)
  have hphnum : phnum m' buf = phnum m buf := by
    refine get16_congr ?_
    intro i hi
    rw [Nat.add_assoc]
    exact hm _ (by unfold ehdrPhnum; omega)
  have hsegments : segmentsOf m' buf = segmentsOf m buf := by
    unfold segmentsOf loadable
    rw [hphnum]
    congr 1
    refine List.map_congr_left ?_
    intro k hk
    rw [List.mem_range'_1] at hk
    unfold phdrAddr phdrAt
    rw [hphoff]
    unfold sizeofPhdr at htable ⊢
    simp only [Nat.add_assoc, Phdr.mk.injEq]
    refine ⟨hword _ ?_, hword _ ?_, hword _ ?_, hword _ ?_, hword _ ?_⟩
    all_goals
      simp only [phdrType, phdrOffset, phdrVaddr, phdrFilesz, phdrMemsz]
      omega
  refine ⟨⟨h.size_le, h.header, ?_, ?_⟩, hsegments, hphoff, hphnum⟩
  · rw [hphoff, hphnum]
    exact h.table
  · rw [hsegments]
    exact h.inside

/-! ## Kernel stacks -/

/-- The kernel stack at this address lies below 4 MiB, and its bytes are reached at their own
addresses. -/
def Machine.StackReached (s : Machine) (stack : ℕ) : Prop :=
  stack + 4096 ≤ 2 ^ 22 ∧
    ∀ o < 4096, X86Paging.translate s.mem s.kernelDirectory (stack + o) = some (stack + o)

/-- That is the case where the page of the stack is no page of the heap or of the windows. -/
theorem KernelSpace.stackReached_iff {g : Layout} (h : KernelSpace s g) {stack : ℕ}
    (haligned : stack % 4096 = 0) :
    s.StackReached stack ↔ stack + 4096 ≤ 2 ^ 22 ∧ g.lowFrame (stack / 4096) = stack := by
  have htranslate : ∀ o < 4096, stack + 4096 ≤ 2 ^ 22 →
      X86Paging.translate s.mem s.kernelDirectory (stack + o) =
        some (g.lowFrame (stack / 4096) + o) := by
    intro o ho hlow
    rw [h.root_eq, h.translate_low h.activeRoot (by omega),
      show (stack + o) / 4096 = stack / 4096 by omega, show (stack + o) % 4096 = o by omega]
  constructor
  · rintro ⟨hlow, hreached⟩
    have hself := hreached 0 (by omega)
    rw [htranslate 0 (by omega) hlow] at hself
    exact ⟨hlow, by simpa using hself⟩
  · rintro ⟨hlow, hself⟩
    refine ⟨hlow, fun o ho => ?_⟩
    rw [htranslate o ho hlow, hself]

/-! ## Pages -/

/-- No byte of one segment lies on a page of the other. -/
def Phdr.PageDisjoint (d e : Phdr) : Prop :=
  ∀ a b, d.vaddr ≤ a → a < d.vaddr + d.memsz → e.vaddr ≤ b → b < e.vaddr + e.memsz →
    a / 4096 ≠ b / 4096

/-- Each page mapped for a segment holds one of its bytes. -/
theorem Phdr.mem_pages {d : Phdr} {p : ℕ} (h : p ∈ d.pages) :
    ∃ a, d.vaddr ≤ a ∧ a < d.vaddr + d.memsz ∧ a / 4096 = p := by
  obtain ⟨k, hk, hp⟩ := List.mem_map.mp h
  rw [List.mem_range'_1] at hk
  unfold Phdr.pageCount at hk
  exact ⟨d.vaddr + 4096 * k, by omega, by omega, hp⟩

theorem Phdr.pages_nodup (d : Phdr) : d.pages.Nodup := by
  refine List.Nodup.map_on ?_ List.nodup_range'
  intro i _ j _ hij
  omega

/-- Segments on pages of their own are mapped once, and apart from the stack. -/
theorem pages_nodup {ds : List Phdr} (hdisjoint : ds.Pairwise Phdr.PageDisjoint)
    (hinside : ∀ d ∈ ds, d.Inside 0xBFFFC000) :
    (stackPages.reverse ++ (pagesOf ds).reverse).Nodup := by
  have hsegments : (pagesOf ds).Nodup := by
    refine List.nodup_flatMap.mpr ⟨fun d _ => d.pages_nodup, hdisjoint.imp ?_⟩
    intro d e hde p hd he
    obtain ⟨a, ha, ha', hap⟩ := Phdr.mem_pages hd
    obtain ⟨b, hb, hb', hbp⟩ := Phdr.mem_pages he
    exact hde a b ha ha' hb hb' (hap.trans hbp.symm)
  have hstack : stackPages.Nodup := by decide
  refine List.Nodup.append (List.nodup_reverse.mpr hstack) (List.nodup_reverse.mpr hsegments) ?_
  intro p hp hq
  rw [List.mem_reverse] at hp hq
  obtain ⟨d, hd, hpd⟩ := List.mem_flatMap.mp hq
  obtain ⟨a, -, ha, hap⟩ := Phdr.mem_pages hpd
  have hhigh := (hinside d hd).high
  have hp := (mem_stackPages.mp hp).1
  omega

/-- The program's segments lie on pages of their own. -/
structure SeparateImage (m : ByteMemory) (buf size : ℕ) : Prop
    extends ProgramImage m buf size where
  disjoint : (segmentsOf m buf).Pairwise Phdr.PageDisjoint

end MyOS
