import MyOS.Model.Critical
import MyOS.Verification.Memory.Identity

/-! The critical section of `exec_program`: on which paths interrupts are really off wherever
the shared structures are touched. -/

namespace MyOS

open Effect

variable {α β : Type}

/-! ## Forgetting the flag -/

/-- Without the flag, the one computation is the other. -/
def Erases (x : Critical α) (y : Kernel α) : Prop := ∀ c,
  match x c with
  | .ok a d => y c.machine = .ok a d.machine
  | .error e d => y c.machine = .error e d.machine

theorem erases_pure (a : α) : Erases (pure a) (pure a) := fun _ => rfl

theorem erases_plain (x : Kernel α) : Erases (plain x) x := by
  intro c
  unfold plain
  cases x c.machine <;> rfl

theorem erases_touching (x : Kernel α) : Erases (touching x) x := by
  intro c
  unfold touching
  cases x c.machine <;> rfl

theorem Erases.bind {x : Critical α} {y : Kernel α} {f : α → Critical β} {g : α → Kernel β}
    (hx : Erases x y) (hf : ∀ a, Erases (f a) (g a)) : Erases (x >>= f) (y >>= g) := by
  intro c
  have hc := hx c
  cases hrun : x c with
  | ok a d =>
      rw [hrun] at hc
      rw [bind_of_ok hrun, bind_of_ok hc]
      exact hf a d
  | error e d =>
      rw [hrun] at hc
      rw [bind_of_error hrun, bind_of_error hc]

theorem Erases.ite {p : Prop} [Decidable p] {x x' : Critical α} {y y' : Kernel α}
    (hx : Erases x y) (hy : Erases x' y') :
    Erases (if p then x else x') (if p then y else y') := by
  split
  · exact hx
  · exact hy

/-- A step that returns and leaves the machine alone. -/
def Silent (x : Critical Unit) : Prop := ∀ c, ∃ d, x c = .ok () d ∧ d.machine = c.machine

theorem silent_cli : Silent cli := fun _ => ⟨_, rfl, rfl⟩

theorem silent_sti : Silent sti := fun _ => ⟨_, rfl, rfl⟩

theorem Silent.skip {x : Critical Unit} (hx : Silent x) {f : Critical α} {y : Kernel α}
    (hf : Erases f y) : Erases (x >>= fun _ => f) y := by
  intro c
  obtain ⟨d, hd, hm⟩ := hx c
  rw [bind_of_ok hd, ← hm]
  exact hf d

/-- A message ends with interrupts on, unless it is empty. -/
theorem printMessage_apply (msg : List UInt8) (c : Cpu) :
    printMessage msg c =
      .ok () { c with interruptFlag := if msg = [] then c.interruptFlag else true } := by
  induction msg generalizing c with
  | nil => rfl
  | cons b rest ih =>
      have hrest := ih { c with interruptFlag := true }
      rw [printMessage]
      refine hrest.trans ?_
      simp

theorem silent_printMessage (msg : List UInt8) : Silent (printMessage msg) :=
  fun c => ⟨_, printMessage_apply msg c, rfl⟩

theorem erases_get {f : Cpu → Critical α} {k : Machine → Kernel α}
    (hf : ∀ c, Erases (f c) (k c.machine)) : Erases (get >>= f) (get >>= k) :=
  fun c => hf c c

/-- A value read from the machine. -/
theorem erases_read {g : Machine → α} {f : α → Critical β} {k : Machine → Kernel β}
    (hf : ∀ s, Erases (f (g s)) (k s)) :
    Erases (touching (do return g (← get)) >>= f) (get >>= k) :=
  fun c => hf c.machine { c with flags := c.flags ++ [c.interruptFlag] }

theorem installTask_erases (filename : List UInt8) (fileBuffer newDir userStackPtr : ℕ) :
    Erases (installTaskCritical filename fileBuffer newDir userStackPtr)
      (installTask filename fileBuffer newDir userStackPtr) := by
  refine erases_read ?_
  intro s
  cases findFreeSlot s.processTable with
  | none =>
      refine (silent_printMessage _).skip ((erases_touching _).bind fun _ => ?_)
      exact (erases_touching _).bind fun _ => silent_sti.skip (erases_pure none)
  | some newPid =>
      refine (erases_touching _).bind fun kernelStack => (erases_plain _).bind fun entry => ?_
      exact (erases_touching _).bind fun _ => (erases_touching _).bind fun _ => erases_pure _

theorem loadProgram_erases (filename : List UInt8) (argv : List (List UInt8))
    (fileBuffer newDir : ℕ) :
    Erases (loadProgramCritical filename argv fileBuffer newDir)
      (loadProgram filename argv fileBuffer newDir) := by
  refine erases_get fun c => (erases_plain _).bind fun _ => (erases_plain _).bind fun phoff => ?_
  refine (erases_touching _).bind fun mapped => ?_
  cases mapped with
  | true =>
      refine (erases_touching _).bind fun stack => ?_
      cases stack with
      | true =>
          refine (erases_plain _).bind fun userStackPtr => (erases_plain _).bind fun _ => ?_
          exact installTask_erases filename fileBuffer newDir userStackPtr
      | false =>
          refine (erases_plain _).bind fun _ => (erases_touching _).bind fun _ => ?_
          exact (erases_touching _).bind fun _ => silent_sti.skip (erases_pure none)
  | false =>
      refine (erases_touching _).bind fun _ => (erases_touching _).bind fun _ => ?_
      exact (silent_printMessage _).skip (silent_sti.skip (erases_pure none))

/-- From the file buffer on. -/
theorem startProgram_erases (filename : List UInt8) (argv : List (List UInt8))
    (fileBuffer : ℕ) :
    Erases (startProgramCritical filename argv fileBuffer) (do
      let magic ← load32 fileBuffer
      if magic ≠ elfMagic then
        free fileBuffer
        return none
      else
        let kernelDirectory := (← get).kernelDirectory
        let newDir ← pagingCloneDirectory kernelDirectory
        if newDir = 0 then
          free fileBuffer
          return none
        else
          loadProgram filename argv fileBuffer newDir) := by
  refine (erases_plain _).bind fun magic => Erases.ite ?_ ?_
  · refine (silent_printMessage _).skip ((erases_touching _).bind fun _ => ?_)
    exact silent_sti.skip (erases_pure none)
  · refine erases_get fun c => (erases_touching _).bind fun newDir => Erases.ite ?_ ?_
    · refine (silent_printMessage _).skip ((erases_touching _).bind fun _ => ?_)
      exact silent_sti.skip (erases_pure none)
    · exact loadProgram_erases filename argv fileBuffer newDir

/-- Without the flag, it is `execProgram`. -/
theorem execProgram_erases (argv : List (List UInt8)) :
    Erases (execProgramCritical argv) (execProgram argv) := by
  refine silent_cli.skip ?_
  cases argv with
  | nil => exact (silent_printMessage _).skip (silent_sti.skip (erases_pure none))
  | cons filename args =>
      unfold execProgram openProgram
      simp only [bind_assoc]
      refine (erases_plain _).bind fun fileEntry => ?_
      by_cases hentry : fileEntry = 0
      · simp only [hentry, if_true, pure_bind]
        refine (silent_printMessage _).skip ((silent_printMessage _).skip ?_)
        exact silent_sti.skip (erases_pure none)
      · simp only [hentry, if_false, bind_assoc, pure_bind]
        refine (erases_touching _).bind fun fileBuffer => ?_
        by_cases hbuffer : fileBuffer = 0
        · simp only [hbuffer, if_true]
          exact (silent_printMessage _).skip (silent_sti.skip (erases_pure none))
        · simp only [hbuffer, if_false]
          exact startProgram_erases filename (filename :: args) fileBuffer

/-! ## The flag at the steps that touch the structures -/

/-- Interrupts were off at every step so far that touched the structures. -/
def Cpu.Clear (c : Cpu) : Prop := ∀ f ∈ c.flags, f = false

/-- And they still are. -/
structure Cpu.Off (c : Cpu) : Prop where
  flag : c.interruptFlag = false
  clear : c.Clear

variable {c d : Cpu}

theorem plain_ok {x : Kernel α} {a : α} {s : Machine} (h : x c.machine = .ok a s) :
    plain x c = .ok a { c with machine := s } := by
  rw [plain, h]

theorem plain_error {x : Kernel α} {e : Halt} {s : Machine} (h : x c.machine = .error e s) :
    plain x c = .error e { c with machine := s } := by
  rw [plain, h]

theorem touching_ok {x : Kernel α} {a : α} {s : Machine} (h : x c.machine = .ok a s) :
    touching x c = .ok a { c with machine := s, flags := c.flags ++ [c.interruptFlag] } := by
  rw [touching, h]

theorem touching_error {x : Kernel α} {e : Halt} {s : Machine} (h : x c.machine = .error e s) :
    touching x c = .error e { c with machine := s, flags := c.flags ++ [c.interruptFlag] } := by
  rw [touching, h]

theorem Cpu.Off.machine (h : c.Off) (s : Machine) : Cpu.Off { c with machine := s } := ⟨h.1, h.2⟩

theorem Cpu.Off.touched (h : c.Off) (s : Machine) :
    Cpu.Off { c with machine := s, flags := c.flags ++ [c.interruptFlag] } where
  flag := h.flag
  clear f hf := by
    rcases List.mem_append.mp hf with hf | hf
    · exact h.clear f hf
    · rw [List.mem_singleton.mp hf]
      exact h.flag

theorem ends_plain (x : Kernel α) (h : c.Off) : Ends (fun _ d => d.Off) Cpu.Clear (plain x c) := by
  cases hx : x c.machine with
  | ok a s => exact ends_of_ok (plain_ok hx) (h.machine s)
  | error e s => exact ends_of_error (plain_error hx) h.clear

theorem ends_touching (x : Kernel α) (h : c.Off) :
    Ends (fun _ d => d.Off) Cpu.Clear (touching x c) := by
  cases hx : x c.machine with
  | ok a s => exact ends_of_ok (touching_ok hx) (h.touched s)
  | error e s => exact ends_of_error (touching_error hx) (h.touched s).clear

/-- Interrupts are on at the next step that touches the structures. -/
theorem touching_bind_not_clear {x : Kernel α} {f : α → Critical β} (h : c.interruptFlag = true)
    (hf : ∀ a, Leads (fun c d => c.flags <+: d.flags) (f a)) :
    ¬(final (touching x >>= f) c).Clear := by
  have hmem : ∀ d : Cpu, c.flags ++ [c.interruptFlag] <+: d.flags → ¬d.Clear := by
    intro d hd hclear
    have htrue := hclear c.interruptFlag (hd.subset (by simp))
    rw [h] at htrue
    exact absurd htrue (by decide)
  cases hx : x c.machine with
  | ok a s =>
      have hgrow := hf a { c with machine := s, flags := c.flags ++ [c.interruptFlag] }
      rw [final_bind_of_ok (touching_ok hx)]
      exact hmem _ hgrow
  | error e s =>
      rw [final_bind_of_error (touching_error hx)]
      exact hmem _ List.prefix_rfl

theorem chain_flags : Chain fun c d : Cpu => c.flags <+: d.flags :=
  ⟨fun _ => List.prefix_rfl, fun h h' => h.trans h'⟩

theorem leads_touching (x : Kernel α) : Leads (fun c d => c.flags <+: d.flags) (touching x) := by
  intro c
  cases hx : x c.machine with
  | ok a s =>
      rw [final, touching_ok hx]
      exact List.prefix_append _ _
  | error e s =>
      rw [final, touching_error hx]
      exact List.prefix_append _ _

theorem leads_sti : Leads (fun c d : Cpu => c.flags <+: d.flags) sti := fun _ => List.prefix_rfl

/-- A message before the clean-up leaves interrupts on for it. -/
theorem message_bind_not_clear {msg : List UInt8} (hmsg : msg ≠ []) {x : Kernel α}
    {f : α → Critical β} (hf : ∀ a, Leads (fun c d => c.flags <+: d.flags) (f a)) :
    ¬(final (printMessage msg >>= fun _ => touching x >>= f) c).Clear := by
  rw [final_bind_of_ok (printMessage_apply msg c)]
  exact touching_bind_not_clear (by simp [hmsg]) hf

/-- Started with interrupts off, the flag stays clear exactly from the machines in `W`. -/
def Guards (x : Critical α) (W : Machine → Prop) : Prop :=
  ∀ c : Cpu, c.Off → ((final x c).Clear ↔ W c.machine)

theorem Guards.congr {x : Critical α} {W W' : Machine → Prop} (h : Guards x W)
    (hW : ∀ s, W s ↔ W' s) : Guards x W' :=
  fun c hc => (h c hc).trans (hW c.machine)

theorem Guards.plain {x : Kernel α} {f : α → Critical β} {W : α → Machine → Prop}
    (hf : ∀ a, Guards (f a) (W a)) : Guards (plain x >>= f) (Returns x W) := by
  intro c h
  cases hx : x c.machine with
  | ok a s => rw [final_bind_of_ok (plain_ok hx), hf a _ (h.machine s), returns_of_ok hx]
  | error e s =>
      rw [final_bind_of_error (plain_error hx)]
      exact iff_of_true h.clear (returns_of_error hx)

theorem Guards.touching {x : Kernel α} {f : α → Critical β} {W : α → Machine → Prop}
    (hf : ∀ a, Guards (f a) (W a)) : Guards (touching x >>= f) (Returns x W) := by
  intro c h
  cases hx : x c.machine with
  | ok a s => rw [final_bind_of_ok (touching_ok hx), hf a _ (h.touched s), returns_of_ok hx]
  | error e s =>
      rw [final_bind_of_error (touching_error hx)]
      exact iff_of_true (h.touched s).clear (returns_of_error hx)

theorem Guards.get {f : Cpu → Critical α} (W : Machine → Machine → Prop)
    (hf : ∀ c, Guards (f c) (W c.machine)) : Guards (get >>= f) fun s => W s s :=
  fun c h => hf c c h

theorem Guards.ite {p : Prop} [Decidable p] {x y : Critical α} {W W' : Machine → Prop}
    (hx : Guards x W) (hy : Guards y W') :
    Guards (if p then x else y) fun s => if p then W s else W' s := by
  split
  · exact hx
  · exact hy

/-- A path on which the flag stays clear. -/
theorem guards_of_ends {x : Critical α}
    (h : ∀ c : Cpu, c.Off → Ends (fun _ d => d.Clear) Cpu.Clear (x c)) : Guards x fun _ => True :=
  fun c hc => iff_of_true (h c hc).final trivial

/-- A path with a message before the clean-up. -/
theorem guards_of_message {msg : List UInt8} (hmsg : msg ≠ []) {x : Kernel α}
    {f : α → Critical β} (hf : ∀ a, Leads (fun c d => c.flags <+: d.flags) (f a)) :
    Guards (printMessage msg >>= fun _ => touching x >>= f) fun _ => False :=
  fun _ _ => iff_of_false (message_bind_not_clear hmsg hf) id

/-- A message behind the clean-up. -/
theorem ends_message (msg : List UInt8) (h : c.Clear) :
    Ends (fun _ d => d.Clear) Cpu.Clear (printMessage msg c) := by
  rw [printMessage_apply]
  exact h

/-! ## The paths through `exec_program` -/

/-- A slot search that finds nothing prints its message before the clean-up. -/
theorem installTask_guards (filename : List UInt8) (fileBuffer newDir userStackPtr : ℕ) :
    Guards (installTaskCritical filename fileBuffer newDir userStackPtr) fun s =>
      findFreeSlot s.processTable ≠ none := by
  have hsearch : Guards (installTaskCritical filename fileBuffer newDir userStackPtr)
      (Returns (do return findFreeSlot (← get).processTable : Kernel _) fun slot _ =>
        slot ≠ none) := by
    refine Guards.touching fun slot => ?_
    cases slot with
    | none =>
        refine Guards.congr (guards_of_message (by decide) fun _ => ?_) (by simp)
        exact chain_flags.bind (leads_touching _) fun _ =>
          chain_flags.bind leads_sti fun _ => chain_flags.pure _
    | some newPid =>
        refine Guards.congr (guards_of_ends fun c h => ?_) (by simp)
        refine ends_bind (ends_touching _ h) fun kernelStack d hd => ?_
        refine ends_bind (ends_plain _ hd) fun entry d hd => ?_
        refine ends_bind (ends_touching _ hd) fun _ d hd => ?_
        exact ends_bind (ends_touching _ hd) fun _ d hd => hd.clear
  exact hsearch.congr fun s => returns_of_ok rfl

/-- The part of `loadProgram` before the slot search. -/
def buildSpace (argv : List (List UInt8)) (fileBuffer newDir : ℕ) : Kernel (Option ℕ) := do
  let oldDir := (← get).cr3
  pagingSwitchDirectory newDir
  let phoff ← load32 (fileBuffer + ehdrPhoff)
  if ← loadSegments newDir fileBuffer (fileBuffer + phoff) (2 ^ 16) 0 then
    if ← mapStackPages newDir userStackPages 0 then
      let userStackPtr ← setupArguments argv
      pagingSwitchDirectory oldDir
      return some userStackPtr
    else
      return none
  else
    return none

/-- Missing frames leave interrupts off until the clean-up is done. -/
theorem loadProgram_guards (filename : List UInt8) (argv : List (List UInt8))
    (fileBuffer newDir : ℕ) :
    Guards (loadProgramCritical filename argv fileBuffer newDir)
      (Returns (buildSpace argv fileBuffer newDir) fun p s =>
        p ≠ none → findFreeSlot s.processTable ≠ none) := by
  intro c h
  rw [loadProgramCritical, final_bind_of_ok (get_apply c)]
  refine (Guards.plain (fun _ => Guards.plain fun phoff => Guards.touching fun mapped =>
    Guards.ite (Guards.touching fun stack => Guards.ite
      (Guards.plain fun userStackPtr => Guards.plain fun _ => installTask_guards _ _ _ _)
      (guards_of_ends fun c h => ?_)) (guards_of_ends fun c h => ?_)) c h).trans ?_
  · refine ends_bind (ends_plain _ h) fun _ d hd => ?_
    refine ends_bind (ends_touching _ hd) fun _ d hd => ?_
    exact ends_bind (ends_touching _ hd) fun _ d hd => hd.clear
  · refine ends_bind (ends_touching _ h) fun _ d hd => ?_
    refine ends_bind (ends_touching _ hd) fun _ d hd => ?_
    exact ends_bind (ends_message _ hd.clear) fun _ d hd => hd
  · simp only [buildSpace, returns_bind, returns_get, returns_ite, returns_pure]
    simp

/-- A directory is cloned if and only if there is a frame for it. -/
theorem pagingCloneDirectory_eq_zero {s t : Machine} {src newDir : ℕ}
    (h : pagingCloneDirectory src s = .ok newDir t) :
    newDir = 0 ↔ (pmmAllocFrame s.pmm).1 = 0 := by
  rw [pagingCloneDirectory, bind_eq_ok] at h
  obtain ⟨frame, u, halloc, hrest⟩ := h
  have hframe : frame = (pmmAllocFrame s.pmm).1 := by
    injection halloc with h1 _
    exact h1.symm
  rw [← hframe]
  by_cases hzero : frame = 0
  · rw [if_pos hzero] at hrest
    injection hrest with h1 _
    exact iff_of_true h1.symm hzero
  · rw [if_neg hzero] at hrest
    simp only [bind_eq_ok] at hrest
    obtain ⟨_, _, _, _, _, _, _, _, _, _, _, _, _, _, _, hret⟩ := hrest
    injection hret with h1 _
    exact iff_of_false (by rw [← h1]; exact hzero) hzero

theorem pagingCloneDirectory_full {s : Machine} (src : ℕ) (h : (pmmAllocFrame s.pmm).1 = 0) :
    ∃ t, pagingCloneDirectory src s = .ok 0 t := by
  have halloc : allocFrame s = .ok 0 { s with
      pmm := (pmmAllocFrame s.pmm).2, trace := .allocFailed :: s.trace } := by
    simp [allocFrame, h]
  rw [pagingCloneDirectory, bind_of_ok halloc, if_pos rfl]
  exact ⟨_, rfl⟩

theorem LoaderBlind.buildSpace {R : Machine → Machine → Prop} (hf : LoaderBlind R)
    (argv : List (List UInt8)) (fileBuffer newDir : ℕ) :
    Leads R (buildSpace argv fileBuffer newDir) := by
  refine hf.bind hf.get fun s => hf.bind (hf.switchDirectory _) fun _ => ?_
  refine hf.bind (hf.load32 _) fun phoff => hf.bind (hf.loadSegments _ _ _ _ _) fun mapped => ?_
  refine leads_ite (hf.bind (hf.mapStackPages _ _ _) fun stack => leads_ite ?_ (hf.pure _))
    (hf.pure _)
  exact hf.bind (hf.setupArguments _) fun p => hf.bind (hf.switchDirectory _) fun _ => hf.pure _

/-- The slots are as they were when the file was read. -/
theorem processTable_build {argv : List (List UInt8)} {fileBuffer magic newDir src : ℕ}
    {p : Option ℕ} {s t u v : Machine} (hmagic : load32 fileBuffer s = .ok magic t)
    (hclone : pagingCloneDirectory src t = .ok newDir u)
    (hbuild : MyOS.buildSpace argv fileBuffer newDir u = .ok p v) :
    v.processTable = s.processTable := by
  have hf := loaderBlind_processTable
  have h1 : t.processTable = s.processTable := (hf.load32 _).ok hmagic
  have h2 : u.processTable = t.processTable := (hf.pagingCloneDirectory _).ok hclone
  have h3 : v.processTable = u.processTable := (hf.buildSpace _ _ _).ok hbuild
  rw [h3, h2, h1]

/-- What `exec_program` has to find from the file buffer on: an ELF image, a frame for the
directory, and a slot if it comes to look for one. -/
structure StartsQuietly (argv : List (List UInt8)) (fileBuffer : ℕ) (s : Machine) : Prop where
  elf : ∀ magic t, load32 fileBuffer s = .ok magic t → magic = elfMagic
  frame : ∀ t, load32 fileBuffer s = .ok elfMagic t → (pmmAllocFrame t.pmm).1 ≠ 0
  slot : ∀ t newDir u p v, load32 fileBuffer s = .ok elfMagic t →
    pagingCloneDirectory t.kernelDirectory t = .ok newDir u →
    buildSpace argv fileBuffer newDir u = .ok (some p) v → findFreeSlot s.processTable ≠ none

theorem startProgram_guards (filename : List UInt8) (argv : List (List UInt8)) (fileBuffer : ℕ) :
    Guards (startProgramCritical filename argv fileBuffer) (StartsQuietly argv fileBuffer) := by
  have htail : ∀ _ : Unit, Leads (fun c d : Cpu => c.flags <+: d.flags)
      (do sti; return none : Critical (Option ℕ)) :=
    fun _ => chain_flags.bind leads_sti fun _ => chain_flags.pure _
  refine Guards.congr (Guards.plain fun magic => Guards.ite
    (guards_of_message (by decide) htail) (Guards.get (fun old => Returns
      (pagingCloneDirectory old.kernelDirectory) fun newDir s => if newDir = 0 then False else
        Returns (buildSpace argv fileBuffer newDir) (fun p v =>
          p ≠ none → findFreeSlot v.processTable ≠ none) s)
      fun c => Guards.touching fun newDir => Guards.ite (guards_of_message (by decide) htail)
        (loadProgram_guards filename argv fileBuffer newDir))) fun s => ?_
  simp only [Returns, if_false_left, not_not]
  constructor
  · intro h
    refine ⟨?_, ?_, ?_⟩
    · intro magic t hmagic
      exact (h magic t hmagic).1
    · intro t hmagic hfull
      obtain ⟨u, hclone⟩ := pagingCloneDirectory_full t.kernelDirectory hfull
      exact ((h elfMagic t hmagic).2 0 u hclone).1 rfl
    · intro t newDir u p v hmagic hclone hbuild
      rw [← processTable_build hmagic hclone hbuild]
      exact ((h elfMagic t hmagic).2 newDir u hclone).2 (some p) v hbuild (by simp)
  · intro h magic t hmagic
    have helf := h.elf magic t hmagic
    rw [helf] at hmagic
    refine ⟨helf, ?_⟩
    intro newDir u hclone
    have hframe := h.frame t hmagic
    refine ⟨by rwa [pagingCloneDirectory_eq_zero hclone], ?_⟩
    intro p v hbuild hp
    obtain ⟨p, rfl⟩ := Option.ne_none_iff_exists'.mp hp
    rw [processTable_build hmagic hclone hbuild]
    exact h.slot t newDir u p v hmagic hclone hbuild

/-- Interrupts are off wherever `exec_program` touches the shared structures, exactly when no
message comes before a clean-up: the file it reads, if any, is an ELF image, there is a frame
for the directory, and there is a slot for the process. -/
theorem exec_program_uninterruptible_iff (argv : List (List UInt8)) (s : Machine)
    (interruptFlag : Bool) :
    (∀ f ∈ (final (execProgramCritical argv) ⟨s, interruptFlag, []⟩).flags, f = false) ↔
      ∀ filename args fileBuffer t, argv = filename :: args →
        openProgram filename s = .ok (some fileBuffer) t → StartsQuietly argv fileBuffer t := by
  have hoff : Cpu.Off ⟨s, false, []⟩ := ⟨rfl, by simp [Cpu.Clear]⟩
  have hcli : cli ⟨s, interruptFlag, []⟩ = .ok () ⟨s, false, []⟩ := rfl
  unfold execProgramCritical
  rw [final_bind_of_ok hcli]
  cases argv with
  | nil =>
      refine iff_of_true (Ends.final (E := Cpu.Clear) ?_) (by simp)
      exact ends_bind (ends_message _ hoff.clear) fun _ d hd => hd
  | cons filename args =>
      refine (Guards.plain (fun entry => Guards.ite (guards_of_ends fun c h => ?_)
        (Guards.touching fun fileBuffer => Guards.ite (guards_of_ends fun c h => ?_)
          (startProgram_guards filename (filename :: args) fileBuffer))) ⟨s, false, []⟩ hoff).trans ?_
      · refine ends_bind (ends_message _ h.clear) fun _ d hd => ?_
        exact ends_bind (ends_message _ hd) fun _ d hd => hd
      · exact ends_bind (ends_message _ h.clear) fun _ d hd => hd
      · have hopen : Returns (openProgram filename) (fun r u => ∀ fileBuffer, r = some fileBuffer →
            StartsQuietly (filename :: args) fileBuffer u) s ↔
            ∀ name rest fileBuffer t, filename :: args = name :: rest →
              openProgram name s = .ok (some fileBuffer) t →
                StartsQuietly (filename :: args) fileBuffer t := by
          constructor
          · intro h name rest fileBuffer t hargv hrun
            injection hargv with hname _
            exact h (some fileBuffer) t (by rw [hname]; exact hrun) fileBuffer rfl
          · intro h r t hrun fileBuffer hr
            exact h filename args fileBuffer t rfl (by rw [← hr]; exact hrun)
        have hbuffer : ∀ a u, (∀ fileBuffer, (if a = 0 then none else some a) = some fileBuffer →
            StartsQuietly (filename :: args) fileBuffer u) ↔
            if a = 0 then True else StartsQuietly (filename :: args) a u := by
          intro a u
          split <;> simp
        rw [← hopen, openProgram]
        simp only [returns_ite, returns_bind, returns_pure, hbuffer, reduceCtorEq, false_implies,
          implies_true]

/-- A root directory at `0x4000` with one empty file, named `E`, and a page of heap. -/
def emptyFileMachine : Machine :=
  { identityMachine (fun x => if x = 0x4000 then 69 else if 0x4000 < x ∧ x < 0x400B then 32 else 0)
    with
    heapTop := 0x6000
    heapEnd := 0x7000
    rootDirectoryBuffer := 0x4000
    rootDirectorySize := 32 }

/-- Running a file that is not an ELF image: the buffer goes back to the heap with interrupts
on. -/
theorem exec_program_interruptible_not_elf :
    true ∈ (final (execProgramCritical [[69]]) ⟨emptyFileMachine, true, []⟩).flags := by
  decide +kernel

end MyOS
