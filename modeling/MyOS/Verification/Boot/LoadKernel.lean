import MyOS.Model.Stage2

/-! Where Stage 2 puts the kernel. The BIOS returns its status in `AH`, and the loop takes the
segment of the next chunk from `AX`: only the first chunk goes where the kernel is entered. -/

namespace MyOS

open ByteMemory

variable {l : Stage2Labels} {disk : ℕ → ℕ → ℕ → UInt8} {int13 : RealMode → RealMode}
variable {s t : Stage2} {drive k : ℕ}

/-! ## One turn -/

/-- The packet of a chunk. -/
def chunk (i : ℕ) : Packet := ⟨64, 0, if i = 0 then 0x1000 else 0x0800, 5 + 64 * i⟩

/-- After `k` turns without an error. -/
structure Stage2.Loading (l : Stage2Labels) (disk : ℕ → ℕ → ℕ → UInt8) (drive k : ℕ)
    (s : Stage2) : Prop where
  cx : s.machine.regs.cx = 16 - k
  al : s.machine.regs.ax % 256 = 0
  es : s.machine.regs.es = if k = 0 then 0x1000 else 0x0800
  bootDrive : (s.machine.mem l.bootDrive).toNat = drive
  currentLba : s.machine.mem.get32 l.currentLba = 5 + 64 * k
  lbaHigh : s.machine.mem.get32 (l.dap + 12) = 0
  reads : s.reads = (List.range k).map chunk
  first : 0 < k → ∀ i < 32768, s.machine.mem (0x10000 + i) = disk drive (5 + i / 512) (i % 512)

/-- The request of a turn: where it puts the packet, and what is kept. -/
structure Requests (l : Stage2Labels) (drive k : ℕ) (s r : RealMode) : Prop where
  ah : r.regs.ah = 0x42
  al : r.regs.ax % 256 = s.regs.ax % 256
  cx : r.regs.cx = s.regs.cx
  dl : r.regs.dl = drive
  packet : packetAt r.mem r.regs.si = chunk k
  kept : ∀ a, a < l.dap ∨ l.dap + 12 ≤ a → r.mem a = s.mem a

theorem setUpRead_requests (h : s.Loading l disk drive k) (hk : k ≤ 16) :
    Requests l drive k s.machine (setUpRead l s.machine) := by
  have hlba : l.currentLba + 4 = l.dap := rfl
  have hboot : l.bootDrive + 25 = l.dap := rfl
  -- the packet with three of its fields
  generalize hmem : ((s.machine.mem.set16 (l.dap + 2) 64).set16 (l.dap + 4) 0).set16 (l.dap + 6)
    s.machine.regs.es = mem
  have hkept : ∀ a, a < l.dap ∨ l.dap + 8 ≤ a → mem a = s.machine.mem a := by
    intro a ha
    rw [← hmem, set16_of_outside _ _ (by omega), set16_of_outside _ _ (by omega),
      set16_of_outside _ _ (by omega)]
  have hebx : mem.get32 l.currentLba = 5 + 64 * k := by
    rw [← h.currentLba]
    exact get32_congr fun i hi => hkept _ (by omega)
  have hhigh : mem.get32 (l.dap + 12) = 0 := by
    rw [← h.lbaHigh]
    exact get32_congr fun i hi => hkept _ (by omega)
  have hcount : mem.get16 (l.dap + 2) = 64 := by
    rw [← hmem, get16_set16_of_disjoint _ _ (by omega), get16_set16_of_disjoint _ _ (by omega),
      get16_set16_same, Nat.mod_eq_of_lt (by omega)]
  have hoffset : mem.get16 (l.dap + 4) = 0 := by
    rw [← hmem, get16_set16_of_disjoint _ _ (by omega), get16_set16_same,
      Nat.mod_eq_of_lt (by omega)]
  have hsegment : mem.get16 (l.dap + 6) = if k = 0 then 0x1000 else 0x0800 := by
    rw [← hmem, get16_set16_same, h.es]
    split <;> rfl
  have hset : setUpRead l s.machine =
      { s.machine with
        regs := (({ s.machine.regs with si := l.dap, ebx := 5 + 64 * k }).setAh 0x42).setDl
          ((mem.set32 (l.dap + 8) (5 + 64 * k)) l.bootDrive).toNat
        mem := mem.set32 (l.dap + 8) (5 + 64 * k) } := by
    rw [← hebx, ← hmem]
    rfl
  rw [hset]
  have hdrive : (mem.set32 (l.dap + 8) (5 + 64 * k)) l.bootDrive = s.machine.mem l.bootDrive := by
    rw [set32_of_outside _ _ (by omega), hkept _ (by omega)]
  have hbyte := (s.machine.mem l.bootDrive).toNat_lt
  refine ⟨?_, ?_, ?_, ?_, ?_, ?_⟩
  · simp only [Registers.ah, Registers.setDl, Registers.setAh]
    omega
  · simp only [Registers.setDl, Registers.setAh]
    omega
  · simp only [Registers.setDl, Registers.setAh]
  · rw [hdrive, h.bootDrive]
    simp only [Registers.dl, Registers.setDl]
    rw [h.bootDrive] at hbyte
    omega
  · change packetAt (mem.set32 (l.dap + 8) (5 + 64 * k)) l.dap = chunk k
    unfold packetAt
    rw [get16_set32_of_disjoint _ _ (by omega), get16_set32_of_disjoint _ _ (by omega),
      get16_set32_of_disjoint _ _ (by omega), get32_set32_same,
      get32_set32_of_disjoint _ _ (by omega), hcount, hoffset, hsegment, hhigh,
      Nat.mod_eq_of_lt (by omega)]
    rfl
  · intro a ha
    change (mem.set32 (l.dap + 8) (5 + 64 * k)) a = _
    rw [set32_of_outside _ _ (by omega), hkept _ (by omega)]

theorem chunk_start (i : ℕ) : (chunk i).start = if i = 0 then 0x10000 else 0x8000 := by
  simp only [Packet.start, chunk]
  split <;> omega

/-- No chunk goes to the image of Stage 2. -/
theorem chunk_kept {i a : ℕ} (h : 0x5000 ≤ a ∧ a < 0x5800) : Kept (chunk i) a := by
  refine ⟨?_, .inl h⟩
  rintro ⟨hstart, -⟩
  rw [chunk_start] at hstart
  split at hstart <;> omega

/-- The status that the BIOS leaves in `AH` becomes part of the segment. -/
theorem Stage2.Loading.next (h : s.Loading l disk drive k) (hedd : ObeysEdd disk int13)
    (hk : k < 16) (hcf : (int13 (setUpRead l s.machine)).cf = false) :
    Stage2.Loading l disk drive (k + 1)
      ⟨nextChunk l (int13 (setUpRead l s.machine)),
        s.reads ++ [packetAt (setUpRead l s.machine).mem (setUpRead l s.machine).regs.si]⟩ := by
  have hrequest := setUpRead_requests h (by omega)
  generalize setUpRead l s.machine = r at hrequest hcf
  have hregs := hedd.registers r hrequest.ah hcf
  have hstored := hedd.stored r hrequest.ah hcf
  have hkept := hedd.kept r hrequest.ah hcf
  rw [hrequest.packet] at hstored hkept ⊢
  rw [hrequest.dl] at hstored
  generalize int13 r = b at hregs hstored hkept
  have hlba : l.currentLba + 4 = l.dap := rfl
  have hboot : l.bootDrive + 25 = l.dap := rfl
  have hstart := l.start_le
  have hend := l.le_end
  have himage : ∀ a, 0x5000 ≤ a → a < 0x5800 → a < l.dap ∨ l.dap + 12 ≤ a →
      b.mem a = s.machine.mem a := by
    intro a hlow hhigh hdap
    rw [hkept a (chunk_kept ⟨hlow, hhigh⟩), hrequest.kept a hdap]
  have hcx := hrequest.cx
  have hal := hrequest.al
  rw [h.cx] at hcx
  rw [h.al] at hal
  have hstatus : b.regs.ax = 0 := by
    rw [hregs]
    simp only [Registers.setAh, hal]
  have hnext : (nextChunk l b).regs.ax = (b.regs.ax + 0x800) % 2 ^ 16 := rfl
  have hax : (nextChunk l b).regs.ax = 0x800 := by
    rw [hnext, hstatus, Nat.mod_eq_of_lt (by omega)]
  refine ⟨?_, ?_, ?_, ?_, ?_, ?_, ?_, ?_⟩
  · simp only [nextChunk, hregs, Registers.setAh]
    omega
  · rw [hax]
  · exact hax
  · change ((b.mem.set32 l.currentLba _) l.bootDrive).toNat = drive
    rw [set32_of_outside _ _ (by omega), himage _ (by omega) (by omega) (by omega), h.bootDrive]
  · change (b.mem.set32 l.currentLba (b.mem.get32 l.currentLba + 64)).get32 l.currentLba = _
    have hcurrent : b.mem.get32 l.currentLba = s.machine.mem.get32 l.currentLba :=
      get32_congr fun i hi => himage _ (by omega) (by omega) (by omega)
    rw [get32_set32_same, hcurrent, h.currentLba]
    omega
  · change (b.mem.set32 l.currentLba _).get32 (l.dap + 12) = 0
    rw [get32_set32_of_disjoint _ _ (by omega), ← h.lbaHigh]
    exact get32_congr fun i hi => himage _ (by omega) (by omega) (by omega)
  · rw [h.reads, List.range_succ, List.map_append]
    rfl
  · intro _ i hi
    change (b.mem.set32 l.currentLba _) (0x10000 + i) = _
    rw [set32_of_outside _ _ (by omega)]
    by_cases hfirst : k = 0
    · subst hfirst
      exact hstored i hi
    · have hstart := chunk_start k
      rw [if_neg hfirst] at hstart
      have hcount : (chunk k).count = 64 := rfl
      have houtside : Kept (chunk k) (0x10000 + i) := by
        refine ⟨?_, .inr (by omega)⟩
        rintro ⟨-, hlt⟩
        omega
      rw [hkept _ houtside, hrequest.kept _ (by omega)]
      exact h.first (by omega) i hi

/-! ## The loop -/

theorem loadStart_loading (l : Stage2Labels) (disk : ℕ → ℕ → ℕ → UInt8) (s : RealMode) :
    Stage2.Loading l disk s.regs.dl 0 (loadStart l s) := by
  have hlba : l.currentLba + 4 = l.dap := rfl
  have hboot : l.bootDrive + 25 = l.dap := rfl
  have hdl : s.regs.dl < 256 := Nat.mod_lt _ (by decide)
  refine ⟨?_, ?_, ?_, ?_, ?_, ?_, rfl, fun h => absurd h (Nat.lt_irrefl 0)⟩
  · simp only [loadStart]
  · simp only [loadStart]
  · simp only [loadStart, if_true]
  · simp only [loadStart]
    rw [set32_of_outside _ _ (by omega), set8_same, UInt8.toNat_ofNat']
    omega
  · simp only [loadStart]
    rw [get32_set32_same, Nat.mod_eq_of_lt (by omega)]
  · simp only [loadStart]
    rw [get32_set32_of_disjoint _ _ (by omega),
      get32_congr fun i hi => set8_of_ne _ _ (by omega), get32_set32_same,
      Nat.mod_eq_of_lt (by omega)]

/-- The loop has made 16 turns when it ends without an error. -/
theorem loadLoop_loading (hedd : ObeysEdd disk int13) (n : ℕ) :
    ∀ k s, k < 16 → s.Loading l disk drive k → loadLoop l int13 n s = .loaded t →
      t.Loading l disk drive 16 := by
  induction n with
  | zero =>
      intro k s _ _ hrun
      cases hrun
  | succ n ih =>
      intro k s hk h hrun
      unfold loadLoop at hrun
      simp only at hrun
      by_cases hcf : (int13 (setUpRead l s.machine)).cf = true
      · rw [if_pos hcf] at hrun
        cases hrun
      · rw [if_neg hcf] at hrun
        have hnext := h.next hedd hk (by simpa using hcf)
        have hcx := hnext.cx
        by_cases hdone : (nextChunk l (int13 (setUpRead l s.machine))).regs.cx = 0
        · rw [if_pos hdone] at hrun
          rw [← LoadResult.loaded.inj hrun]
          simp only [hdone] at hcx
          have hlast : k = 15 := by omega
          rw [hlast] at hnext
          exact hnext
        · rw [if_neg hdone] at hrun
          simp only at hcx
          exact ih (k + 1) _ (by omega) hnext hrun

/-- With a BIOS whose reads succeed the loop ends. -/
theorem loadLoop_total (hedd : ObeysEdd disk int13)
    (hreads : ∀ s, s.regs.ah = 0x42 → (int13 s).cf = false) (n : ℕ) :
    ∀ k s, k + n = 15 → s.Loading l disk drive k → ∃ t, loadLoop l int13 (n + 1) s = .loaded t := by
  induction n with
  | zero =>
      intro k s hk h
      have hcf := hreads _ (setUpRead_requests h (by omega)).ah
      have hcx := (h.next hedd (by omega) hcf).cx
      unfold loadLoop
      simp only at hcx ⊢
      rw [if_neg (by simp [hcf]), if_pos (by omega)]
      exact ⟨_, rfl⟩
  | succ n ih =>
      intro k s hk h
      have hcf := hreads _ (setUpRead_requests h (by omega)).ah
      have hnext := h.next hedd (by omega) hcf
      have hcx := hnext.cx
      unfold loadLoop
      simp only at hcx ⊢
      rw [if_neg (by simp [hcf]), if_neg (by omega)]
      exact ih (k + 1) _ (by omega) hnext

/-! ## What is loaded -/

/-- The reads of a loop that ended without an error, and the part of the kernel they load. -/
theorem loadLoop_reads (hedd : ObeysEdd disk int13) (s : RealMode) (n : ℕ)
    (hrun : loadLoop l int13 n (loadStart l s) = .loaded t) :
    t.reads = (List.range 16).map chunk ∧
      ∀ i < 32768, t.machine.mem (0x10000 + i) = disk s.regs.dl (5 + i / 512) (i % 512) := by
  have hend := loadLoop_loading hedd n 0 _ (by decide) (loadStart_loading l disk s) hrun
  exact ⟨hend.reads, hend.first (by decide)⟩

/-- The kernel of 1024 sectors is in place, and nothing else was written by the reads. -/
structure KernelLoaded (disk : ℕ → ℕ → ℕ → UInt8) (drive : ℕ) (s : Stage2) : Prop where
  contents : ∀ i < 1024 * 512,
    s.machine.mem (0x10000 + i) = disk drive (5 + i / 512) (i % 512)
  inside : ∀ p ∈ s.reads, ∀ a, p.Covers a → 0x10000 ≤ a ∧ a < 0x90000

/-- The second chunk goes to the address 0x8000. -/
theorem chunk_outside : ∃ a, (chunk 1).Covers a ∧ a < 0x10000 :=
  ⟨0x8000, by unfold Packet.Covers; decide, by decide⟩

/-- Whatever is on the disk, the loop never loads the kernel contiguously. -/
theorem load_kernel_never (l : Stage2Labels) (disk : ℕ → ℕ → ℕ → UInt8)
    (int13 : RealMode → RealMode) (s : RealMode) (n : ℕ) (t : Stage2)
    (hedd : ObeysEdd disk int13) (hrun : loadLoop l int13 n (loadStart l s) = .loaded t) :
    ¬KernelLoaded disk s.regs.dl t := by
  intro hloaded
  obtain ⟨a, hcovers, hlow⟩ := chunk_outside
  have hreads := (loadLoop_reads hedd s n hrun).1
  have hmem : chunk 1 ∈ t.reads := by
    rw [hreads]
    decide
  have hinside := hloaded.inside _ hmem a hcovers
  omega

/-! ## A BIOS -/

theorem readSectors_mem (disk : ℕ → ℕ → ℕ → UInt8) (s : RealMode) :
    (readSectors disk s).mem =
      s.mem.fill (packetAt s.mem s.regs.si).start (512 * (packetAt s.mem s.regs.si).count)
        fun i => disk s.regs.dl ((packetAt s.mem s.regs.si).lba + i / 512) (i % 512) := rfl

theorem readSectors_obeys (disk : ℕ → ℕ → ℕ → UInt8) : ObeysEdd disk (readSectors disk) where
  registers _ _ _ := rfl
  stored s _ _ i hi := by
    rw [readSectors_mem, fill_inside _ _ hi]
  kept s _ _ a ha := by
    have hcovers := ha.1
    unfold Packet.Covers at hcovers
    rw [readSectors_mem, fill_outside _ _ (by omega)]

theorem readSectors_loads (l : Stage2Labels) (disk : ℕ → ℕ → ℕ → UInt8) (s : RealMode) :
    ∃ t, loadLoop l (readSectors disk) 16 (loadStart l s) = .loaded t :=
  loadLoop_total (readSectors_obeys disk) (fun _ _ => rfl) 15 0 _ rfl (loadStart_loading l disk s)

/-- A disk whose sectors hold their numbers. -/
def numberedDisk (_ sector _ : ℕ) : UInt8 := UInt8.ofNat sector

def someLabels : Stage2Labels := ⟨0x5100, by decide, by decide⟩

def someMachine : RealMode := ⟨⟨0, 0, 0x80, 0, 0, 0⟩, false, fun _ => 0⟩

theorem load_kernel_never_numbered :
    ∃ t, loadLoop someLabels (readSectors numberedDisk) 16 (loadStart someLabels someMachine) =
        .loaded t ∧ ¬KernelLoaded numberedDisk 0x80 t := by
  obtain ⟨t, ht⟩ := readSectors_loads someLabels numberedDisk someMachine
  exact ⟨t, ht, load_kernel_never _ _ _ _ _ _ (readSectors_obeys _) ht⟩

/-- The second read goes to 0x8000, not to 0x18000. -/
theorem load_kernel_second_chunk :
    ∃ t, loadLoop someLabels (readSectors numberedDisk) 16 (loadStart someLabels someMachine) =
        .loaded t ∧ t.reads[1]? = some ⟨64, 0, 0x0800, 69⟩ ∧ ¬KernelLoaded numberedDisk 0x80 t := by
  obtain ⟨t, ht⟩ := readSectors_loads someLabels numberedDisk someMachine
  have hreads := (loadLoop_reads (readSectors_obeys _) _ _ ht).1
  have hsecond : t.reads[1]? = some (chunk 1) := by
    rw [hreads]
    rfl
  refine ⟨t, ht, hsecond, fun hloaded => ?_⟩
  obtain ⟨a, hcovers, hlow⟩ := chunk_outside
  have hinside := hloaded.inside _ (List.mem_of_getElem? hsecond) a hcovers
  omega

end MyOS
