import MyOS.Model.Freed
import MyOS.Verification.Memory.Directory

/-! `paging_free_directory` from any active directory: it gives back the frames of the other
directory, each of them once, and touches two entries of the active window's table. -/

namespace MyOS

open Effect X86Paging ByteMemory Logged

variable {s : Machine} {t d : ℕ}

/-! ## The frames of a directory -/

/-- Frames behind the entries of a table. -/
def tableFrames (m : ByteMemory) (table : ℕ) : List ℕ :=
  (List.range 1024).flatMap fun j =>
    if present (entry m table j) then [frameOf (entry m table j)] else []

/-- Frames behind a directory entry, the table last. -/
def entryFrames (m : ByteMemory) (pde : ℕ) : List ℕ :=
  if present pde then tableFrames m (frameOf pde) ++ [frameOf pde] else []

/-- Frames behind entries 1 to `n` of a directory. -/
def userFrames (m : ByteMemory) (d n : ℕ) : List ℕ :=
  (List.range n).flatMap fun k => entryFrames m (entry m d (k + 1))

/-- Frames a directory owns: those behind entries 1 to 767, and its own. -/
def ownedFrames (m : ByteMemory) (d : ℕ) : List ℕ := userFrames m d 767 ++ [d]

theorem tableFrames_congr {m m' : ByteMemory} {f : ℕ}
    (h : ∀ j < 1024, entry m' f j = entry m f j) : tableFrames m' f = tableFrames m f := by
  unfold tableFrames
  apply List.flatMap_congr
  intro j hj
  rw [h j (List.mem_range.mp hj)]

theorem userFrames_succ (m : ByteMemory) (d n : ℕ) :
    userFrames m d (n + 1) = userFrames m d n ++ entryFrames m (entry m d (n + 1)) := by
  simp [userFrames, List.range_succ, List.flatMap_append]

theorem frameUsed_foldl_pmmFreeFrame (fs : List ℕ) (p : Pmm) (b : ℕ) :
    (fs.foldl pmmFreeFrame p).frameUsed b = true ↔
      p.frameUsed b = true ∧ ∀ f ∈ fs, f / 4096 ≠ b := by
  induction fs generalizing p with
  | nil => simp
  | cons f fs ih =>
    rw [List.foldl_cons, ih, frameUsed_pmmFreeFrame]
    simp only [Bool.and_eq_true, Bool.not_eq_true', decide_eq_false_iff_not, List.forall_mem_cons]
    rw [ne_comm, and_comm (b := p.frameUsed b = true), and_assoc]

/-- An allocation sets one bit. -/
theorem frameUsed_pmmAllocFrame_ne {p : Pmm} {b : ℕ} (hb : 4096 * b ≠ (pmmAllocFrame p).1) :
    (pmmAllocFrame p).2.frameUsed b = p.frameUsed b := by
  obtain ⟨f, -, -, -, hp⟩ | ⟨-, hp⟩ := pmmAllocFrame_cases p
  · rw [hp] at hb ⊢
    have hbf : b ≠ f := by
      rintro rfl
      exact hb (Nat.mul_comm _ _)
    simp [Pmm.frameUsed, hbf]
  · rw [hp]

theorem freeFrameNoted_apply (addr : ℕ) (u : Machine) (l : List ℕ) :
    freeFrameNoted addr (u, l) = .ok () ({ u with pmm := pmmFreeFrame u.pmm addr }, l ++ [addr]) :=
  rfl

/-! ## What the walk over a directory writes -/

/-- Only the last two entries of the table at `t` may differ. -/
def WindowOnly (m m' : ByteMemory) (t : ℕ) : Prop :=
  ∀ b i, b % 4096 = 0 → i < 1024 → (b = t → i < 1022) → entry m' b i = entry m b i

theorem WindowOnly.trans {m m' m'' : ByteMemory} (h : WindowOnly m m' t)
    (h' : WindowOnly m' m'' t) : WindowOnly m m'' t := by
  intro b i hb hi hbt
  rw [h' b i hb hi hbt, h b i hb hi hbt]

theorem windowOnly_set (m : ByteMemory) {j : ℕ} (ht : t % 4096 = 0) (hj : 1022 ≤ j)
    (hj' : j < 1024) (v : ℕ) : WindowOnly m (m.set32 (t + 4 * j) v) t := by
  intro b i hb hi hbt
  by_cases heq : b = t
  · have hi' := hbt heq
    rw [heq]
    exact entry_set32_index m t v (by omega)
  · exact entry_set32_frame m v ht hb hj' hi heq

theorem WindowTable.of_only (h : WindowTable s t) {m : ByteMemory} (ho : WindowOnly s.mem m t) :
    WindowTable { s with mem := m } t := by
  apply h.of_entries
  intro k hk
  exact ho s.cr3 k h.tables.aligned hk fun heq => absurd heq.symm h.ne_dir

/-- Pages other than the two of the window stay as they are mapped. -/
theorem WindowTable.walk_only (h : WindowTable s t) {m : ByteMemory} (ho : WindowOnly s.mem m t)
    {va : ℕ} (hva : va < 2 ^ 32) (hdir : va / 4096 ≠ tempPage 1022 / 4096)
    (htable : va / 4096 ≠ tempPage 1023 / 4096) : walk m s.cr3 va = walk s.mem s.cr3 va := by
  apply walk_congr
  · exact ho s.cr3 _ h.tables.aligned (by omega) fun heq => absurd heq.symm h.ne_dir
  · intro hp
    apply ho _ _ (frameOf_mod _) (by omega)
    intro heq
    by_cases hlast : va / 2 ^ 22 = 1023
    · rw [hlast, h.self.self] at heq
      exact absurd heq.symm h.ne_dir
    · -- the page lies in the window's table, but is none of its last two
      have hk : va / 2 ^ 22 = 1022 :=
        h.tables.apart _ (by omega) 1022 (by omega) hp h.linked (heq.trans h.frame.symm)
      unfold tempPage at hdir htable
      omega

theorem WindowTable.of_pmm (h : WindowTable s t) (p : Pmm) : WindowTable { s with pmm := p } t :=
  ⟨h.paging, h.self, h.tables, h.linked, h.frame⟩

/-! ## The loops -/

section Loops

variable (h : WindowTable s t)

include h

/-- The frames behind the table that the second page of the window shows are given back. -/
theorem WindowTable.freeTableFramesNoted_spec {f : ℕ} (hf : f % 4096 = 0)
    (hshown : entry s.mem t 1023 = f + 3) (p : Pmm) (l : List ℕ) :
    freeTableFramesNoted tempPagetableAddr ({ s with pmm := p }, l) =
      .ok () ({ s with pmm := (tableFrames s.mem f).foldl pmmFreeFrame p },
        l ++ tableFrames s.mem f) := by
  let frames : ℕ → List ℕ := fun n => (List.range n).flatMap fun j =>
    if present (entry s.mem f j) then [frameOf (entry s.mem f j)] else []
  let states : ℕ → Machine × List ℕ := fun n =>
    ({ s with pmm := (frames n).foldl pmmFreeFrame p }, l ++ frames n)
  have hsucc : ∀ n, frames (n + 1) = frames n ++
      if present (entry s.mem f n) then [frameOf (entry s.mem f n)] else [] := by
    intro n
    simp [frames, List.range_succ, List.flatMap_append]
  have hstart : states 0 = ({ s with pmm := p }, l) := by
    simp [states, frames]
  rw [← hstart]
  apply forRange_ok states
  intro n hn
  have hload := (h.of_pmm ((frames n).foldl pmmFreeFrame p)).load (show 1023 < 1024 by omega) hf
    hshown hn
  rw [← tempPagetableAddr_eq] at hload
  rw [bind_of_ok (quiet_ok hload (l ++ frames n))]
  change (if present (entry s.mem f n) then freeFrameNoted (frameOf (entry s.mem f n))
    else pure ()) (states n) = .ok () (states (n + 1))
  by_cases hp : present (entry s.mem f n)
  · have hnext : states (n + 1) =
        ({ s with pmm := pmmFreeFrame ((frames n).foldl pmmFreeFrame p) (frameOf (entry s.mem f n)) },
          l ++ frames n ++ [frameOf (entry s.mem f n)]) := by
      simp [states, hsucc, hp, List.foldl_append]
    rw [if_pos hp, hnext]
    rfl
  · have hnext : states (n + 1) = states n := by
      simp [states, hsucc, hp]
    rw [if_neg hp, hnext]
    rfl

/-- One round: nothing without a table, else the frames behind the table and the table itself
are given back. -/
theorem WindowTable.freeEntryNoted_spec {k : ℕ} (hk : k < 767) (hd : d % 4096 = 0)
    (hshown : entry s.mem t 1022 = d + 3)
    (hapart : present (entry s.mem d (k + 1)) → frameOf (entry s.mem d (k + 1)) ≠ t)
    (p : Pmm) (l : List ℕ) :
    ∃ m, (do
          let pde ← quiet (load32 (tempPagedirAddr + 4 * (k + 1)))
          if present pde then
            let kernelDirectory ← quiet (do return (← get).kernelDirectory)
            quiet (pagingMapPage kernelDirectory tempPagetableAddr (frameOf pde)
              (pagingFlagPresent ||| pagingFlagRw))
            freeTableFramesNoted tempPagetableAddr
            quiet (pagingMapPage kernelDirectory tempPagetableAddr 0 0)
            freeFrameNoted (frameOf pde)
          else
            pure () : Freeing Unit) ({ s with pmm := p }, l) =
        .ok () ({ s with
            mem := m
            pmm := (entryFrames s.mem (entry s.mem d (k + 1))).foldl pmmFreeFrame p },
          l ++ entryFrames s.mem (entry s.mem d (k + 1))) ∧
      WindowOnly s.mem m t ∧ entry m t 1022 = d + 3 := by
  have hload := (h.of_pmm p).load (show 1022 < 1024 by omega) hd hshown
    (show k + 1 < 1024 by omega)
  rw [← tempPagedirAddr_eq] at hload
  rw [bind_of_ok (quiet_ok hload l)]
  change ∃ m, (if present (entry s.mem d (k + 1)) then _ else _ : Freeing Unit) _ = _ ∧ _
  generalize hpde : entry s.mem d (k + 1) = pde at hapart
  by_cases hp : present pde
  · have hft := hapart hp
    have hflt : frameOf pde < 2 ^ 32 := by
      have hlt := entry_lt s.mem d (k + 1)
      have hle := frameOf_le pde
      omega
    have hor : frameOf pde ||| (pagingFlagPresent ||| pagingFlagRw) = frameOf pde + 3 :=
      or_eq_add (frameOf_mod pde) (by decide)
    have hlast : 1023 < 1024 := by omega
    have hmap := (h.of_pmm p).map hlast s.kernelDirectory (frameOf pde)
      (pagingFlagPresent ||| pagingFlagRw)
    rw [hor, ← tempPagetableAddr_eq] at hmap
    have hset := h.set hlast (frameOf pde + 3)
    have hentry : entry (s.mem.set32 (t + 4 * 1023) (frameOf pde + 3)) t 1023 =
        frameOf pde + 3 := by
      rw [entry_set32_same]
      have := frameOf_mod pde
      exact Nat.mod_eq_of_lt (by omega)
    have hframes : tableFrames (s.mem.set32 (t + 4 * 1023) (frameOf pde + 3)) (frameOf pde) =
        tableFrames s.mem (frameOf pde) := by
      apply tableFrames_congr
      intro j hj
      exact entry_set32_frame s.mem _ h.aligned (frameOf_mod pde) hlast hj hft
    have hfree := hset.freeTableFramesNoted_spec (frameOf_mod pde) hentry p l
    simp only [hframes] at hfree
    have hunmap := (hset.of_pmm ((tableFrames s.mem (frameOf pde)).foldl pmmFreeFrame p)).map hlast
      s.kernelDirectory 0 0
    rw [← tempPagetableAddr_eq] at hunmap
    refine ⟨_, ?_, (windowOnly_set s.mem h.aligned (by omega) hlast (frameOf pde + 3)).trans
      (windowOnly_set _ h.aligned (by omega) hlast (0 ||| 0)), ?_⟩
    · have hread : (do return (← get).kernelDirectory : Kernel ℕ) { s with pmm := p } =
          .ok s.kernelDirectory { s with pmm := p } := rfl
      rw [if_pos hp, bind_of_ok (quiet_ok hread l), bind_of_ok (quiet_ok hmap l), bind_of_ok hfree,
        bind_of_ok (quiet_ok hunmap _), entryFrames, if_pos hp, List.foldl_append,
        ← List.append_assoc]
      rfl
    · rw [entry_set32_index _ _ _ (by omega), entry_set32_index _ _ _ (by omega)]
      exact hshown
  · refine ⟨s.mem, ?_, fun _ _ _ _ _ => rfl, hshown⟩
    rw [if_neg hp, entryFrames, if_neg hp, List.append_nil]
    rfl

/-- From the open window on: the frames behind the entries of the directory and its own are
given back. -/
theorem WindowTable.freeShownNoted_spec (hd : d % 4096 = 0) (hshown : entry s.mem t 1022 = d + 3)
    (hapart : ∀ k < 767, present (entry s.mem d (k + 1)) → frameOf (entry s.mem d (k + 1)) ≠ t) :
    ∃ m, (do
          forRange 767 fun k => do
            let pde ← quiet (load32 (tempPagedirAddr + 4 * (k + 1)))
            if present pde then
              let kernelDirectory ← quiet (do return (← get).kernelDirectory)
              quiet (pagingMapPage kernelDirectory tempPagetableAddr (frameOf pde)
                (pagingFlagPresent ||| pagingFlagRw))
              freeTableFramesNoted tempPagetableAddr
              quiet (pagingMapPage kernelDirectory tempPagetableAddr 0 0)
              freeFrameNoted (frameOf pde)
            else
              pure ()
          quiet (pagingMapPage currentPageDir tempPagedirAddr 0 0)
          freeFrameNoted d : Freeing Unit) (s, []) =
        .ok () ({ s with mem := m, pmm := (ownedFrames s.mem d).foldl pmmFreeFrame s.pmm },
          ownedFrames s.mem d) ∧
      WindowOnly s.mem m t := by
  let inv : ℕ → Machine × List ℕ → Prop := fun k u => ∃ m,
    u = ({ s with mem := m, pmm := (userFrames s.mem d k).foldl pmmFreeFrame s.pmm },
      userFrames s.mem d k) ∧
    WindowOnly s.mem m t ∧ entry m t 1022 = d + 3
  have hstart : inv 0 (s, []) := ⟨s.mem, rfl, fun _ _ _ _ _ => rfl, hshown⟩
  have hstep : ∀ k u, k < 767 → inv k u → ∃ u', (do
      let pde ← quiet (load32 (tempPagedirAddr + 4 * (k + 1)))
      if present pde then
        let kernelDirectory ← quiet (do return (← get).kernelDirectory)
        quiet (pagingMapPage kernelDirectory tempPagetableAddr (frameOf pde)
          (pagingFlagPresent ||| pagingFlagRw))
        freeTableFramesNoted tempPagetableAddr
        quiet (pagingMapPage kernelDirectory tempPagetableAddr 0 0)
        freeFrameNoted (frameOf pde)
      else
        pure () : Freeing Unit) u = .ok () u' ∧ inv (k + 1) u' := by
    rintro k _ hk ⟨m, rfl, honly, hshown'⟩
    have hentry : entry m d (k + 1) = entry s.mem d (k + 1) :=
      honly d (k + 1) hd (by omega) (fun _ => by omega)
    have hframes : entryFrames m (entry m d (k + 1)) =
        entryFrames s.mem (entry s.mem d (k + 1)) := by
      rw [hentry, entryFrames, entryFrames]
      by_cases hp : present (entry s.mem d (k + 1))
      · have hft := hapart k hk hp
        rw [if_pos hp, if_pos hp, tableFrames_congr]
        intro j hj
        exact honly _ j (frameOf_mod _) hj fun heq => absurd heq hft
      · rw [if_neg hp, if_neg hp]
    obtain ⟨m', hrun, honly', hshown''⟩ := (h.of_only honly).freeEntryNoted_spec hk hd hshown'
      (by rw [hentry]; exact hapart k hk) ((userFrames s.mem d k).foldl pmmFreeFrame s.pmm)
      (userFrames s.mem d k)
    refine ⟨_, hrun, m', ?_, honly.trans honly', hshown''⟩
    simp only [hframes, userFrames_succ, List.foldl_append]
  obtain ⟨u, hloop, m, rfl, honly, -⟩ := forRange_total inv hstep hstart
  have hmap := ((h.of_only honly).of_pmm ((userFrames s.mem d 767).foldl pmmFreeFrame s.pmm)).map
    (show 1022 < 1024 by omega) currentPageDir 0 0
  rw [← tempPagedirAddr_eq] at hmap
  refine ⟨_, ?_, honly.trans
    (windowOnly_set m h.aligned (show 1022 ≤ 1022 by omega) (by omega) (0 ||| 0))⟩
  rw [bind_of_ok hloop, bind_of_ok (quiet_ok hmap _), freeFrameNoted_apply, ownedFrames,
    List.foldl_append, List.foldl_cons, List.foldl_nil]

end Loops

/-! ## Forgetting the log -/

theorem erases_freeFrameNoted (addr : ℕ) : Erases (freeFrameNoted addr) (freeFrame addr) :=
  (erases_quiet _).bind_note addr

theorem erases_freeTableFramesNoted (ptVirt : ℕ) :
    Erases (freeTableFramesNoted ptVirt) (freeTableFrames ptVirt) := by
  unfold freeTableFramesNoted freeTableFrames
  apply erases_forRange
  intro j
  apply (erases_quiet _).bind
  intro e
  exact (erases_freeFrameNoted _).ite (erases_pure ())

theorem erases_pagingFreeDirectoryNoted (dirPhys : ℕ) :
    Erases (pagingFreeDirectoryNoted dirPhys) (pagingFreeDirectory dirPhys) := by
  unfold pagingFreeDirectoryNoted pagingFreeDirectory
  refine (erases_pure ()).ite ?_
  apply (erases_quiet _).bind
  intro _
  apply Erases.bind
  · apply erases_forRange
    intro k
    apply (erases_quiet _).bind
    intro pde
    apply Erases.ite
    · apply erases_read
      intro u
      refine (erases_quiet _).bind fun _ => (erases_freeTableFramesNoted _).bind fun _ => ?_
      exact (erases_quiet _).bind fun _ => erases_freeFrameNoted _
    · exact erases_pure ()
  · intro _
    apply (erases_quiet _).bind
    intro _
    exact erases_freeFrameNoted _

/-! ## `paging_free_directory` -/

/-- A directory that owns its frames: they are distinct and in use, and none of its tables is the
active directory or the table of its window. -/
structure OwnsFrames (s : Machine) (d : ℕ) : Prop where
  ne_null : d ≠ 0
  nodup : (ownedFrames s.mem d).Nodup
  used : ∀ f ∈ ownedFrames s.mem d, s.pmm.UsedFrame f
  apart : ∀ k < 767, present (entry s.mem d (k + 1)) →
    frameOf (entry s.mem d (k + 1)) ≠ s.cr3 ∧
      (present (entry s.mem s.cr3 1022) →
        frameOf (entry s.mem d (k + 1)) ≠ frameOf (entry s.mem s.cr3 1022))

theorem mem_ownedFrames_table {m : ByteMemory} {k : ℕ} (hk : k < 767)
    (hp : present (entry m d (k + 1))) : frameOf (entry m d (k + 1)) ∈ ownedFrames m d := by
  unfold ownedFrames userFrames
  apply List.mem_append_left
  rw [List.mem_flatMap]
  refine ⟨k, List.mem_range.mpr hk, ?_⟩
  rw [entryFrames, if_pos hp]
  simp

theorem ownedFrames_congr {m m' : ByteMemory}
    (hdir : ∀ k < 767, entry m' d (k + 1) = entry m d (k + 1))
    (htable : ∀ k < 767, present (entry m d (k + 1)) → ∀ j < 1024,
      entry m' (frameOf (entry m d (k + 1))) j = entry m (frameOf (entry m d (k + 1))) j) :
    ownedFrames m' d = ownedFrames m d := by
  have hlist : userFrames m' d 767 = userFrames m d 767 := by
    unfold userFrames
    apply List.flatMap_congr
    intro k hk
    have hk' := List.mem_range.mp hk
    rw [hdir k hk', entryFrames, entryFrames]
    by_cases hp : present (entry m d (k + 1))
    · rw [if_pos hp, if_pos hp, tableFrames_congr (htable k hk' hp)]
    · rw [if_neg hp, if_neg hp]
  rw [ownedFrames, ownedFrames, hlist]

/-- Showing the directory changes none of its frames. -/
theorem OwnsFrames.opened {s' : Machine} (hd : OwnsFrames s d) (ho : WindowOpened s 1022 d t s') :
    ownedFrames s'.mem d = ownedFrames s.mem d ∧
      ∀ k < 767, present (entry s'.mem d (k + 1)) → frameOf (entry s'.mem d (k + 1)) ≠ t := by
  have hdused : s.pmm.UsedFrame d := hd.used d (by simp [ownedFrames])
  have hdir : ∀ k < 767, entry s'.mem d (k + 1) = entry s.mem d (k + 1) := by
    intro k hk
    exact ho.kept d (k + 1) hdused (by omega) (fun _ _ => by omega) (fun _ => by omega)
  have hne : ∀ k < 767, present (entry s.mem d (k + 1)) → frameOf (entry s.mem d (k + 1)) ≠ t := by
    intro k hk hp
    obtain ⟨hfound, ht, -⟩ | ⟨-, ht, hnull, -⟩ := ho.found
    · rw [ht]
      exact (hd.apart k hk hp).2 hfound
    · intro heq
      have hused := hd.used _ (mem_ownedFrames_table hk hp)
      rw [ht] at heq hnull
      rw [heq] at hused
      exact (usedFrame_pmmAllocFrame hnull).2.2.1 hused
  refine ⟨ownedFrames_congr hdir ?_, ?_⟩
  · intro k hk hp j hj
    apply ho.kept _ _ (hd.used _ (mem_ownedFrames_table hk hp)) hj
    · intro heq
      exact absurd heq (hd.apart k hk hp).1
    · intro heq
      exact absurd heq (hne k hk hp)
  · intro k hk hp
    rw [hdir k hk] at hp ⊢
    exact hne k hk hp

/-- Tearing down a directory gives back the frames it owns, each of them once, and no other.
Where the window has no table yet, one frame is taken for it. -/
theorem paging_free_directory_exact (s : Machine) (h : OwnDirectory s) (hroom : WindowRoom s)
    (d : ℕ) (hd : OwnsFrames s d) :
    ∃ s' freed, pagingFreeDirectoryNoted d (s, []) = .ok () (s', freed) ∧
      pagingFreeDirectory d s = .ok () s' ∧
      freed.Nodup ∧ (∀ f, f ∈ freed ↔ f ∈ ownedFrames s.mem d) ∧
      (∀ f ∈ ownedFrames s.mem d, s'.pmm.frameUsed (f / 4096) = false) ∧
      (∀ b, 4096 * b ∉ ownedFrames s.mem d →
        present (entry s.mem s.cr3 1022) ∨ 4096 * b ≠ (pmmAllocFrame s.pmm).1 →
        s'.pmm.frameUsed b = s.pmm.frameUsed b) ∧
      s'.cr3 = s.cr3 ∧
      ∀ va < 2 ^ 32, va / 4096 ≠ tempPagedirAddr / 4096 → va / 4096 ≠ tempPagetableAddr / 4096 →
        present (entry s.mem s.cr3 1022) ∨ va / 4096 ≠ 0xFFFFE →
        walk s'.mem s.cr3 va = walk s.mem s.cr3 va := by
  have hdused : s.pmm.UsedFrame d := hd.used d (by simp [ownedFrames])
  have hdlt : d < 2 ^ 32 := by
    have hsize := s.pmm.pmmBitmapSize_le
    have hcap := hdused.2.1
    unfold Pmm.capacity at hcap
    omega
  obtain ⟨t, u, hopen, ho⟩ := h.open_window (show 1022 < 1024 by omega) currentPageDir hdused.1
    hdlt hroom
  obtain ⟨hframes, hapart⟩ := hd.opened ho
  have hcr3 : u.cr3 = s.cr3 := by rw [ho.same]
  obtain ⟨m, hrun, honly⟩ := ho.table.freeShownNoted_spec hdused.1 ho.shown hapart
  rw [hframes] at hrun
  have hnoted : pagingFreeDirectoryNoted d (s, []) =
      .ok () ({ u with mem := m, pmm := (ownedFrames s.mem d).foldl pmmFreeFrame u.pmm },
        ownedFrames s.mem d) := by
    rw [← tempPagedirAddr_eq] at hopen
    unfold pagingFreeDirectoryNoted
    rw [if_neg hd.ne_null, bind_of_ok (quiet_ok hopen [])]
    exact hrun
  have hplain := (erases_pagingFreeDirectoryNoted d).ok hnoted
  have haligned : ∀ f ∈ ownedFrames s.mem d, f % 4096 = 0 := fun f hf => (hd.used f hf).1
  have hnodup := hd.nodup
  generalize ownedFrames s.mem d = frames at hnoted hplain haligned hnodup
  refine ⟨_, frames, hnoted, hplain, hnodup, fun _ => Iff.rfl, ?_, ?_, hcr3, ?_⟩
  · intro f hf
    rw [Bool.eq_false_iff]
    intro htrue
    rw [frameUsed_foldl_pmmFreeFrame] at htrue
    exact htrue.2 f hf rfl
  · intro b hb hnew
    have hopened : u.pmm.frameUsed b = s.pmm.frameUsed b := by
      obtain ⟨-, -, hpmm⟩ | ⟨habs, ht, hnull, hpmm⟩ := ho.found
      · rw [hpmm]
      · rw [hpmm]
        exact frameUsed_pmmAllocFrame_ne (hnew.resolve_left habs)
    have hout : ∀ f ∈ frames, f / 4096 ≠ b := by
      rintro f hf rfl
      rw [Nat.mul_div_cancel' (Nat.dvd_of_mod_eq_zero (haligned f hf))] at hb
      exact hb hf
    rw [← hopened, Bool.eq_iff_iff, frameUsed_foldl_pmmFreeFrame]
    exact and_iff_left hout
  · intro va hva hdir htable hnew
    rw [tempPagedirAddr_eq] at hdir
    rw [tempPagetableAddr_eq] at htable
    have hkept := ho.table.walk_only honly hva hdir htable
    rw [hcr3] at hkept
    rw [hkept]
    by_cases hlow : va < 0xFFC00000
    · exact ho.pages va hlow hdir
    · exact ho.walk_recursive h (by omega) hva hnew

/-- A directory at `0x3000` with one table at `0x4000` and one page behind it. -/
def onePage : ByteMemory := (ByteMemory.set32 (fun _ => 0) 0x3004 0x4007).set32 0x4000 0x5007

theorem onePage_bitmapSize_le : 4 ≤ 2 ^ 17 := by decide

/-- The frames of that directory are in use too. -/
def onePageMachine (bitmap : BitVec 32) : Machine :=
  { identityMachine onePage with
    pmm := { pmmBitmap := fun _ => bitmap, pmmTotalFrames := 32, pmmBitmapSize := 4,
             pmmBitmapSize_le := onePage_bitmapSize_le } }

theorem onePage_frames (bitmap : BitVec 32) :
    ownedFrames (onePageMachine bitmap).mem 0x3000 = [0x5000, 0x4000, 0x3000] := by
  change ownedFrames (identityMachine onePage).mem 0x3000 = _
  decide +kernel

theorem onePage_own {bitmap : BitVec 32} (hdir : (onePageMachine bitmap).pmm.UsedFrame 0x1000)
    (htable : (onePageMachine bitmap).pmm.UsedFrame 0x2000) : OwnDirectory (onePageMachine bitmap) :=
  HasIdentity.own (s := onePageMachine bitmap) (hasIdentity_identityMachine onePage) rfl rfl hdir
    htable

/-- The active directory has no window table. -/
theorem onePage_window (bitmap : BitVec 32) :
    ¬present (entry (onePageMachine bitmap).mem (onePageMachine bitmap).cr3 1022) := by
  intro hp
  have hzero := (hasIdentity_identityMachine onePage).present_directory (by omega) hp
  omega

theorem onePage_owns {bitmap : BitVec 32}
    (hused : ∀ f ∈ [0x5000, 0x4000, 0x3000], (onePageMachine bitmap).pmm.UsedFrame f) :
    OwnsFrames (onePageMachine bitmap) 0x3000 := by
  refine ⟨by decide, ?_, ?_, ?_⟩
  · rw [onePage_frames]
    decide
  · rw [onePage_frames]
    exact hused
  · intro k hk hp
    have hmem := mem_ownedFrames_table hk hp
    rw [onePage_frames] at hmem
    refine ⟨?_, fun hwindow => absurd hwindow (onePage_window bitmap)⟩
    intro heq
    rw [heq] at hmem
    change 0x1000 ∈ [0x5000, 0x4000, 0x3000] at hmem
    exact absurd hmem (by decide)

/-- Frame 6 becomes the table of the window, and frames 3 to 5 are free again. -/
theorem paging_free_directory_exact_one_page :
    ∃ s' freed, pagingFreeDirectoryNoted 0x3000 (onePageMachine 63#32, []) = .ok () (s', freed) ∧
      freed.Nodup ∧ (∀ f, f ∈ freed ↔ f ∈ [0x5000, 0x4000, 0x3000]) ∧
      s'.pmm.frameUsed 5 = false ∧ s'.pmm.frameUsed 4 = false ∧ s'.pmm.frameUsed 3 = false ∧
      s'.pmm.frameUsed 2 = true := by
  have hown : OwnDirectory (onePageMachine 63#32) :=
    onePage_own ⟨by decide, by decide, by decide⟩ ⟨by decide, by decide, by decide⟩
  have haddr : (pmmAllocFrame (onePageMachine 63#32).pmm).1 = 0x6000 := by decide
  have hroom : WindowRoom (onePageMachine 63#32) := by
    intro _
    rw [haddr]
    refine ⟨by decide, ?_⟩
    intro o ho
    exact (hasIdentity_identityMachine onePage).translate (by omega)
  have howns : OwnsFrames (onePageMachine 63#32) 0x3000 := by
    apply onePage_owns
    intro f hf
    fin_cases hf <;> exact ⟨by decide, by decide, by decide⟩
  obtain ⟨s', freed, hrun, -, hnodup, hfreed, hclear, hkept, -, -⟩ :=
    paging_free_directory_exact (onePageMachine 63#32) hown hroom 0x3000 howns
  rw [onePage_frames] at hfreed hclear hkept
  refine ⟨s', freed, hrun, hnodup, hfreed, hclear 0x5000 (by decide), hclear 0x4000 (by decide),
    hclear 0x3000 (by decide), ?_⟩
  rw [hkept 2 (by decide) (.inr (by rw [haddr]; decide))]
  decide

/-- Without a free frame for the window's table nothing is shown, and reading the directory
faults: no frame is given back. -/
theorem paging_free_directory_faults :
    OwnDirectory (onePageMachine 0xFFFFFFFF#32) ∧ OwnsFrames (onePageMachine 0xFFFFFFFF#32) 0x3000 ∧
      ∀ s', pagingFreeDirectory 0x3000 (onePageMachine 0xFFFFFFFF#32) ≠ .ok () s' := by
  have hown : OwnDirectory (onePageMachine 0xFFFFFFFF#32) :=
    onePage_own ⟨by decide, by decide, by decide⟩ ⟨by decide, by decide, by decide⟩
  have howns : OwnsFrames (onePageMachine 0xFFFFFFFF#32) 0x3000 := by
    apply onePage_owns
    intro f hf
    fin_cases hf <;> exact ⟨by decide, by decide, by decide⟩
  refine ⟨hown, howns, ?_⟩
  intro s' hrun
  have hmap := pagingMapPage_null hown.paging hown.self
    (show tempPagedirAddr < 2 ^ 32 by decide) currentPageDir 0x3000
    (pagingFlagPresent ||| pagingFlagRw) (onePage_window 0xFFFFFFFF#32) (by decide)
  unfold pagingFreeDirectory at hrun
  rw [if_neg (by decide), bind_of_ok hmap] at hrun
  obtain ⟨⟨⟩, t, hloop, -⟩ := bind_eq_ok.mp hrun
  obtain ⟨u, hfirst⟩ := forRange_first hloop
  obtain ⟨pde, v, hload, -⟩ := bind_eq_ok.mp hfirst
  obtain ⟨b, w, hbyte, -⟩ := bind_eq_ok.mp hload
  obtain ⟨pa, htranslate, -⟩ := load8_ok hbyte
  have hwalk : X86Paging.translate (onePageMachine 0xFFFFFFFF#32).mem 0x1000
      (tempPagedirAddr + 4 * (0 + 1)) = some pa := htranslate
  exact onePage_window 0xFFFFFFFF#32 (translate_eq_some.mp hwalk).1

end MyOS
