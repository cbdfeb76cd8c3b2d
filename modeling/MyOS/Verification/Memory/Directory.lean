import MyOS.Verification.Memory.MapPage
import MyOS.Verification.Memory.Window

/-! The temporary window of any active directory: frames are shown at one of its pages, and
nothing else is mapped differently. -/

namespace MyOS

open Effect X86Paging ByteMemory

variable {s s' : Machine} {t : ℕ}

/-! ## Entries of tables -/

theorem tempPage_indices {j : ℕ} (hj : j < 1024) :
    tempPage j / 2 ^ 22 = 1022 ∧ tempPage j / 4096 % 1024 = j ∧ tempPage j < 0xFFC00000 := by
  unfold tempPage
  omega

/-- A frame that holds neither the directory nor one of its tables. -/
structure Outside (m : ByteMemory) (dir d : ℕ) : Prop where
  aligned : d % 4096 = 0
  ne_dir : d ≠ dir
  ne_table : ∀ k < 1023, present (entry m dir k) → frameOf (entry m dir k) ≠ d

section Outside

variable {m m' : ByteMemory} {dir d : ℕ} (h : Outside m dir d)
  (hm : ∀ x, x < d ∨ d + 4096 ≤ x → m' x = m x)

include h hm

theorem Outside.entry_frame {f i : ℕ} (hf : f % 4096 = 0) (hne : f ≠ d) (hi : i < 1024) :
    entry m' f i = entry m f i := by
  have hd := h.aligned
  apply entry_congr hi
  intro o ho
  exact hm _ (by omega)

/-- Writes to such a frame change no mapping. -/
theorem Outside.walk {va : ℕ} (hdir : dir % 4096 = 0) (hva : va < 0xFFC00000) :
    MyOS.walk m' dir va = MyOS.walk m dir va := by
  apply walk_congr
  · exact h.entry_frame hm hdir h.ne_dir.symm (by omega)
  · intro hp
    exact h.entry_frame hm (frameOf_mod _) (h.ne_table _ (by omega) hp) (by omega)

end Outside

/-! ## The window's table -/

/-- The active directory has the table `t` for its temporary window. -/
structure WindowTable (s : Machine) (t : ℕ) : Prop where
  paging : s.paging = true
  self : SelfMapped s.mem s.cr3
  tables : TablesApart s.mem s.cr3
  linked : present (entry s.mem s.cr3 1022)
  frame : frameOf (entry s.mem s.cr3 1022) = t

theorem WindowTable.aligned (h : WindowTable s t) : t % 4096 = 0 := by
  rw [← h.frame]
  exact frameOf_mod _

theorem WindowTable.ne_dir (h : WindowTable s t) : t ≠ s.cr3 := by
  rw [← h.frame]
  exact h.tables.ne_dir 1022 (by omega) h.linked

/-- Only the entries of the directory matter. -/
theorem WindowTable.of_entries (h : WindowTable s t) {m : ByteMemory}
    (he : ∀ k < 1024, entry m s.cr3 k = entry s.mem s.cr3 k) :
    WindowTable { s with mem := m } t := by
  constructor
  · exact h.paging
  · exact h.self.congr (he 1023 (by omega))
  · constructor
    · exact h.tables.aligned
    · intro k hk hp
      rw [he k (by omega)] at hp ⊢
      exact h.tables.ne_dir k hk hp
    · intro k hk k' hk' hp hp' heq
      rw [he k (by omega)] at hp heq
      rw [he k' (by omega)] at hp' heq
      exact h.tables.apart k hk k' hk' hp hp' heq
  · rw [he 1022 (by omega)]
    exact h.linked
  · rw [he 1022 (by omega)]
    exact h.frame

section WindowTable

variable (h : WindowTable s t) {j : ℕ} (hj : j < 1024)

include h hj

/-- Mapping a page of the window writes one entry of its table. -/
theorem WindowTable.map (dir phys flags : ℕ) :
    pagingMapPage dir (tempPage j) phys flags s =
      .ok () { s with mem := s.mem.set32 (t + 4 * j) (phys ||| flags) } := by
  obtain ⟨hk, hidx, hlt⟩ := tempPage_indices hj
  have hmap := pagingMapPage_present h.paging h.self (show tempPage j < 2 ^ 32 by omega) dir phys
    flags (by rw [hk]; exact h.linked)
  rw [hk, hidx, h.frame] at hmap
  exact hmap

theorem WindowTable.set (v : ℕ) :
    WindowTable { s with mem := s.mem.set32 (t + 4 * j) v } t := by
  apply h.of_entries
  intro k hk
  exact entry_set32_frame s.mem v h.aligned h.tables.aligned hj hk h.ne_dir.symm

/-- Every other page stays as it is mapped. -/
theorem WindowTable.walk_set {va : ℕ} (hva : va < 0xFFC00000)
    (hne : va / 4096 ≠ tempPage j / 4096) (v : ℕ) :
    walk (s.mem.set32 (t + 4 * j) v) s.cr3 va = walk s.mem s.cr3 va := by
  obtain ⟨hk, hidx, hlt⟩ := tempPage_indices hj
  have hother := walk_set_other h.tables hlt (by rw [hk]; exact h.linked) v hva hne
  rw [hk, hidx, h.frame] at hother
  exact hother

/-- A page whose entry is zero is not mapped. -/
theorem WindowTable.walk_none (hentry : entry s.mem t j = 0) : walk s.mem s.cr3 (tempPage j) = none := by
  obtain ⟨hk, hidx, -⟩ := tempPage_indices hj
  have hzero : ¬present 0 := by decide
  simp only [walk, hk, hidx, if_pos h.linked, h.frame, hentry, if_neg hzero]

theorem WindowTable.translate {f o : ℕ} (hf : f % 4096 = 0) (hentry : entry s.mem t j = f + 3)
    (ho : o < 4096) : s.translate (tempPage j + o) = some (f + o) := by
  have hpage : (tempPage j + o) / 2 ^ 22 = 1022 ∧ (tempPage j + o) / 4096 % 1024 = j ∧
      (tempPage j + o) % 4096 = o ∧ tempPage j + o < 2 ^ 32 := by
    unfold tempPage
    omega
  obtain ⟨hk, hidx, hoff, hlt⟩ := hpage
  rw [translate_eq h.paging hlt, translate_eq_some, hk, hidx, hoff, h.frame, hentry,
    frameOf_add hf (by omega)]
  exact ⟨h.linked, present_add hf (by omega), rfl⟩

/-- Reading an entry of the table that a page of the window shows. -/
theorem WindowTable.load {f k : ℕ} (hf : f % 4096 = 0) (hentry : entry s.mem t j = f + 3)
    (hk : k < 1024) : load32 (tempPage j + 4 * k) s = .ok (entry s.mem f k) s := by
  apply load32_eq
  intro i hi
  rw [Nat.add_assoc, Nat.add_assoc]
  exact h.translate hj hf hentry (by omega)

end WindowTable

/-! ## Opening the window -/

/-- What showing the frame at `f` at page `j` of the window does, when its table is found or
made. -/
structure WindowOpened (s : Machine) (j f t : ℕ) (s' : Machine) : Prop where
  same : s' = { s with mem := s'.mem, pmm := s'.pmm, trace := s'.trace }
  table : WindowTable s' t
  shown : entry s'.mem t j = f + 3
  found : present (entry s.mem s.cr3 1022) ∧ t = frameOf (entry s.mem s.cr3 1022) ∧
      s'.pmm = s.pmm ∨
    ¬present (entry s.mem s.cr3 1022) ∧ t = (pmmAllocFrame s.pmm).1 ∧ t ≠ 0 ∧
      s'.pmm = (pmmAllocFrame s.pmm).2
  kept : ∀ b i, s.pmm.UsedFrame b → i < 1024 →
    (b = s.cr3 → ¬present (entry s.mem s.cr3 1022) → i ≠ 1022) → (b = t → i ≠ j) →
    entry s'.mem b i = entry s.mem b i
  pages : ∀ va < 0xFFC00000, va / 4096 ≠ tempPage j / 4096 →
    walk s'.mem s.cr3 va = walk s.mem s.cr3 va

/-- The window on the tables shows the same frames, but for a new table. -/
theorem WindowOpened.walk_recursive {j f : ℕ} (ho : WindowOpened s j f t s')
    (h : OwnDirectory s) {va : ℕ} (hlow : 0xFFC00000 ≤ va) (hva : va < 2 ^ 32)
    (hne : present (entry s.mem s.cr3 1022) ∨ va / 4096 ≠ 0xFFFFE) :
    walk s'.mem s.cr3 va = walk s.mem s.cr3 va := by
  have hcr3 : s'.cr3 = s.cr3 := by rw [ho.same]
  have hkept : ∀ i < 1024, (¬present (entry s.mem s.cr3 1022) → i ≠ 1022) →
      entry s'.mem s.cr3 i = entry s.mem s.cr3 i := by
    intro i hi hi'
    apply ho.kept _ _ h.used hi (fun _ => hi')
    intro heq
    exact absurd (hcr3.trans heq).symm ho.table.ne_dir
  have hk : va / 2 ^ 22 = 1023 := by omega
  apply walk_congr
  · rw [hk]
    exact hkept 1023 (by omega) (fun _ => by omega)
  · intro _
    rw [hk, h.self.self]
    apply hkept _ (by omega)
    intro hnew
    have hpage := hne.resolve_left hnew
    omega

/-- The frame for a new window table, where one is needed, is there and can be reached at its
physical address. -/
def WindowRoom (s : Machine) : Prop :=
  ¬present (entry s.mem s.cr3 1022) → (pmmAllocFrame s.pmm).1 ≠ 0 ∧ ∀ o < 4096,
    X86Paging.translate s.mem s.cr3 ((pmmAllocFrame s.pmm).1 + o) =
      some ((pmmAllocFrame s.pmm).1 + o)

theorem OwnDirectory.windowTable (h : OwnDirectory s) (hp : present (entry s.mem s.cr3 1022)) :
    WindowTable s (frameOf (entry s.mem s.cr3 1022)) :=
  ⟨h.paging, h.self, h.tables, hp, rfl⟩

section Open

variable {j f : ℕ} (h : OwnDirectory s) (hj : j < 1024) (dir : ℕ) (hf : f % 4096 = 0)
  (hlt : f < 2 ^ 32)

include h hj hf hlt

theorem OwnDirectory.open_found (hp : present (entry s.mem s.cr3 1022)) :
    ∃ s', pagingMapPage dir (tempPage j) f (pagingFlagPresent ||| pagingFlagRw) s = .ok () s' ∧
      WindowOpened s j f (frameOf (entry s.mem s.cr3 1022)) s' := by
  have hwindow := h.windowTable hp
  have hmap := hwindow.map hj dir f (pagingFlagPresent ||| pagingFlagRw)
  have hor : f ||| (pagingFlagPresent ||| pagingFlagRw) = f + 3 := or_eq_add hf (by decide)
  rw [hor] at hmap
  refine ⟨_, hmap, ?_⟩
  constructor
  · rfl
  · exact hwindow.set hj _
  · rw [entry_set32_same]
    exact Nat.mod_eq_of_lt (by omega)
  · exact .inl ⟨hp, rfl, rfl⟩
  · intro b i hb hi _ hbt
    by_cases heq : b = frameOf (entry s.mem s.cr3 1022)
    · rw [heq]
      exact entry_set32_index s.mem _ _ (hbt heq)
    · exact entry_set32_frame s.mem _ hwindow.aligned hb.1 hj hi heq
  · intro va hva hne
    exact hwindow.walk_set hj hva hne _

theorem OwnDirectory.open_new (hp : ¬present (entry s.mem s.cr3 1022))
    (hne : (pmmAllocFrame s.pmm).1 ≠ 0)
    (hreach : ∀ o < 4096, X86Paging.translate s.mem s.cr3 ((pmmAllocFrame s.pmm).1 + o) =
      some ((pmmAllocFrame s.pmm).1 + o)) :
    ∃ s', pagingMapPage dir (tempPage j) f (pagingFlagPresent ||| pagingFlagRw) s = .ok () s' ∧
      WindowOpened s j f (pmmAllocFrame s.pmm).1 s' := by
  obtain ⟨hk, hidx, hpage⟩ := tempPage_indices hj
  obtain ⟨hta, -, hfresh, -⟩ := usedFrame_pmmAllocFrame hne
  have htlt := alloc_lt hne
  have hdir : s.cr3 ≠ (pmmAllocFrame s.pmm).1 := by
    intro heq
    exact hfresh (heq ▸ h.used)
  have hfree : ∀ k < 1023, present (entry s.mem s.cr3 k) →
      frameOf (entry s.mem s.cr3 k) ≠ (pmmAllocFrame s.pmm).1 := by
    intro k hk hpk heq
    exact hfresh (heq ▸ h.table_used k hk hpk)
  have hmap := pagingMapPage_new h.paging h.self (show tempPage j < 2 ^ 32 by omega) dir f
    (pagingFlagPresent ||| pagingFlagRw) (by rw [hk]; exact hp) rfl hne hta htlt hdir (by decide)
    fun m hm o ho => (translate_eq (s := { s with mem := m }) h.paging (by omega)).trans
      (h.zero_reaches hne ho (hreach o ho) hm)
  have hor : f ||| (pagingFlagPresent ||| pagingFlagRw) = f + 3 := or_eq_add hf (by decide)
  have hflags : (pagingFlagPresent ||| pagingFlagRw) % 8 = 3 := by decide
  rw [hk, hidx, hor, hflags] at hmap
  have hlinked := tablesApart_linkTable (k := 1022) h.tables hta hdir.symm htlt
    (show 3 < 8 by omega) hfree
  have hentry : entry (linkTable s.mem s.cr3 1022 (pmmAllocFrame s.pmm).1 3) s.cr3 1022 =
      (pmmAllocFrame s.pmm).1 + 3 := linkTable_entry hta htlt (by omega)
  have hself : SelfMapped (linkTable s.mem s.cr3 1022 (pmmAllocFrame s.pmm).1 3) s.cr3 :=
    h.self.congr (linkTable_directory h.tables hta hdir.symm (by omega) (by omega))
  have hwindow : WindowTable
      { s with mem := linkTable s.mem s.cr3 1022 (pmmAllocFrame s.pmm).1 3 }
      (pmmAllocFrame s.pmm).1 := by
    refine ⟨h.paging, hself, hlinked, ?_, ?_⟩
    · exact hentry ▸ present_add hta (by omega)
    · exact hentry ▸ frameOf_add hta (by omega)
  refine ⟨_, hmap, ?_⟩
  constructor
  · rfl
  · have hset := hwindow.set hj (f + 3)
    exact ⟨hset.paging, hset.self, hset.tables, hset.linked, hset.frame⟩
  · rw [entry_set32_same]
    exact Nat.mod_eq_of_lt (by omega)
  · exact .inr ⟨hp, rfl, hne, rfl⟩
  · intro b i hb hi hbdir _
    have hbt : b ≠ (pmmAllocFrame s.pmm).1 := by
      rintro rfl
      exact hfresh hb
    have hba := hb.1
    have hfill : entry (s.mem.fill (pmmAllocFrame s.pmm).1 4096 fun _ => 0) b i =
        entry s.mem b i := by
      apply entry_congr hi
      intro o ho
      exact fill_outside s.mem _ (by omega)
    rw [entry_set32_frame _ _ hta hba hj hi hbt]
    by_cases heq : b = s.cr3
    · subst heq
      rw [entry_set32_index _ _ _ (hbdir rfl hp), hfill]
    · rw [entry_set32_frame _ _ h.tables.aligned hba (by omega) hi heq, hfill]
  · intro va hva hne'
    have hset := hwindow.walk_set hj hva hne' (f + 3)
    have hlink := walk_linkTable h.tables (show 1022 < 1023 by omega) hta hdir.symm htlt
      (show 3 < 8 by omega) hfree hp hva
    exact hset.trans hlink

/-- Showing a frame takes a frame for the window's table, if it has none. -/
theorem OwnDirectory.open_window (hroom : WindowRoom s) :
    ∃ t s', pagingMapPage dir (tempPage j) f (pagingFlagPresent ||| pagingFlagRw) s = .ok () s' ∧
      WindowOpened s j f t s' := by
  by_cases hp : present (entry s.mem s.cr3 1022)
  · exact ⟨_, h.open_found hj dir hf hlt hp⟩
  · obtain ⟨hne, hreach⟩ := hroom hp
    exact ⟨_, h.open_new hj dir hf hlt hp hne hreach⟩

end Open

end MyOS
