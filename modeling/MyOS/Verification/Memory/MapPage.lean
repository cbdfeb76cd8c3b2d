import MyOS.Verification.Memory.Identity
import MyOS.Verification.Memory.Spaces

/-! `paging_map_page` against the walk of the processor: the page it is asked for is mapped and
every other page is left as it was, though the tables are edited through addresses that the
tables themselves translate. -/

namespace MyOS

open Effect X86Paging ByteMemory

/-- The frame behind `va` and the flags of its table entry. -/
def walk (m : ByteMemory) (dir va : ℕ) : Option (ℕ × ℕ) :=
  let pde := entry m dir (va / 2 ^ 22)
  if present pde then
    let pte := entry m (frameOf pde) (va / 4096 % 1024)
    if present pte then some (frameOf pte, pte % 4096) else none
  else
    none

theorem walk_congr {m m' : ByteMemory} {dir va : ℕ}
    (hd : entry m' dir (va / 2 ^ 22) = entry m dir (va / 2 ^ 22))
    (ht : present (entry m dir (va / 2 ^ 22)) →
      entry m' (frameOf (entry m dir (va / 2 ^ 22))) (va / 4096 % 1024) =
        entry m (frameOf (entry m dir (va / 2 ^ 22))) (va / 4096 % 1024)) :
    walk m' dir va = walk m dir va := by
  unfold walk
  rw [hd]
  by_cases hp : present (entry m dir (va / 2 ^ 22))
  · simp only [if_pos hp, ht hp]
  · simp only [if_neg hp]

/-- The directory and its tables, the window on them apart, lie in frames of their own. -/
structure TablesApart (m : ByteMemory) (dir : ℕ) : Prop where
  aligned : dir % 4096 = 0
  ne_dir : ∀ k < 1023, present (entry m dir k) → frameOf (entry m dir k) ≠ dir
  apart : ∀ k < 1023, ∀ k' < 1023, present (entry m dir k) → present (entry m dir k') →
    frameOf (entry m dir k) = frameOf (entry m dir k') → k = k'

section Table

variable {m : ByteMemory} {dir va phys flags : ℕ} (h : TablesApart m dir)
  (hva : va < 0xFFC00000) (hp : present (entry m dir (va / 2 ^ 22)))

include h hva hp

/-- Writing the entry of a page maps the page. -/
theorem walk_set_same (hphys : phys % 4096 = 0) (hlt : phys < 2 ^ 32) (hflags : flags < 4096)
    (hodd : flags % 2 = 1) :
    walk (m.set32 (frameOf (entry m dir (va / 2 ^ 22)) + 4 * (va / 4096 % 1024))
      (phys ||| flags)) dir va = some (phys, flags) := by
  have hk : va / 2 ^ 22 < 1023 := by omega
  have hor : phys ||| flags = phys + flags := or_eq_add hphys hflags
  have hpde := entry_set32_frame m (phys + flags) (frameOf_mod (entry m dir (va / 2 ^ 22)))
    h.aligned (show va / 4096 % 1024 < 1024 by omega) (show va / 2 ^ 22 < 1024 by omega)
    (h.ne_dir _ hk hp).symm
  have hmod : (phys + flags) % 2 ^ 32 = phys + flags := Nat.mod_eq_of_lt (by omega)
  have hpres : present (phys + flags) := by
    unfold present
    omega
  have hrest : (phys + flags) % 4096 = flags := by omega
  rw [walk, hor]
  simp only [hpde, if_pos hp, entry_set32_same, hmod, if_pos hpres, frameOf_add hphys hflags, hrest]

/-- And leaves every other page. -/
theorem walk_set_other (v : ℕ) {w : ℕ} (hw : w < 0xFFC00000) (hne : w / 4096 ≠ va / 4096) :
    walk (m.set32 (frameOf (entry m dir (va / 2 ^ 22)) + 4 * (va / 4096 % 1024)) v) dir w =
      walk m dir w := by
  have hk : va / 2 ^ 22 < 1023 := by omega
  have hkw : w / 2 ^ 22 < 1023 := by omega
  refine walk_congr ?_ ?_
  · exact entry_set32_frame m v (frameOf_mod _) h.aligned (by omega) (by omega)
      (h.ne_dir _ hk hp).symm
  · intro hpw
    by_cases hsame : w / 2 ^ 22 = va / 2 ^ 22
    · rw [hsame]
      exact entry_set32_index m _ v (by omega)
    · refine entry_set32_frame m v (frameOf_mod _) (frameOf_mod _) (by omega) (by omega) ?_
      intro heq
      exact hsame (h.apart _ hkw _ hk hpw hp heq)

end Table

/-! ## A new table -/

/-- The memory with a cleared frame behind directory entry `k`. -/
def linkTable (m : ByteMemory) (dir k table flags : ℕ) : ByteMemory :=
  (m.fill table 4096 fun _ => 0).set32 (dir + 4 * k) (table + flags)

section Link

variable {m : ByteMemory} {dir k table flags : ℕ} (h : TablesApart m dir) (hk : k < 1023)
  (ht : table % 4096 = 0) (hne : table ≠ dir)

include h hk ht hne

omit hk in
theorem linkTable_directory {i : ℕ} (hi : i < 1024) (hik : i ≠ k) :
    entry (linkTable m dir k table flags) dir i = entry m dir i := by
  have haligned := h.aligned
  rw [linkTable, entry_set32_index _ _ _ hik]
  refine entry_congr hi ?_
  intro o ho
  exact fill_outside m _ (by omega)

theorem linkTable_new {j : ℕ} (hj : j < 1024) : entry (linkTable m dir k table flags) table j = 0 := by
  rw [linkTable, entry_set32_frame _ _ h.aligned ht (by omega) hj hne]
  exact PageTables.entry_fill_zero m hj

omit hne in
/-- The tables that were there keep their entries. -/
theorem linkTable_old {i j : ℕ} (hi : i < 1023) (hj : j < 1024) (hp : present (entry m dir i))
    (hfree : frameOf (entry m dir i) ≠ table) :
    entry (linkTable m dir k table flags) (frameOf (entry m dir i)) j =
      entry m (frameOf (entry m dir i)) j := by
  have hmod := frameOf_mod (entry m dir i)
  rw [linkTable, entry_set32_frame _ _ h.aligned hmod (by omega) hj (h.ne_dir i hi hp)]
  refine entry_congr hj ?_
  intro o ho
  exact fill_outside m _ (by omega)

variable (hlt : table < 2 ^ 32) (hflags : flags < 8)

omit h hk ht hne in
include ht hlt hflags in
theorem linkTable_entry : entry (linkTable m dir k table flags) dir k = table + flags := by
  rw [linkTable, entry_set32_same]
  exact Nat.mod_eq_of_lt (by omega)

variable (hfree : ∀ i < 1023, present (entry m dir i) → frameOf (entry m dir i) ≠ table)

include hlt hflags hfree

omit hk in
theorem tablesApart_linkTable : TablesApart (linkTable m dir k table flags) dir := by
  have hnew : frameOf (entry (linkTable m dir k table flags) dir k) = table := by
    rw [linkTable_entry ht hlt hflags]
    exact frameOf_add ht (by omega)
  refine ⟨h.aligned, ?_, ?_⟩
  · intro i hi hp
    by_cases hik : i = k
    · rw [hik, hnew]
      exact hne
    · rw [linkTable_directory h ht hne (by omega) hik] at hp ⊢
      exact h.ne_dir i hi hp
  · intro i hi i' hi' hp hp' heq
    by_cases hik : i = k
    · by_cases hik' : i' = k
      · rw [hik, hik']
      · rw [hik, hnew, linkTable_directory h ht hne (by omega) hik'] at heq
        rw [linkTable_directory h ht hne (by omega) hik'] at hp'
        exact absurd heq.symm (hfree i' hi' hp')
    · rw [linkTable_directory h ht hne (by omega) hik] at hp heq
      by_cases hik' : i' = k
      · rw [hik', hnew] at heq
        exact absurd heq (hfree i hi hp)
      · rw [linkTable_directory h ht hne (by omega) hik'] at hp' heq
        exact h.apart i hi i' hi' hp hp' heq

/-- A new table maps nothing yet. -/
theorem walk_linkTable (habs : ¬present (entry m dir k)) {w : ℕ} (hw : w < 0xFFC00000) :
    walk (linkTable m dir k table flags) dir w = walk m dir w := by
  by_cases hwk : w / 2 ^ 22 = k
  · have hnone : ¬present 0 := by decide
    have hframe : frameOf (table + flags) = table := frameOf_add ht (by omega)
    simp only [walk, hwk, linkTable_entry ht hlt hflags, hframe,
      linkTable_new h hk ht hne (Nat.mod_lt _ (by omega)), if_neg hnone, if_neg habs]
    split <;> rfl
  · refine walk_congr (linkTable_directory h ht hne (by omega) hwk) ?_
    intro hp
    exact linkTable_old h hk ht (by omega) (Nat.mod_lt _ (by omega)) hp
      (hfree _ (by omega) hp)

end Link

/-! ## `paging_map_page` -/

/-- The active directory: its last entry points back at it, it and its tables lie in frames of
their own that are in use, and a free frame can be reached at its physical address. Frame 0 is
reserved, so that no frame has the address `NULL`. -/
structure ActiveDirectory (s : Machine) : Prop where
  paging : s.paging = true
  self : SelfMapped s.mem s.cr3
  tables : TablesApart s.mem s.cr3
  used : s.pmm.UsedFrame s.cr3
  table_used : ∀ k < 1023, present (entry s.mem s.cr3 k) →
    s.pmm.UsedFrame (frameOf (entry s.mem s.cr3 k))
  zero_used : s.pmm.UsedFrame 0
  reachable : (pmmAllocFrame s.pmm).1 ≠ 0 → ∀ o < 4096,
    translate s.mem s.cr3 ((pmmAllocFrame s.pmm).1 + o) = some ((pmmAllocFrame s.pmm).1 + o)

/-- An active directory of which only its own frames are known. -/
structure OwnDirectory (s : Machine) : Prop where
  paging : s.paging = true
  self : SelfMapped s.mem s.cr3
  tables : TablesApart s.mem s.cr3
  used : s.pmm.UsedFrame s.cr3
  table_used : ∀ k < 1023, present (entry s.mem s.cr3 k) →
    s.pmm.UsedFrame (frameOf (entry s.mem s.cr3 k))

variable {s : Machine}

theorem ActiveDirectory.own (h : ActiveDirectory s) : OwnDirectory s :=
  ⟨h.paging, h.self, h.tables, h.used, h.table_used⟩

theorem ActiveDirectory.alloc_null (h : ActiveDirectory s) (hnull : (pmmAllocFrame s.pmm).1 = 0) :
    ∀ f < s.pmm.capacity, s.pmm.frameUsed f = true := by
  obtain ⟨f, -, hfree, -, hs⟩ | ⟨hfull, -⟩ := pmmAllocFrame_cases s.pmm
  · rw [hs] at hnull
    obtain rfl : f = 0 := by omega
    have hused := h.zero_used.2.2
    rw [Nat.zero_div, hfree] at hused
    cases hused
  · exact hfull

theorem alloc_lt {p : Pmm} (hne : (pmmAllocFrame p).1 ≠ 0) : (pmmAllocFrame p).1 < 2 ^ 32 := by
  obtain ⟨-, hcap, -, -⟩ := usedFrame_pmmAllocFrame hne
  have hsize := p.pmmBitmapSize_le
  unfold Pmm.capacity at hcap
  omega

/-- A frame in use keeps its entries while a fresh one is filled. -/
theorem entry_used {m : ByteMemory} {f i : ℕ} (hne : (pmmAllocFrame s.pmm).1 ≠ 0)
    (hm : ∀ x, x < (pmmAllocFrame s.pmm).1 ∨ (pmmAllocFrame s.pmm).1 + 4096 ≤ x → m x = s.mem x)
    (hf : s.pmm.UsedFrame f) (hi : i < 1024) : entry m f i = entry s.mem f i := by
  obtain ⟨hta, -, hfresh, -⟩ := usedFrame_pmmAllocFrame hne
  have hfa := hf.1
  have hff : f ≠ (pmmAllocFrame s.pmm).1 := by
    rintro rfl
    exact hfresh hf
  refine entry_congr hi ?_
  intro o ho
  exact hm _ (by omega)

/-- Zeroing the new frame at its physical address reaches it to the end: the walk to it goes
through frames in use. -/
theorem OwnDirectory.zero_reaches (h : OwnDirectory s) (hne : (pmmAllocFrame s.pmm).1 ≠ 0)
    {m : ByteMemory} {o : ℕ} (ho : o < 4096)
    (hreach : translate s.mem s.cr3 ((pmmAllocFrame s.pmm).1 + o) =
      some ((pmmAllocFrame s.pmm).1 + o))
    (hm : ∀ x, x < (pmmAllocFrame s.pmm).1 ∨ (pmmAllocFrame s.pmm).1 + 4096 ≤ x →
      m x = s.mem x) :
    X86Paging.translate m s.cr3 ((pmmAllocFrame s.pmm).1 + o) =
      some ((pmmAllocFrame s.pmm).1 + o) := by
  have hlt := alloc_lt hne
  obtain ⟨hta, -, -, -⟩ := usedFrame_pmmAllocFrame hne
  generalize hva : (pmmAllocFrame s.pmm).1 + o = va at hreach
  have hk : va / 2 ^ 22 < 1024 := by omega
  have hp := (translate_eq_some.mp hreach).1
  have htable : s.pmm.UsedFrame (frameOf (entry s.mem s.cr3 (va / 2 ^ 22))) := by
    by_cases hlast : va / 2 ^ 22 = 1023
    · rw [hlast, h.self.self]
      exact h.used
    · exact h.table_used _ (by omega) hp
  rw [← hreach]
  exact translate_congr (entry_used hne hm h.used hk)
    (entry_used hne hm htable (Nat.mod_lt _ (by omega)))

/-- `paging_map_page` is correct with respect to the walk of the processor. -/
theorem paging_map_page_correct (s : Machine) (h : ActiveDirectory s) (dir va phys flags : ℕ)
    (hva : va < 0xFFC00000) (hphys : phys % 4096 = 0) (hlt : phys < 2 ^ 32)
    (hflags : flags < 0x1000) (hpresent : flags % 2 = 1) :
    ∃ s', pagingMapPage dir va phys flags s = .ok () s' ∧
      ((¬present (entry s.mem s.cr3 (va / 2 ^ 22)) ∧
          (∀ f < s.pmm.capacity, s.pmm.frameUsed f = true) ∧ s'.mem = s.mem) ∨
        (walk s'.mem s.cr3 va = some (phys, flags) ∧
          ∀ w < 0xFFC00000, w / 4096 ≠ va / 4096 → walk s'.mem s.cr3 w = walk s.mem s.cr3 w)) := by
  have hva32 : va < 2 ^ 32 := by omega
  by_cases hp : present (entry s.mem s.cr3 (va / 2 ^ 22))
  · refine ⟨_, pagingMapPage_present h.paging h.self hva32 dir phys flags hp, .inr ⟨?_, ?_⟩⟩
    · exact walk_set_same h.tables hva hp hphys hlt hflags hpresent
    · intro w hw hne
      exact walk_set_other h.tables hva hp _ hw hne
  · by_cases hnull : (pmmAllocFrame s.pmm).1 = 0
    · exact ⟨_, pagingMapPage_null h.paging h.self hva32 dir phys flags hp hnull,
        .inl ⟨hp, h.alloc_null hnull, rfl⟩⟩
    · obtain ⟨hta, -, hfresh, -⟩ := usedFrame_pmmAllocFrame hnull
      have hlt' := alloc_lt hnull
      have hdir : s.cr3 ≠ (pmmAllocFrame s.pmm).1 := by
        intro heq
        exact hfresh (heq ▸ h.used)
      have hfree : ∀ k < 1023, present (entry s.mem s.cr3 k) →
          frameOf (entry s.mem s.cr3 k) ≠ (pmmAllocFrame s.pmm).1 := by
        intro k hk hpk heq
        exact hfresh (heq ▸ h.table_used k hk hpk)
      have hmap := pagingMapPage_new h.paging h.self hva32 dir phys flags hp rfl hnull hta hlt' hdir
        hpresent fun m hm o ho =>
          (translate_eq (s := { s with mem := m }) h.paging (by omega)).trans
            (h.own.zero_reaches hnull ho (h.reachable hnull o ho) hm)
      have hk : va / 2 ^ 22 < 1023 := by omega
      have hflags8 : flags % 8 < 8 := by omega
      have hlinked := tablesApart_linkTable (k := va / 2 ^ 22) h.tables hta hdir.symm hlt' hflags8
        hfree
      have hentry : entry (linkTable s.mem s.cr3 (va / 2 ^ 22) (pmmAllocFrame s.pmm).1 (flags % 8))
          s.cr3 (va / 2 ^ 22) = (pmmAllocFrame s.pmm).1 + flags % 8 :=
        linkTable_entry hta hlt' hflags8
      have hpnew : present (entry (linkTable s.mem s.cr3 (va / 2 ^ 22) (pmmAllocFrame s.pmm).1
          (flags % 8)) s.cr3 (va / 2 ^ 22)) := by
        rw [hentry]
        unfold present
        omega
      have hframe : frameOf (entry (linkTable s.mem s.cr3 (va / 2 ^ 22) (pmmAllocFrame s.pmm).1
          (flags % 8)) s.cr3 (va / 2 ^ 22)) = (pmmAllocFrame s.pmm).1 := by
        rw [hentry]
        exact frameOf_add hta (by omega)
      refine ⟨_, hmap, .inr ⟨?_, ?_⟩⟩
      · have hsame := walk_set_same hlinked hva hpnew hphys hlt hflags hpresent
        rwa [hframe] at hsame
      · intro w hw hne
        have hother := walk_set_other hlinked hva hpnew (phys ||| flags) hw hne
        rw [hframe, walk_linkTable h.tables hk hta hdir.symm hlt' hflags8 hfree hp hw] at hother
        exact hother

/-- Frames 0 to 2 are in use, two of them for the tables; frame 3 is the next one. -/
def identityPmm : Machine :=
  { identityMachine (fun _ => 0) with
    pmm := { pmmBitmap := fun _ => 7#32, pmmTotalFrames := 32, pmmBitmapSize := 4,
             pmmBitmapSize_le := by decide } }

/-- These tables make an active directory. -/
theorem HasIdentity.own (h : HasIdentity s.mem) (hpaging : s.paging = true) (hcr3 : s.cr3 = 0x1000)
    (hdir : s.pmm.UsedFrame 0x1000) (htable : s.pmm.UsedFrame 0x2000) : OwnDirectory s := by
  have hzero : frameOf (entry s.mem 0x1000 0) = 0x2000 := by
    rw [h.directory (by omega), identity_directory (by omega)]
    rfl
  have hlast : entry s.mem 0x1000 1023 = 0x1003 := by
    rw [h.directory (by omega), identity_directory (by omega)]
    rfl
  rw [← hcr3] at hdir
  refine ⟨hpaging, ?_, ?_, hdir, ?_⟩
  · rw [hcr3]
    exact ⟨by decide, by rw [hlast]; decide, by rw [hlast]; decide⟩
  · rw [hcr3]
    refine ⟨by decide, ?_, ?_⟩
    · intro k hk hp
      rw [h.present_directory hk hp, hzero]
      decide
    · intro k hk k' hk' hp hp' _
      rw [h.present_directory hk hp, h.present_directory hk' hp']
  · intro k hk hp
    rw [hcr3] at hp ⊢
    rw [h.present_directory hk hp, hzero]
    exact htable

theorem identityPmm_own : OwnDirectory identityPmm :=
  HasIdentity.own (s := identityPmm) (hasIdentity_identityMachine fun _ => 0) rfl rfl
    ⟨by decide, by decide, by decide⟩ ⟨by decide, by decide, by decide⟩

theorem identityPmm_active : ActiveDirectory identityPmm where
  paging := identityPmm_own.paging
  self := identityPmm_own.self
  tables := identityPmm_own.tables
  used := identityPmm_own.used
  table_used := identityPmm_own.table_used
  zero_used := ⟨by decide, by decide, by decide⟩
  reachable _ o ho := by
    have haddr : (pmmAllocFrame identityPmm.pmm).1 = 0x3000 := by decide
    rw [haddr]
    exact (hasIdentity_identityMachine fun _ => 0).translate (by omega)

/-- The first page of the user range, which has no table yet. -/
theorem paging_map_page_correct_user_page :
    ∃ s', pagingMapPage 0 0x400000 0x5000 7 identityPmm = .ok () s' ∧
      ((¬present (entry identityPmm.mem identityPmm.cr3 (0x400000 / 2 ^ 22)) ∧
          (∀ f < identityPmm.pmm.capacity, identityPmm.pmm.frameUsed f = true) ∧
          s'.mem = identityPmm.mem) ∨
        (walk s'.mem identityPmm.cr3 0x400000 = some (0x5000, 7) ∧
          ∀ w < 0xFFC00000, w / 4096 ≠ 0x400000 / 4096 →
            walk s'.mem identityPmm.cr3 w =
              walk identityPmm.mem identityPmm.cr3 w)) :=
  paging_map_page_correct identityPmm identityPmm_active 0 0x400000 0x5000 7 (by decide)
    (by decide) (by decide) (by decide) (by decide)

end MyOS
