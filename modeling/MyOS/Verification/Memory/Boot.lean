import MyOS.Model.Boot
import MyOS.Verification.Memory.Heap

/-! The memory `kmain` sets up: frames are taken one after the other behind the reserved area,
for the allocator's test, the kernel's directory and first table, the first interrupt stack and
the first page of the heap. -/

namespace MyOS

open Effect X86Paging ByteMemory PageTables Ownership BlockHeap

variable {s : Machine} {p : Pmm} {n : ℕ}

/-! ## Frames in sequence -/

/-- Exactly the first `n` frames of 16 MiB are in use. -/
def Pmm.Linear (p : Pmm) (n : ℕ) : Prop :=
  p.pmmBitmapSize = 512 ∧ ∀ f < 4096, p.frameUsed f = true ↔ f < n

theorem Pmm.Linear.capacity (h : p.Linear n) : p.capacity = 4096 := by
  rw [Pmm.capacity, h.1]

theorem Pmm.Linear.alloc (h : p.Linear n) (hlt : n < 4096) :
    (pmmAllocFrame p).1 = n * 4096 ∧ (pmmAllocFrame p).2.Linear (n + 1) := by
  have hcap := h.capacity
  obtain ⟨hsize, hused⟩ := h
  obtain ⟨f, hf, hfree, hbelow, hs⟩ | ⟨hfull, -⟩ := pmmAllocFrame_cases p
  · rw [hcap] at hf
    have hge : n ≤ f := by
      by_contra hlt'
      rw [(hused f hf).mpr (by omega)] at hfree
      cases hfree
    have hle : f ≤ n := by
      by_contra hgt
      have := (hused n hlt).mp (hbelow n (by omega))
      omega
    obtain rfl : f = n := by omega
    rw [hs]
    refine ⟨rfl, hsize, ?_⟩
    intro g hg
    simp only [Pmm.frameUsed, bit_pmmSetBit, Bool.or_eq_true, decide_eq_true_eq]
    have := hused g hg
    unfold Pmm.frameUsed at this
    rw [this]
    omega
  · have := (hused n hlt).mp (hfull n (by omega))
    omega

theorem Pmm.Linear.free (h : p.Linear (n + 1)) : (pmmFreeFrame p (n * 4096)).Linear n := by
  refine ⟨h.1, ?_⟩
  intro f hf
  have hdiv : n * 4096 / 4096 = n := by omega
  rw [frameUsed_pmmFreeFrame, hdiv, Bool.and_eq_true, h.2 f hf, Bool.not_eq_true',
    decide_eq_false_iff_not]
  omega

theorem Pmm.Linear.usedFrame_iff (h : p.Linear n) (f : ℕ) (hn : n ≤ 4096) :
    p.UsedFrame f ↔ f % 4096 = 0 ∧ f < 4096 * n := by
  have hused := h.2
  unfold Pmm.UsedFrame
  rw [h.capacity]
  refine ⟨?_, ?_⟩
  · rintro ⟨h1, h2, h3⟩
    have := (hused _ h2).mp h3
    exact ⟨h1, by omega⟩
  · rintro ⟨h1, h2⟩
    exact ⟨h1, by omega, (hused _ (by omega)).mpr (by omega)⟩

theorem linear_pmmInit (stale : ℕ → BitVec 32) (kernelEnd : UInt32)
    (hend : kernelEnd.toNat + 512 ≤ 2 ^ 24) :
    (pmmInit stale memSize kernelEnd).Linear ((kernelEnd.toNat + 4607) / 4096) := by
  have hinv := pmmInit_invariant stale memSize kernelEnd (by decide)
  have hreserved : reservedFrames memSize kernelEnd = (kernelEnd.toNat + 4607) / 4096 := by
    have hbytes : bitmapBytes memSize = 512 := by decide
    unfold reservedFrames pmmFrameSize
    simp only [hbytes]
    omega
  refine ⟨(by decide : bitmapBytes memSize = 512), ?_⟩
  intro f hf
  have hiff := hinv.used_iff f hf
  rw [hreserved] at hiff
  simpa using hiff

/-! ## The steps of `kmain` -/

theorem allocFrame_linear (h : s.pmm.Linear n) (hpos : 0 < n) (hlt : n < 4096) :
    ∃ p, allocFrame s = .ok (n * 4096) { s with pmm := p } ∧ p.Linear (n + 1) := by
  obtain ⟨haddr, hnext⟩ := h.alloc hlt
  refine ⟨_, ?_, hnext⟩
  have heq := allocFrame_eq (s := s) (by rw [haddr]; omega)
  rw [haddr] at heq
  exact heq

/-- Of the three frames of the test the first is given back and taken again. -/
theorem pmmSanityCheck_eq (h : s.pmm.Linear n) (hpos : 0 < n) (hlt : n + 2 ≤ 4096) :
    ∃ p, pmmSanityCheck s = .ok () { s with pmm := p } ∧ p.Linear (n + 2) := by
  obtain ⟨p₁, hrun₁, h₁⟩ := allocFrame_linear h hpos (by omega)
  obtain ⟨p₂, hrun₂, h₂⟩ := allocFrame_linear (s := { s with pmm := p₁ }) h₁ (by omega) (by omega)
  have hfree : freeFrame (n * 4096) { s with pmm := p₂ } =
      .ok () { s with pmm := pmmFreeFrame p₂ (n * 4096) } := rfl
  have hused : ∀ f < 4096, (pmmFreeFrame p₂ (n * 4096)).frameUsed f = true ↔ f < n + 2 ∧ f ≠ n := by
    intro f hf
    have hdiv : n * 4096 / 4096 = n := by omega
    rw [frameUsed_pmmFreeFrame, hdiv, Bool.and_eq_true, h₂.2 f hf, Bool.not_eq_true',
      decide_eq_false_iff_not]
    exact and_comm
  obtain ⟨f, hf, hclear, hbelow, hs⟩ | ⟨hfull, -⟩ := pmmAllocFrame_cases (pmmFreeFrame p₂ (n * 4096))
  · rw [pmmFreeFrame_capacity, h₂.capacity] at hf
    have hge : n ≤ f := by
      by_contra hlt'
      rw [(hused f hf).mpr ⟨by omega, by omega⟩] at hclear
      cases hclear
    have hle : f ≤ n := by
      by_contra hgt
      exact ((hused n (by omega)).mp (hbelow n (by omega))).2 rfl
    obtain rfl : f = n := by omega
    have hrun₃ := allocFrame_eq (s := { s with pmm := pmmFreeFrame p₂ (f * 4096) })
      (by rw [hs]; simp only; omega)
    refine ⟨(pmmAllocFrame (pmmFreeFrame p₂ (f * 4096))).2, ?_, ?_⟩
    · unfold pmmSanityCheck
      rw [bind_of_ok hrun₁, bind_of_ok hrun₂, bind_of_ok hfree, bind_of_ok hrun₃]
      rfl
    · rw [hs]
      refine ⟨h₂.1, ?_⟩
      intro g hg
      have hg' := hused g hg
      simp only [Pmm.frameUsed, bit_pmmSetBit, Bool.or_eq_true, decide_eq_true_eq] at hg' ⊢
      rw [hg']
      omega
  · rw [pmmFreeFrame_capacity, h₂.capacity] at hfull
    exact absurd rfl ((hused n (by omega)).mp (hfull n (by omega))).2

/-- Without paging an address is its own translation. -/
theorem translate_unpaged (h : s.paging = false) {va : ℕ} (hva : va < 2 ^ 32) :
    s.translate va = some va := by
  rw [Machine.translate, if_neg (by simp [h]), Nat.mod_eq_of_lt hva]

theorem store32_unpaged (h : s.paging = false) {va : ℕ} (hva : va < 2 ^ 32) (v : ℕ) :
    store32 va v s = .ok () { s with mem := s.mem.set32 va v } :=
  store32_eq v (translate_unpaged h hva)

theorem memset_unpaged (h : s.paging = false) {va len : ℕ} (hva : va + len ≤ 2 ^ 32) (c : UInt8) :
    memset va c len s = .ok () { s with mem := s.mem.fill va len fun _ => c } := by
  refine memset_eq c ?_
  intro m' _ k hk
  exact translate_unpaged (s := { s with mem := m' }) h (by omega)

/-- The first table, filled entry by entry. -/
theorem fillTable_unpaged (h : s.paging = false) {dir table : ℕ} (hdir : dir % 4096 = 0)
    (htable : table % 4096 = 0) (hne : dir ≠ table) (hlt : table + 4096 ≤ 2 ^ 32) :
    ∃ m, forRange 1024 (fun i =>
          store32 (table + 4 * i) (i * 0x1000 ||| pagingFlagPresent ||| pagingFlagRw)) s =
        .ok () { s with mem := m } ∧
      (∀ j < 1024, entry m table j = 4096 * j + 3) ∧
      ∀ k < 1024, entry m dir k = entry s.mem dir k := by
  let inv : ℕ → Machine → Prop := fun i t =>
    ∃ m, t = { s with mem := m } ∧ (∀ j < i, entry m table j = 4096 * j + 3) ∧
      ∀ k < 1024, entry m dir k = entry s.mem dir k
  have hstep : ∀ i t, i < 1024 → inv i t → ∃ t',
      store32 (table + 4 * i) (i * 0x1000 ||| pagingFlagPresent ||| pagingFlagRw) t = .ok () t' ∧
        inv (i + 1) t' := by
    rintro i _ hi ⟨m, rfl, hentries, hkept⟩
    have hor : i * 0x1000 ||| pagingFlagPresent ||| pagingFlagRw = 4096 * i + 3 := by
      rw [Nat.or_assoc, or_eq_add (by omega) (by decide)]
      exact congrArg (· + 3) (Nat.mul_comm i 4096)
    refine ⟨_, store32_unpaged (s := { s with mem := m }) h (by omega) _, _, rfl, ?_, ?_⟩
    · intro j hj
      rw [hor]
      by_cases hij : j = i
      · rw [hij, entry_set32_same]
        exact Nat.mod_eq_of_lt (by omega)
      · rw [entry_set32_index _ _ _ hij]
        exact hentries j (by omega)
    · intro k hk
      rw [entry_set32_frame _ _ htable hdir hi hk hne]
      exact hkept k hk
  obtain ⟨_, hrun, m, rfl, hentries, hkept⟩ :=
    forRange_total inv hstep ⟨s.mem, rfl, by simp, fun _ _ => rfl⟩
  exact ⟨m, hrun, hentries, hkept⟩

/-- `paging_init` maps the low 4 MiB to themselves and the directory into its own last entry. -/
theorem pagingInit_eq (hoff : s.paging = false) (h : s.pmm.Linear n) (hpos : 0 < n)
    (hlt : n + 2 ≤ 4096) :
    ∃ m p, pagingInit s = .ok () { s with
          mem := m, pmm := p, kernelDirectory := n * 4096, cr3 := n * 4096, paging := true } ∧
      p.Linear (n + 2) ∧ (∀ j < 1024, entry m ((n + 1) * 4096) j = 4096 * j + 3) ∧
      ∀ k < 1024, entry m (n * 4096) k = if k = 0 then (n + 1) * 4096 + 3
        else if k = 1023 then n * 4096 + 3 else 0 := by
  obtain ⟨p₁, hrun₁, h₁⟩ := allocFrame_linear h hpos (by omega)
  have hclear₁ := memset_unpaged (s := { s with pmm := p₁, kernelDirectory := n * 4096 }) hoff
    (show n * 4096 + 4096 ≤ 2 ^ 32 by omega) 0
  obtain ⟨p₂, hrun₂, h₂⟩ := allocFrame_linear
    (s := { s with
      pmm := p₁, kernelDirectory := n * 4096, mem := s.mem.fill (n * 4096) 4096 fun _ => 0 })
    h₁ (by omega) (by omega)
  have hclear₂ := memset_unpaged
    (s := { s with
      pmm := p₂, kernelDirectory := n * 4096, mem := s.mem.fill (n * 4096) 4096 fun _ => 0 }) hoff
    (show (n + 1) * 4096 + 4096 ≤ 2 ^ 32 by omega) 0
  obtain ⟨m, hfill, htable, hdir⟩ := fillTable_unpaged
    (s := { s with
      pmm := p₂, kernelDirectory := n * 4096
      mem := (s.mem.fill (n * 4096) 4096 fun _ => 0).fill ((n + 1) * 4096) 4096 fun _ => 0 }) hoff
    (show n * 4096 % 4096 = 0 by omega) (show (n + 1) * 4096 % 4096 = 0 by omega) (by omega)
    (by omega)
  have hor₁ : (n + 1) * 4096 ||| pagingFlagPresent ||| pagingFlagRw = (n + 1) * 4096 + 3 := by
    rw [Nat.or_assoc]
    exact or_eq_add (by omega) (by decide)
  have hor₂ : n * 4096 ||| pagingFlagPresent ||| pagingFlagRw = n * 4096 + 3 := by
    rw [Nat.or_assoc]
    exact or_eq_add (by omega) (by decide)
  have hlink₁ := store32_unpaged (s := { s with pmm := p₂, kernelDirectory := n * 4096, mem := m })
    hoff (show n * 4096 < 2 ^ 32 by omega) ((n + 1) * 4096 + 3)
  have hlink₂ := store32_unpaged
    (s := { s with
      pmm := p₂, kernelDirectory := n * 4096, mem := m.set32 (n * 4096) ((n + 1) * 4096 + 3) })
    hoff (show n * 4096 + 4 * 1023 < 2 ^ 32 by omega) (n * 4096 + 3)
  have hzero : ∀ k < 1024, entry m (n * 4096) k = 0 := by
    intro k hk
    have hkept : entry ((s.mem.fill (n * 4096) 4096 fun _ => 0).fill ((n + 1) * 4096) 4096
        fun _ => 0) (n * 4096) k = entry (s.mem.fill (n * 4096) 4096 fun _ => 0) (n * 4096) k :=
      entry_congr hk fun o ho => ByteMemory.fill_outside _ _ (by omega)
    exact (hdir k hk).trans (hkept.trans (entry_fill_zero _ hk))
  refine ⟨(m.set32 (n * 4096) ((n + 1) * 4096 + 3)).set32 (n * 4096 + 4 * 1023) (n * 4096 + 3), p₂,
    ?_, h₂, ?_, ?_⟩
  · unfold pagingInit
    rw [bind_of_ok hrun₁, bind_of_ok (modify_apply _ _), if_neg (by omega), bind_of_ok hclear₁,
      bind_of_ok hrun₂, if_neg (by omega), bind_of_ok hclear₂, bind_of_ok hfill, hor₁, hor₂,
      bind_of_ok hlink₁, bind_of_ok hlink₂]
    rfl
  · intro j hj
    rw [entry_set32_frame _ _ (by omega) (by omega) (by omega) hj (by omega)]
    have hfirst := entry_set32_frame (i := 0) m ((n + 1) * 4096 + 3)
      (show n * 4096 % 4096 = 0 by omega) (show (n + 1) * 4096 % 4096 = 0 by omega) (by omega) hj
      (by omega)
    rw [Nat.mul_zero, Nat.add_zero] at hfirst
    rw [hfirst]
    exact htable j hj
  · intro k hk
    by_cases hlast : k = 1023
    · rw [hlast, entry_set32_same, if_neg (by omega), if_pos rfl]
      exact Nat.mod_eq_of_lt (by omega)
    · rw [entry_set32_index _ _ _ hlast, if_neg hlast]
      by_cases hk0 : k = 0
      · have hfirst := entry_set32_same m (n * 4096) 0 ((n + 1) * 4096 + 3)
        rw [Nat.mul_zero, Nat.add_zero] at hfirst
        rw [hk0, hfirst, if_pos rfl]
        exact Nat.mod_eq_of_lt (by omega)
      · have hfirst := entry_set32_index m (n * 4096) ((n + 1) * 4096 + 3) hk0
        rw [Nat.mul_zero, Nat.add_zero] at hfirst
        rw [hfirst, if_neg hk0]
        exact hzero k hk

/-! ## The machine after boot -/

/-- The layout `kmain` leaves: one page of heap behind the boot frames, and nothing else. -/
def bootLayout (page : ℕ) : Layout where
  root := (page + 2) * 4096
  table0 := (page + 3) * 4096
  heapPage := page
  heap := [(page + 5) * 4096]
  windows := []
  temp := none
  space := fun _ => none
  stack := fun _ => none
  loose := fun _ => False

/-- What holds when `init_memory` has returned. -/
structure Booted (s : Machine) (page : ℕ) : Prop where
  space : KernelSpace s (bootLayout page)
  heap : HeapInvariant s (bootLayout page) ⟨[], [], []⟩
  linear : s.pmm.Linear (page + 6)
  cr3 : s.cr3 = (page + 2) * 4096
  heapTop : s.heapTop = 4096 * page
  trace : s.trace = []

/-- The kernel's own tables before the heap has a page. -/
theorem kernelSpace_unheaped {page : ℕ} (hpage : page < 1024) (hpaging : s.paging = true)
    (hroot : s.kernelDirectory = (page + 2) * 4096) (hlinear : s.pmm.Linear (page + 5))
    (hlow : ∀ j < 1024, entry s.mem ((page + 3) * 4096) j = 4096 * j + 3)
    (hdir : ∀ k < 1024, entry s.mem ((page + 2) * 4096) k = if k = 0 then (page + 3) * 4096 + 3
      else if k = 1023 then (page + 2) * 4096 + 3 else 0) :
    KernelSpace s { bootLayout page with heap := [] } := by
  refine ⟨hpaging, hroot, hlinear.capacity, ?_, ⟨?_, ?_⟩, ?_⟩
  · refine ⟨?_, ?_, ?_, ?_, ?_, ?_, ?_, ?_, ?_⟩ <;> simp [bootLayout] <;> omega
  · intro o o' f ho ho'
    cases o with
    | boot b =>
        cases o' with
        | boot b' => rw [← ho.1, ← ho'.1]
        | _ => simp [Layout.Owns, bootLayout] at ho'
    | _ => simp [Layout.Owns, bootLayout] at ho
  · intro f
    rw [hlinear.usedFrame_iff f (by omega)]
    refine ⟨fun hf => ⟨.boot f, rfl, hf.1, hf.2⟩, ?_⟩
    rintro ⟨o, ho⟩
    cases o with
    | boot b =>
        obtain ⟨rfl, h1, h2⟩ := ho
        exact ⟨h1, h2⟩
    | _ => simp [Layout.Owns, bootLayout] at ho
  · intro r f i w hf hi hw
    cases r with
    | root =>
        obtain rfl : (page + 2) * 4096 = f := Option.some.inj hf
        rw [hdir i hi]
        have hw' : (if i = 0 then (page + 3) * 4096 + 3 else if i = 1022 then 0
            else if i = 1023 then (page + 2) * 4096 + 3 else 0) = w := Option.some.inj hw
        rw [← hw']
        by_cases h0 : i = 0
        · rw [if_pos h0, if_pos h0]
        · rw [if_neg h0, if_neg h0]
          by_cases h1 : i = 1022
          · rw [if_neg (by omega), if_pos h1]
          · rw [if_neg h1]
    | low =>
        obtain rfl : (page + 3) * 4096 = f := Option.some.inj hf
        rw [hlow i hi]
        have hw' : Layout.lowFrame { bootLayout page with heap := [] } i + 3 = w :=
          Option.some.inj hw
        rw [← hw']
        simp [Layout.lowFrame, Layout.fixedFrame, bootLayout]
    | temp => cases hf
    | dir i => cases hf
    | table i k => cases hf

/-- The heap begins at the first whole page behind the kernel and the bitmap. -/
theorem initMemory_eq {kernelEnd : UInt32} {page : ℕ} (hsize : s.pmm.pmmBitmapSize = 512)
    (hpage : page = (kernelEnd.toNat + 4607) / 4096)
    (hend : kernelEnd.toNat + 512 ≤ 1023 * 4096) :
    initMemory kernelEnd s =
      (do
        let frame ← allocFrame
        pagingMapPage s.kernelDirectory (4096 * page) frame (pagingFlagPresent ||| pagingFlagRw) :
          Kernel Unit)
      { s with heapTop := 4096 * page, heapEnd := 4096 * (page + 1) } := by
  have htop : (if (kernelEnd.toNat + 512) % 2 ^ 32 % pmmFrameSize ≠ 0 then
      ((kernelEnd.toNat + 512) % 2 ^ 32 / pmmFrameSize + 1) * pmmFrameSize % 2 ^ 32
      else (kernelEnd.toNat + 512) % 2 ^ 32) = 4096 * page := by
    unfold pmmFrameSize
    rw [Nat.mod_eq_of_lt (show kernelEnd.toNat + 512 < 2 ^ 32 by omega)]
    by_cases ha : (kernelEnd.toNat + 512) % 4096 ≠ 0
    · rw [if_pos ha, Nat.mod_eq_of_lt (by omega)]
      omega
    · rw [if_neg ha]
      omega
  have hnext : (4096 * page + pmmFrameSize) % 2 ^ 32 = 4096 * (page + 1) := by
    unfold pmmFrameSize
    omega
  unfold initMemory
  rw [bind_of_ok (get_apply s)]
  simp only [hsize, htop]
  rw [bind_of_ok (modify_apply _ s), hnext]

/-- `kmain` sets up memory without a fault when the kernel and its bitmap end below the last
page of the low 4 MiB. -/
theorem bootMemory_booted (mem : ByteMemory) (disk : ℕ → ℕ → UInt8) (stack : ℕ → ℕ)
    (stale : ℕ → BitVec 32) (kernelEnd : UInt32) (hend : kernelEnd.toNat + 512 ≤ 1023 * 4096) :
    ∃ s, bootMemory stale kernelEnd (kmainEntry mem disk stack) = .ok () s ∧
      Booted s ((kernelEnd.toNat + 4607) / 4096) ∧ s.disk = disk := by
  obtain ⟨page, hpage⟩ : ∃ page, page = (kernelEnd.toNat + 4607) / 4096 := ⟨_, rfl⟩
  have hlinear := linear_pmmInit stale kernelEnd (by omega)
  rw [← hpage] at hlinear ⊢
  obtain ⟨p₁, hrun₁, h₁⟩ := pmmSanityCheck_eq
    (s := { kmainEntry mem disk stack with pmm := pmmInit stale memSize kernelEnd })
    hlinear (by omega) (by omega)
  obtain ⟨m, p₂, hrun₂, h₂, hlow, hdir⟩ := pagingInit_eq
    (s := { kmainEntry mem disk stack with pmm := p₁ }) rfl h₁ (by omega) (by omega)
  obtain ⟨p₃, hrun₃, h₃⟩ := allocFrame_linear
    (s := { kmainEntry mem disk stack with
      mem := m, pmm := p₂, kernelDirectory := (page + 2) * 4096, cr3 := (page + 2) * 4096
      paging := true }) h₂ (by omega) (by omega)
  let t : Machine := { kmainEntry mem disk stack with
    mem := m, pmm := p₃, kernelDirectory := (page + 2) * 4096, cr3 := (page + 2) * 4096
    paging := true, esp0 := ((page + 4) * 4096 + pmmFrameSize) % 2 ^ 32 / 16 * 16
    heapTop := 4096 * page, heapEnd := 4096 * (page + 1) }
  have ht : KernelSpace t { bootLayout page with heap := [] } :=
    kernelSpace_unheaped (by omega) rfl rfl h₃ hlow hdir
  obtain ⟨haddr, h₄⟩ := Pmm.Linear.alloc (p := t.pmm) h₃ (by omega)
  have hne : (pmmAllocFrame t.pmm).1 ≠ 0 := by
    rw [haddr]
    omega
  have hrun₄ := allocFrame_eq hne
  obtain ⟨m', hmap, hspace, -⟩ := ht.growPage (.inl rfl) (by simp [bootLayout]; omega) hne
    t.kernelDirectory
  have hlayout : Layout.extend { bootLayout page with heap := [] } [(pmmAllocFrame t.pmm).1] =
      bootLayout page := by
    rw [haddr]
    rfl
  rw [hlayout] at hspace
  refine ⟨{ t with pmm := (pmmAllocFrame t.pmm).2, mem := m' }, ?_,
    ⟨hspace, ?_, h₄, rfl, rfl, rfl⟩, rfl⟩
  · have htss : tssInstall { kmainEntry mem disk stack with
          mem := m, pmm := p₂, kernelDirectory := (page + 2) * 4096, cr3 := (page + 2) * 4096
          paging := true } =
        .ok () { kmainEntry mem disk stack with
          mem := m, pmm := p₃, kernelDirectory := (page + 2) * 4096, cr3 := (page + 2) * 4096
          paging := true, esp0 := ((page + 4) * 4096 + pmmFrameSize) % 2 ^ 32 / 16 * 16 } := by
      unfold tssInstall
      rw [bind_of_ok hrun₃]
      rfl
    unfold bootMemory
    rw [bind_of_ok (modify_apply _ _), bind_of_ok hrun₁, bind_of_ok hrun₂, bind_of_ok htss,
      initMemory_eq h₃.1 hpage hend]
    exact (bind_of_ok hrun₄).trans hmap
  · exact ⟨rfl, by simp only [t]; omega, heap_empty _ (by simp [bootLayout]; omega)⟩

end MyOS
