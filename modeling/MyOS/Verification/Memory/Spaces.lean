import MyOS.Lib.Ownership
import MyOS.Lib.PageTables
import MyOS.Verification.Memory.Access
import MyOS.Verification.Pmm.Correctness

/-! Who owns which frame, and what the page tables hold for it. A layout is the abstract view
of physical memory: the kernel's tables, the heap's pages, and the address spaces. -/

namespace MyOS

open Effect X86Paging ByteMemory PageTables Ownership

/-! ## Layouts -/

/-- Frames of one address space: its directory, its tables and the pages behind them. -/
structure Space where
  dir : ℕ
  table : ℕ → Option ℕ
  page : ℕ → ℕ → Option ℕ

/-- `heap` lists the frames behind the pages of the heap, `windows` those behind the windows of
the file system, `temp` is the table of the temporary window. Spaces and kernel stacks go by
process slot; frames in use without a place of their own are `loose`. -/
structure Layout where
  root : ℕ
  table0 : ℕ
  heapPage : ℕ
  heap : List ℕ
  windows : List ℕ
  temp : Option ℕ
  space : ℕ → Option Space
  stack : ℕ → Option ℕ
  loose : ℕ → Prop

inductive Owner where
  | boot (f : ℕ)
  | heap (k : ℕ)
  | window (k : ℕ)
  | temp
  | dir (i : ℕ)
  | table (i k : ℕ)
  | page (i k j : ℕ)
  | stack (i : ℕ)
  | loose (f : ℕ)
  deriving DecidableEq

/-- The frames taken at boot are the reserved ones and the five behind them. -/
def Layout.Owns (g : Layout) : Owner → ℕ → Prop
  | .boot b, f => f = b ∧ b % 4096 = 0 ∧ b < 4096 * (g.heapPage + 5)
  | .heap k, f => g.heap[k]? = some f
  | .window k, f => g.windows[k]? = some f
  | .temp, f => g.temp = some f
  | .dir i, f => ∃ sp, g.space i = some sp ∧ sp.dir = f
  | .table i k, f => ∃ sp, g.space i = some sp ∧ sp.table k = some f
  | .page i k j, f => ∃ sp, g.space i = some sp ∧ sp.page k j = some f
  | .stack i, f => g.stack i = some f
  | .loose b, f => f = b ∧ g.loose b

/-- The tables of a layout. -/
inductive Role where
  | root
  | low
  | temp
  | dir (i : ℕ)
  | table (i k : ℕ)
  deriving DecidableEq

/-- A present entry with its flags, or an empty one. -/
def pte (flags : ℕ) : Option ℕ → ℕ
  | none => 0
  | some f => f + flags

/-- The page at 3 MiB, where the windows of the file system begin. -/
def windowPage : ℕ := 768

/-- The frame behind page `j` outside the heap: the windows of the file system have frames of
their own, all others are mapped to themselves. -/
def Layout.fixedFrame (g : Layout) (j : ℕ) : ℕ :=
  if windowPage ≤ j then (g.windows[j - windowPage]?).getD (4096 * j) else 4096 * j

/-- The frame that page `j` of the low 4 MiB is mapped to. A heap that reaches the windows
takes their place. -/
def Layout.lowFrame (g : Layout) (j : ℕ) : ℕ :=
  if g.heapPage ≤ j then (g.heap[j - g.heapPage]?).getD (g.fixedFrame j) else g.fixedFrame j

/-- What the tables hold. Two pages of the temporary window are left open. -/
def Layout.plan (g : Layout) : Plan Role where
  frame
    | .root => some g.root
    | .low => some g.table0
    | .temp => g.temp
    | .dir i => (g.space i).map (·.dir)
    | .table i k => (g.space i).bind (·.table k)
  value
    | .root, k => some (if k = 0 then g.table0 + 3 else if k = 1022 then pte 3 g.temp
        else if k = 1023 then g.root + 3 else 0)
    | .low, j => some (g.lowFrame j + 3)
    | .temp, j => if j < 1022 then some 0 else none
    | .dir i, k => (g.space i).map fun sp => if k = 0 then g.table0 + 3
        else if k = 1022 then pte 3 g.temp else if k = 1023 then sp.dir + 3
        else pte 7 (sp.table k)
    | .table i k, j => (g.space i).map fun sp => pte 7 (sp.page k j)

/-- What makes a layout one of this kernel: its own tables lie among the boot frames, the heap
ends below 4 MiB, and address spaces have tables of their own for entries 1 to 1021 only. -/
structure Layout.Valid (g : Layout) : Prop where
  root_aligned : g.root % 4096 = 0
  table0_aligned : g.table0 % 4096 = 0
  root_lt : g.root < 4096 * (g.heapPage + 5)
  table0_lt : g.table0 < 4096 * (g.heapPage + 5)
  root_ne : g.root ≠ g.table0
  heap_fits : g.heapPage + g.heap.length ≤ 1024
  table_range : ∀ i sp k f, g.space i = some sp → sp.table k = some f → 1 ≤ k ∧ k < 1022
  page_range : ∀ i sp k j f, g.space i = some sp → sp.page k j = some f →
    j < 1024 ∧ ∃ t, sp.table k = some t
  temp_some : ∀ i sp, g.space i = some sp → ∃ t, g.temp = some t

/-- A frame the allocator has handed out, by its address. -/
def Pmm.UsedFrame (p : Pmm) (f : ℕ) : Prop :=
  f % 4096 = 0 ∧ f / 4096 < p.capacity ∧ p.frameUsed (f / 4096) = true

/-- The machine's memory is laid out as `g` says. -/
structure KernelSpace (s : Machine) (g : Layout) : Prop where
  paging : s.paging = true
  root_eq : s.kernelDirectory = g.root
  capacity : s.pmm.capacity = 4096
  valid : g.Valid
  exact : Exact g.Owns s.pmm.UsedFrame
  holds : Holds s.mem g.plan

variable {s s' : Machine} {g g' : Layout}

/-- Four fields of the machine matter. -/
theorem KernelSpace.same (h : KernelSpace s g) (hmem : s'.mem = s.mem)
    (hpaging : s'.paging = s.paging) (hroot : s'.kernelDirectory = s.kernelDirectory)
    (hpmm : s'.pmm = s.pmm) : KernelSpace s' g := by
  refine ⟨hpaging.trans h.paging, hroot.trans h.root_eq, ?_, h.valid, ?_, ?_⟩
  · rw [hpmm]
    exact h.capacity
  · rw [hpmm]
    exact h.exact
  · rw [hmem]
    exact h.holds

/-! ## Frames -/

theorem KernelSpace.frame_bounds (h : KernelSpace s g) {o : Owner} {f : ℕ} (hf : g.Owns o f) :
    f % 4096 = 0 ∧ f < 2 ^ 24 := by
  obtain ⟨haligned, hlt, -⟩ := (h.exact.used_iff f).mpr ⟨o, hf⟩
  rw [h.capacity] at hlt
  exact ⟨haligned, by omega⟩

/-- The owner of a table. -/
def Layout.roleOwner (g : Layout) : Role → Owner
  | .root => .boot g.root
  | .low => .boot g.table0
  | .temp => .temp
  | .dir i => .dir i
  | .table i k => .table i k

theorem Layout.Valid.owns_role (hg : g.Valid) {r : Role} {f : ℕ} (h : g.plan.frame r = some f) :
    g.Owns (g.roleOwner r) f := by
  cases r with
  | root =>
      obtain rfl : g.root = f := Option.some.inj h
      exact ⟨rfl, hg.root_aligned, hg.root_lt⟩
  | low =>
      obtain rfl : g.table0 = f := Option.some.inj h
      exact ⟨rfl, hg.table0_aligned, hg.table0_lt⟩
  | temp => exact h
  | dir i =>
      obtain ⟨sp, hsp, hdir⟩ := Option.map_eq_some_iff.mp h
      exact ⟨sp, hsp, hdir⟩
  | table i k =>
      obtain ⟨sp, hsp, htable⟩ := Option.bind_eq_some_iff.mp h
      exact ⟨sp, hsp, htable⟩

theorem Layout.Valid.roleOwner_inj (hg : g.Valid) {r r' : Role}
    (h : g.roleOwner r = g.roleOwner r') : r = r' := by
  have hne := hg.root_ne
  cases r <;> cases r' <;> simp_all [Layout.roleOwner]

theorem KernelSpace.separate (h : KernelSpace s g) : Separate g.plan := by
  refine ⟨?_, ?_⟩
  · intro r f hf
    exact (h.frame_bounds (h.valid.owns_role hf)).1
  · intro r r' f hf hf'
    exact h.valid.roleOwner_inj
      (h.exact.exclusive _ _ f (h.valid.owns_role hf) (h.valid.owns_role hf'))

/-- A frame whose owner keeps no table in it is not the frame of a table. -/
theorem KernelSpace.outside (h : KernelSpace s g) {o : Owner} {f : ℕ} (hf : g.Owns o f)
    (ho : ∀ r, g.roleOwner r ≠ o) {r : Role} {f' : ℕ} (hr : g.plan.frame r = some f') :
    f + 4096 ≤ f' ∨ f' + 4096 ≤ f := by
  have hne := h.exact.ne_of_owner_ne (h.valid.owns_role hr) hf (ho r)
  have hf1 := (h.frame_bounds hf).1
  have hf2 := (h.frame_bounds (h.valid.owns_role hr)).1
  omega

/-- Data: memory may change anywhere outside the tables. -/
theorem KernelSpace.of_bytes (h : KernelSpace s g) {m : ByteMemory}
    (hbytes : ∀ r f, g.plan.frame r = some f → ∀ o < 4096, m (f + o) = s.mem (f + o)) :
    KernelSpace { s with mem := m } g :=
  ⟨h.paging, h.root_eq, h.capacity, h.valid, h.exact, h.holds.of_bytes hbytes⟩

/-! ## The active directory -/

/-- What every directory of the kernel has in common: the low table, the temporary window and
the entry that points back. -/
structure ActiveDir (m : ByteMemory) (g : Layout) (dir : ℕ) : Prop where
  aligned : dir % 4096 = 0
  lt : dir < 2 ^ 24
  low : entry m dir 0 = g.table0 + 3
  window : entry m dir 1022 = pte 3 g.temp
  self : entry m dir 1023 = dir + 3

theorem KernelSpace.activeRoot (h : KernelSpace s g) : ActiveDir s.mem g g.root := by
  have hframe : g.plan.frame .root = some g.root := rfl
  obtain ⟨haligned, hlt⟩ := h.frame_bounds (h.valid.owns_role hframe)
  exact ⟨haligned, hlt, h.holds .root _ 0 _ rfl (by omega) rfl,
    h.holds .root _ 1022 _ rfl (by omega) rfl, h.holds .root _ 1023 _ rfl (by omega) rfl⟩

theorem KernelSpace.activeSpace (h : KernelSpace s g) {i : ℕ} {sp : Space}
    (hsp : g.space i = some sp) : ActiveDir s.mem g sp.dir := by
  have hframe : g.plan.frame (.dir i) = some sp.dir := by simp [Layout.plan, hsp]
  obtain ⟨haligned, hlt⟩ := h.frame_bounds (h.valid.owns_role hframe)
  refine ⟨haligned, hlt, h.holds (.dir i) _ 0 _ hframe (by omega) ?_,
    h.holds (.dir i) _ 1022 _ hframe (by omega) ?_, h.holds (.dir i) _ 1023 _ hframe (by omega) ?_⟩
  · simp [Layout.plan, hsp]
  · simp [Layout.plan, hsp]
  · simp [Layout.plan, hsp]

/-- The directory of the kernel or of a process. -/
def Layout.IsDir (g : Layout) (dir : ℕ) : Prop :=
  dir = g.root ∨ ∃ i sp, g.space i = some sp ∧ sp.dir = dir

theorem KernelSpace.active (h : KernelSpace s g) {dir : ℕ} (hdir : g.IsDir dir) :
    ActiveDir s.mem g dir := by
  rcases hdir with rfl | ⟨i, sp, hsp, rfl⟩
  · exact h.activeRoot
  · exact h.activeSpace hsp

theorem ActiveDir.selfMapped {m : ByteMemory} {dir : ℕ} (h : ActiveDir m g dir) :
    SelfMapped m dir := by
  have := h.aligned
  have := h.lt
  refine ⟨h.aligned, ?_, ?_⟩
  · rw [h.self]
    unfold present
    omega
  · rw [h.self]
    exact frameOf_add h.aligned (by omega)

/-- The low 4 MiB through any of the kernel's directories. -/
theorem ActiveDir.translate_low {m : ByteMemory} {dir : ℕ} (h : ActiveDir m g dir)
    (haligned : g.table0 % 4096 = 0) (hentry : ∀ j < 1024, entry m g.table0 j = g.lowFrame j + 3)
    (hframe : ∀ j < 1024, g.lowFrame j % 4096 = 0) {va : ℕ} (hva : va < 2 ^ 22) :
    X86Paging.translate m dir va = some (g.lowFrame (va / 4096) + va % 4096) := by
  have hd : va / 2 ^ 22 = 0 := by omega
  have ht : va / 4096 % 1024 = va / 4096 := by omega
  have hj : va / 4096 < 1024 := by omega
  have hf := hframe _ hj
  have htable : frameOf (g.table0 + 3) = g.table0 := frameOf_add haligned (by omega)
  rw [translate_eq_some, hd, ht, h.low, htable, hentry _ hj]
  refine ⟨?_, ?_, ?_⟩
  · unfold present
    omega
  · unfold present
    omega
  · rw [frameOf_add hf (by omega)]

theorem KernelSpace.fixedFrame_aligned (h : KernelSpace s g) (j : ℕ) :
    g.fixedFrame j % 4096 = 0 := by
  unfold Layout.fixedFrame
  by_cases hj : windowPage ≤ j
  · rw [if_pos hj]
    cases hk : g.windows[j - windowPage]? with
    | none => simp
    | some f => exact (h.frame_bounds (o := .window _) hk).1
  · rw [if_neg hj]
    omega

theorem KernelSpace.lowFrame_aligned (h : KernelSpace s g) (j : ℕ) : g.lowFrame j % 4096 = 0 := by
  unfold Layout.lowFrame
  by_cases hj : g.heapPage ≤ j
  · rw [if_pos hj]
    cases hk : g.heap[j - g.heapPage]? with
    | none => exact h.fixedFrame_aligned j
    | some f => exact (h.frame_bounds (o := .heap _) hk).1
  · rw [if_neg hj]
    exact h.fixedFrame_aligned j

theorem KernelSpace.low_entry (h : KernelSpace s g) {j : ℕ} (hj : j < 1024) :
    entry s.mem g.table0 j = g.lowFrame j + 3 :=
  h.holds .low _ j _ rfl hj rfl

theorem KernelSpace.translate_low (h : KernelSpace s g) {dir va : ℕ}
    (hdir : ActiveDir s.mem g dir) (hva : va < 2 ^ 22) :
    X86Paging.translate s.mem dir va = some (g.lowFrame (va / 4096) + va % 4096) :=
  hdir.translate_low h.valid.table0_aligned (fun _ => h.low_entry)
    (fun j _ => h.lowFrame_aligned j) hva

/-! ## Taking and giving back frames -/

theorem usedFrame_pmmAllocFrame {p : Pmm} (hne : (pmmAllocFrame p).1 ≠ 0) :
    (pmmAllocFrame p).1 % 4096 = 0 ∧ (pmmAllocFrame p).1 / 4096 < p.capacity ∧
      ¬p.UsedFrame (pmmAllocFrame p).1 ∧
      ∀ f, (pmmAllocFrame p).2.UsedFrame f ↔ p.UsedFrame f ∨ f = (pmmAllocFrame p).1 := by
  obtain ⟨k, hlt, hfree, -, hs⟩ | ⟨-, hs⟩ := pmmAllocFrame_cases p
  · rw [hs]
    have hdiv : k * 4096 / 4096 = k := by omega
    refine ⟨by omega, by omega, ?_, ?_⟩
    · rintro ⟨-, -, hused⟩
      rw [hdiv, hfree] at hused
      exact Bool.noConfusion hused
    · intro f
      have hcap : Pmm.capacity { p with pmmBitmap := pmmSetBit p.pmmBitmap k } = p.capacity := rfl
      unfold Pmm.UsedFrame
      rw [hcap]
      simp only [Pmm.frameUsed, bit_pmmSetBit, Bool.or_eq_true, decide_eq_true_eq]
      refine ⟨?_, ?_⟩
      · rintro ⟨h1, h2, h3 | h3⟩
        · exact .inr (by omega)
        · exact .inl ⟨h1, h2, h3⟩
      · rintro (⟨h1, h2, h3⟩ | rfl)
        · exact ⟨h1, h2, .inr h3⟩
        · exact ⟨by omega, by omega, .inl (by omega)⟩
  · rw [hs] at hne
    exact absurd rfl hne

/-- Frame 0 is never free, so an allocation that returns `NULL` found no frame and changes
nothing. -/
theorem KernelSpace.alloc_null (h : KernelSpace s g) (hnull : (pmmAllocFrame s.pmm).1 = 0) :
    (pmmAllocFrame s.pmm).2 = s.pmm ∧ ∀ f, f % 4096 = 0 → f < 2 ^ 24 → s.pmm.UsedFrame f := by
  obtain ⟨k, -, hfree, -, hs⟩ | ⟨hfull, hs⟩ := pmmAllocFrame_cases s.pmm
  · rw [hs] at hnull
    obtain rfl : k = 0 := by omega
    have hzero : s.pmm.UsedFrame 0 :=
      (h.exact.used_iff 0).mpr ⟨.boot 0, rfl, by omega, by omega⟩
    have hused := hzero.2.2
    rw [Nat.zero_div, hfree] at hused
    cases hused
  · rw [hs]
    refine ⟨rfl, ?_⟩
    intro f hf hlt
    have hcap := h.capacity
    exact ⟨hf, by omega, hfull _ (by omega)⟩

private theorem countP_range_flip {p q : ℕ → Bool} {n f : ℕ} (hf : f < n) (hp : p f = true)
    (hq : q f = false) (hsame : ∀ x, x ≠ f → q x = p x) :
    (List.range n).countP p = (List.range n).countP q + 1 := by
  induction n with
  | zero => omega
  | succ n ih =>
      simp only [List.range_succ, List.countP_append, List.countP_singleton]
      by_cases hn : f = n
      · have hrest : (List.range n).countP q = (List.range n).countP p := by
          refine List.countP_congr ?_
          intro x hx
          rw [List.mem_range] at hx
          rw [hsame x (by omega)]
        rw [← hn, hp, hq, hn, hrest]
        simp
      · rw [ih (by omega), hsame n (by omega)]
        omega

/-- A frame that is handed out is counted no more. -/
theorem freeFrameCount_alloc {p : Pmm} (hne : (pmmAllocFrame p).1 ≠ 0) :
    pmmGetFreeFrameCount p = pmmGetFreeFrameCount (pmmAllocFrame p).2 + 1 := by
  obtain ⟨k, hlt, hfree, -, hs⟩ | ⟨-, hs⟩ := pmmAllocFrame_cases p
  · rw [pmmGetFreeFrameCount_eq, pmmGetFreeFrameCount_eq, pmmAllocFrame_capacity, hs]
    refine countP_range_flip hlt (by simp [hfree]) (by simp [Pmm.frameUsed]) ?_
    intro x hx
    simp [Pmm.frameUsed, hx]
  · rw [hs] at hne
    exact absurd rfl hne

theorem KernelSpace.freeFrameCount_null (h : KernelSpace s g) (hnull : (pmmAllocFrame s.pmm).1 = 0) :
    pmmGetFreeFrameCount s.pmm = 0 := by
  rw [pmmGetFreeFrameCount_eq, List.countP_eq_zero]
  intro f hf
  rw [List.mem_range, h.capacity] at hf
  obtain ⟨-, -, hused⟩ := (h.alloc_null hnull).2 (4096 * f) (by omega) (by omega)
  have hdiv : 4096 * f / 4096 = f := by omega
  rw [hdiv] at hused
  simp [hused]

theorem usedFrame_pmmFreeFrame {p : Pmm} {a : ℕ} (ha : a % 4096 = 0) (f : ℕ) :
    (pmmFreeFrame p a).UsedFrame f ↔ p.UsedFrame f ∧ f ≠ a := by
  unfold Pmm.UsedFrame
  rw [pmmFreeFrame_capacity, frameUsed_pmmFreeFrame]
  simp only [Bool.and_eq_true, Bool.not_eq_true', decide_eq_false_iff_not]
  refine ⟨?_, ?_⟩
  · rintro ⟨h1, h2, h3, h4⟩
    exact ⟨⟨h1, h2, h4⟩, by rintro rfl; exact h3 rfl⟩
  · rintro ⟨⟨h1, h2, h3⟩, hne⟩
    exact ⟨h1, h2, by omega, h3⟩

/-- A layout with one more frame in hand. -/
def Layout.take (g : Layout) (a : ℕ) : Layout := { g with loose := fun f => f = a ∨ g.loose f }

@[simp] theorem Layout.take_plan (g : Layout) (a : ℕ) : (g.take a).plan = g.plan := rfl

theorem Layout.Valid.of_frames (hg : g.Valid) (hroot : g'.root = g.root)
    (htable0 : g'.table0 = g.table0) (hpage : g'.heapPage = g.heapPage) (hheap : g'.heap = g.heap)
    (htemp : g'.temp = g.temp) (hspace : g'.space = g.space) : g'.Valid := by
  refine ⟨?_, ?_, ?_, ?_, ?_, ?_, ?_, ?_, ?_⟩
  · rw [hroot]; exact hg.root_aligned
  · rw [htable0]; exact hg.table0_aligned
  · rw [hroot, hpage]; exact hg.root_lt
  · rw [htable0, hpage]; exact hg.table0_lt
  · rw [hroot, htable0]; exact hg.root_ne
  · rw [hpage, hheap]; exact hg.heap_fits
  · rw [hspace]; exact hg.table_range
  · rw [hspace]; exact hg.page_range
  · rw [hspace, htemp]; exact hg.temp_some

/-- A free frame that is taken is in hand. -/
theorem Exact.take_loose {used used' : ℕ → Prop} {a : ℕ} (h : Exact g.Owns used) (hfree : ¬used a)
    (hused : ∀ f, used' f ↔ used f ∨ f = a) : Exact (g.take a).Owns used' := by
  refine h.give (o := .loose a) hfree ?_ hused
  intro o f
  cases o with
  | loose b =>
      change f = b ∧ (b = a ∨ g.loose b) ↔ (f = b ∧ g.loose b) ∨ _
      simp only [Owner.loose.injEq]
      refine ⟨?_, ?_⟩
      · rintro ⟨rfl, rfl | hb⟩
        · exact .inr ⟨rfl, rfl⟩
        · exact .inl ⟨rfl, hb⟩
      · rintro (⟨rfl, hb⟩ | ⟨rfl, rfl⟩)
        · exact ⟨rfl, .inr hb⟩
        · exact ⟨rfl, .inl rfl⟩
  | _ => simp only [reduceCtorEq, false_and, or_false]; exact Iff.rfl

/-- A frame the allocator hands out had no owner. -/
theorem KernelSpace.alloc (h : KernelSpace s g) (hne : (pmmAllocFrame s.pmm).1 ≠ 0)
    (trace : List Event) :
    KernelSpace { s with pmm := (pmmAllocFrame s.pmm).2, trace }
      (g.take (pmmAllocFrame s.pmm).1) := by
  obtain ⟨-, -, hfree, hused⟩ := usedFrame_pmmAllocFrame hne
  refine ⟨h.paging, h.root_eq, ?_, h.valid.of_frames rfl rfl rfl rfl rfl rfl,
    Exact.take_loose h.exact hfree hused, h.holds⟩
  change (pmmAllocFrame s.pmm).2.capacity = _
  rw [pmmAllocFrame_capacity]
  exact h.capacity

end MyOS
