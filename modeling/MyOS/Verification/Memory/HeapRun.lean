import MyOS.Verification.Memory.Boot

/-! Whole runs of the kernel heap: any sequence of `malloc` and `free` after boot, with the
owners of live areas writing into them in between. -/

namespace MyOS

open Effect X86Paging ByteMemory PageTables Ownership BlockHeap

/-- States reached from `s₀`. `live` holds the pointers handed out and not freed since, with the
sizes asked for; `carved` the blocks cut off above the old `heap_top`. A call that does not
return ends the run. -/
inductive HeapRun (s₀ : Machine) : Machine → List (ℕ × ℕ) → List ℕ → Prop where
  | start : HeapRun s₀ s₀ [] []
  | malloc {s s' : Machine} {live : List (ℕ × ℕ)} {carved : List ℕ} {size p : ℕ} :
      HeapRun s₀ s live carved → size ≤ memSize.toNat → malloc size s = .ok p s' →
      HeapRun s₀ s' (if p = 0 then live else (p, size) :: live)
        (if s.heapTop < p then (p - sizeofBlockHeader) :: carved else carved)
  | free {s s' : Machine} {live : List (ℕ × ℕ)} {carved : List ℕ} {size p : ℕ} :
      HeapRun s₀ s live carved → (p, size) ∈ live → free p s = .ok () s' →
      HeapRun s₀ s' (live.erase (p, size)) carved
  | write {s s' : Machine} {live : List (ℕ × ℕ)} {carved : List ℕ} {size p i : ℕ} {b : UInt8} :
      HeapRun s₀ s live carved → (p, size) ∈ live → i < size → store8 (p + i) b s = .ok () s' →
      HeapRun s₀ s' live carved

/-- Following the `next` fields from `head` leads through the list and ends at `NULL`. -/
def FreeListFrom (s : Machine) : ℕ → List ℕ → Prop
  | head, [] => head = 0
  | head, a :: rest => head = a ∧ a ≠ 0 ∧
      ∃ next, load32 (a + 4) s = .ok next s ∧ FreeListFrom s next rest

/-- Contract of the heap in one state of a run. -/
structure HeapSpec (heapStart : ℕ) (s : Machine) (live : List (ℕ × ℕ)) (carved : List ℕ) :
    Prop where
  aligned : ∀ x ∈ live, x.1 % 4 = 0
  disjoint : live.Pairwise fun x y => x.1 + x.2 ≤ y.1 ∨ y.1 + y.2 ≤ x.1
  headers : ∀ x ∈ live, ∀ a ∈ carved, x.1 + x.2 ≤ a ∨ a + sizeofBlockHeader ≤ x.1
  inside : ∀ x ∈ live, heapStart ≤ x.1 ∧ x.1 + x.2 ≤ s.heapTop
  top_le : s.heapTop ≤ s.heapEnd
  recorded : ∀ x ∈ live, ∃ size, load32 (x.1 - sizeofBlockHeader) s = .ok size s ∧ x.2 ≤ size
  free_list : ∃ free, FreeListFrom s s.freeListHead free ∧ free.Nodup ∧
    (live.map (·.1 - sizeofBlockHeader) ++ free).Perm carved
  carved_nodup : carved.Nodup
  malloc_returns : ∀ size, (s.heapTop + 3) / 4 * 4 + sizeofBlockHeader + size ≤ 2 ^ 22 →
    ∃ p s', malloc size s = .ok p s'
  free_returns : ∀ x ∈ live, ∃ s', free x.1 s = .ok () s'

/-! ## The invariant of a run -/

/-- In a run of the heap alone the frames in use are the first ones, without a gap, and every
page of the heap lies in a frame above its own address. -/
structure NoGap (p : Pmm) (g : Layout) : Prop where
  windows_le : g.windows.length ≤ 256
  linear : p.Linear (g.heapPage + 5 + g.heap.length + g.windows.length)
  above : ∀ k f, g.heap[k]? = some f → 4096 * (g.heapPage + k) < f

theorem NoGap.lt {p : Pmm} {g : Layout} (h : NoGap p g) (hne : (pmmAllocFrame p).1 ≠ 0) :
    g.heapPage + 5 + g.heap.length + g.windows.length < 4096 := by
  by_contra hge
  obtain ⟨f, hf, hfree, -⟩ | ⟨-, hs⟩ := pmmAllocFrame_cases p
  · rw [h.linear.capacity] at hf
    rw [(h.linear.2 f hf).mpr (by omega)] at hfree
    cases hfree
  · rw [hs] at hne
    exact hne rfl

theorem noGap_alloc (p : Pmm) (g : Layout) (h : NoGap p g) (hne : (pmmAllocFrame p).1 ≠ 0) :
    NoGap (pmmAllocFrame p).2 (g.extend [(pmmAllocFrame p).1]) := by
  obtain ⟨haddr, hnext⟩ := h.linear.alloc (h.lt hne)
  refine ⟨h.windows_le, ?_, ?_⟩
  · change (pmmAllocFrame p).2.Linear (g.heapPage + 5 + (g.heap ++ [_]).length + g.windows.length)
    rw [List.length_append, List.length_singleton,
      show g.heapPage + 5 + (g.heap.length + 1) + g.windows.length =
        g.heapPage + 5 + g.heap.length + g.windows.length + 1 by omega]
    exact hnext
  · intro k f hf
    cases getElem?_append_singleton.mp hf with
    | inl hold => exact h.above k f hold
    | inr hnew =>
        change 4096 * (g.heapPage + k) < f
        rw [hnew.1, hnew.2, haddr]
        omega

/-- The heap cannot grow past 4 MiB: the table it would need for that lies above, where nothing
is mapped, and zeroing it faults. -/
theorem staysLow_noGap (size : ℕ) : StaysLow NoGap (fun _ _ => True) size := by
  intro t g u fuel grown s' h hgap hroot hfull hne hend hmap _ _
  have hwindows := hgap.windows_le
  obtain ⟨n, hn⟩ : ∃ n, n = g.heapPage + 5 + g.heap.length + g.windows.length := ⟨_, rfl⟩
  have hlinear := hgap.linear
  rw [← hn] at hlinear
  obtain ⟨-, hnext⟩ := hlinear.alloc (by omega)
  obtain ⟨htable, -⟩ := hnext.alloc (by omega)
  have hentry : entry t.mem t.cr3 1 = 0 := by
    rw [hroot]
    exact h.holds .root g.root 1 0 rfl (by omega) rfl
  have habs : ¬present (entry t.mem t.cr3 1) := by
    rw [hentry]
    decide
  have hdiv : t.heapEnd / 2 ^ 22 = 1 := by omega
  have hself : SelfMapped t.mem t.cr3 := by
    rw [hroot]
    exact h.activeRoot.selfMapped
  obtain ⟨pa, hpa, -⟩ := pagingMapPage_new_reached
    (s := { t with pmm := (pmmAllocFrame t.pmm).2 }) h.paging hself
    (show t.heapEnd < 2 ^ 32 by omega) _ _ _ (by rw [hdiv]; exact habs) htable (by omega) hmap
  rw [translate_eq (s := { t with pmm := (pmmAllocFrame t.pmm).2 }) h.paging (by omega)] at hpa
  have hpde := (translate_eq_some.mp hpa).1
  rw [show (n + 1) * 4096 / 2 ^ 22 = 1 by omega] at hpde
  exact habs hpde

/-- The heap's first page lies five frames above its own address. -/
theorem bootLayout_above {page k f : ℕ} (hf : (bootLayout page).heap[k]? = some f) :
    4096 * (page + k) < f := by
  have hk : k < 1 := (List.getElem?_eq_some_iff.mp hf).1
  obtain rfl : k = 0 := by omega
  have hfirst : (page + 5) * 4096 = f := Option.some.inj hf
  omega

theorem Booted.noGap {s : Machine} {page : ℕ} (h : Booted s page) :
    NoGap s.pmm (bootLayout page) :=
  ⟨Nat.zero_le _, h.linear, fun _ _ hf => bootLayout_above hf⟩

/-- What holds in every state of a run. Pointers are eight bytes behind their block. -/
structure HeapRunInvariant (page : ℕ) (s : Machine) (live : List (ℕ × ℕ)) (carved : List ℕ)
    (g : Layout) (v : HeapView) : Prop where
  space : KernelSpace s g
  heap : HeapInvariant s g v
  noGap : NoGap s.pmm g
  cr3 : s.cr3 = g.root
  heapPage : g.heapPage = page
  live_eq : live = v.live.map fun x => (x.1 + 8, x.2)
  carved_eq : carved = v.blocks.map Prod.fst

variable {page : ℕ} {s s' : Machine} {live : List (ℕ × ℕ)} {carved : List ℕ} {g : Layout}
  {v : HeapView}

theorem HeapRunInvariant.live_block (h : HeapRunInvariant page s live carved g v) {p n : ℕ}
    (hp : (p, n) ∈ live) : ∃ a, (a, n) ∈ v.live ∧ p = a + 8 := by
  rw [h.live_eq] at hp
  obtain ⟨⟨a, m⟩, ha, heq⟩ := List.mem_map.mp hp
  simp only [Prod.mk.injEq] at heq
  obtain ⟨rfl, rfl⟩ := heq
  exact ⟨a, ha, rfl⟩

theorem HeapRunInvariant.malloc (h : HeapRunInvariant page s live carved g v) {size p : ℕ}
    (hsize : size ≤ memSize.toNat) (hrun : malloc size s = .ok p s') :
    ∃ frames v', HeapRunInvariant page s' (if p = 0 then live else (p, size) :: live)
        (if s.heapTop < p then (p - sizeofBlockHeader) :: carved else carved)
        (g.extend frames) v' ∧
      Growth s g v size frames s' := by
  obtain ⟨frames, v', h1, h2, h3, h4, h5, hgrowth⟩ := h.heap.malloc_spec (staysLow_noGap size)
    noGap_alloc h.space h.cr3 h.noGap hsize trivial hrun
  refine ⟨frames, v', ⟨h1, h2, h3, h4.trans h.cr3, h.heapPage, ?_, ?_⟩, hgrowth⟩
  · cases h5 with
    | null => exact h.live_eq
    | reused htop => rw [if_neg (by omega), h.live_eq]; rfl
    | carved htop => rw [if_neg (by omega), h.live_eq]; rfl
  · cases h5 with
    | null => rw [if_neg (by omega), h.carved_eq]
    | reused htop => rw [if_neg (by omega), h.carved_eq]; rfl
    | carved htop => rw [if_pos (by omega), h.carved_eq]; rfl

theorem HeapRunInvariant.free (h : HeapRunInvariant page s live carved g v) {size p : ℕ}
    (hp : (p, size) ∈ live) (hrun : free p s = .ok () s') :
    ∃ v', HeapRunInvariant page s' (live.erase (p, size)) carved g v' := by
  obtain ⟨a, ha, rfl⟩ := h.live_block hp
  obtain ⟨m, hfree, -, hspace, hinv⟩ := h.heap.free_spec h.space (.inl h.cr3) ha
  rw [hfree] at hrun
  cases hrun
  refine ⟨v.release a size, hspace, hinv, h.noGap, h.cr3, h.heapPage, ?_, h.carved_eq⟩
  have hinj : Function.Injective fun x : ℕ × ℕ => (x.1 + 8, x.2) := by
    intro x y hxy
    simp only [Prod.mk.injEq, Nat.add_right_cancel_iff] at hxy
    exact Prod.ext hxy.1 hxy.2
  rw [h.live_eq]
  exact (List.map_erase hinj (a := (a, size)) v.live).symm

theorem HeapRunInvariant.write (h : HeapRunInvariant page s live carved g v) {size p i : ℕ}
    {b : UInt8} (hp : (p, size) ∈ live) (hi : i < size) (hrun : store8 (p + i) b s = .ok () s') :
    HeapRunInvariant page s' live carved g v := by
  obtain ⟨a, ha, rfl⟩ := h.live_block hp
  obtain ⟨hstore, hspace, hinv⟩ := h.heap.write h.space (.inl h.cr3) ha hi b
  rw [hstore] at hrun
  cases hrun
  exact ⟨hspace, hinv, h.noGap, h.cr3, h.heapPage, h.live_eq, h.carved_eq⟩

theorem HeapRun.invariant {s₀ : Machine} (hboot : Booted s₀ page)
    (h : HeapRun s₀ s live carved) : ∃ g v, HeapRunInvariant page s live carved g v := by
  induction h with
  | start =>
      exact ⟨bootLayout page, ⟨[], [], []⟩, hboot.space, hboot.heap, hboot.noGap, hboot.cr3, rfl,
        rfl, rfl⟩
  | malloc _ hsize hrun ih =>
      obtain ⟨g, v, hinv⟩ := ih
      obtain ⟨frames, v', hinv', -⟩ := hinv.malloc hsize hrun
      exact ⟨g.extend frames, v', hinv'⟩
  | free _ hp hrun ih =>
      obtain ⟨g, v, hinv⟩ := ih
      obtain ⟨v', hinv'⟩ := hinv.free hp hrun
      exact ⟨g, v', hinv'⟩
  | write _ hp hi hrun ih =>
      obtain ⟨g, v, hinv⟩ := ih
      exact ⟨g, v, hinv.write hp hi hrun⟩

/-! ## The contract -/

theorem HeapRunInvariant.freeListFrom (h : HeapRunInvariant page s live carved g v) {p : ℕ}
    {free : List ℕ} (hsub : ∀ a ∈ free, a ∈ v.free) (hlinked : Linked (s.word g) p free) :
    FreeListFrom s p free := by
  induction free generalizing p with
  | nil => exact hlinked
  | cons a rest ih =>
      obtain ⟨hp, hne, hrest⟩ := hlinked
      obtain ⟨n, hn⟩ := h.heap.heap.free_block (hsub a List.mem_cons_self)
      obtain ⟨-, h2, h3, -, -⟩ := h.heap.block_bounds hn
      refine ⟨hp, hne, s.word g (a + 4), ?_, ?_⟩
      · exact h.space.load32_word (.inl h.cr3) (h.space.inHeap_lt h2) (by omega)
      · exact ih (fun b hb => hsub b (List.mem_cons_of_mem a hb)) hrest

/-- Two live areas with different blocks do not meet, nor does an area meet a header. -/
theorem HeapRunInvariant.areas (h : HeapRunInvariant page s live carved g v) {a n b m : ℕ}
    (ha : (a, n) ∈ v.live) (hb : (b, m) ∈ v.blocks) (hne : a ≠ b) :
    a + 8 + n ≤ b ∨ b + 8 + m ≤ a := by
  obtain ⟨k, hk, hle⟩ := h.heap.heap.live_block ha
  rcases h.heap.heap.separate hk hb with heq | hsep | hsep
  · exact absurd (congrArg Prod.fst heq) hne
  · simp only at hsep
    omega
  · exact .inr hsep

theorem HeapRunInvariant.disjoint (h : HeapRunInvariant page s live carved g v) :
    live.Pairwise fun x y => x.1 + x.2 ≤ y.1 ∨ y.1 + y.2 ≤ x.1 := by
  have hnodup : (v.live.map Prod.fst).Nodup := (List.nodup_append.mp h.heap.heap.nodup).1
  rw [h.live_eq]
  refine List.pairwise_map.mpr ((List.pairwise_map.mp hnodup).imp_of_mem ?_)
  intro x y hx hy hne
  obtain ⟨m, hm, hle⟩ := h.heap.heap.fits y hy
  have := h.areas hx hm hne
  simp only
  omega

theorem HeapRunInvariant.spec (h : HeapRunInvariant page s live carved g v) :
    HeapSpec (4096 * page) s live carved := by
  have hheap := h.heap.heap
  have hbounds : ∀ x ∈ live, ∃ a k, (a, x.2) ∈ v.live ∧ (a, k) ∈ v.blocks ∧ x.2 ≤ k ∧
      x.1 = a + 8 := by
    intro x hx
    obtain ⟨a, ha, hxa⟩ := h.live_block hx
    obtain ⟨k, hk, hle⟩ := hheap.live_block ha
    exact ⟨a, k, ha, hk, hle, hxa⟩
  refine ⟨?_, h.disjoint, ?_, ?_, h.heap.top_le, ?_, ?_, ?_, ?_, ?_⟩
  · intro x hx
    obtain ⟨a, k, -, hk, -, hxa⟩ := hbounds x hx
    have := (h.heap.block_bounds hk).2.2.1
    omega
  · intro x hx b hb
    obtain ⟨a, k, ha, hk, -, hxa⟩ := hbounds x hx
    rw [h.carved_eq] at hb
    obtain ⟨⟨b, m⟩, hbm, rfl⟩ := List.mem_map.mp hb
    unfold sizeofBlockHeader
    by_cases hab : a = b
    · exact .inr (by simp only; omega)
    · have := h.areas ha hbm hab
      simp only
      omega
  · intro x hx
    obtain ⟨a, k, -, hk, hle, hxa⟩ := hbounds x hx
    obtain ⟨h1, -, -, -, h2⟩ := h.heap.block_bounds hk
    have hlow := h1.1
    rw [h.heapPage] at hlow
    exact ⟨by omega, by omega⟩
  · intro x hx
    obtain ⟨a, k, -, hk, hle, hxa⟩ := hbounds x hx
    obtain ⟨h1, -, h3, -, -⟩ := h.heap.block_bounds hk
    have hsub : x.1 - sizeofBlockHeader = a := by
      unfold sizeofBlockHeader
      omega
    have hsize : s.word g a = k := hheap.sizes (a, k) hk
    refine ⟨k, ?_, hle⟩
    rw [hsub, ← hsize]
    exact h.space.load32_word (.inl h.cr3) (h.space.inHeap_lt h1) h3
  · refine ⟨v.free, h.freeListFrom (fun _ ha => ha) hheap.linked,
      (List.nodup_append.mp hheap.nodup).2.1, ?_⟩
    rw [h.carved_eq, h.live_eq, List.map_map]
    exact hheap.complete
  · rw [h.carved_eq]
    exact hheap.complete.nodup_iff.mp hheap.nodup
  · intro size hroom
    exact h.heap.malloc_returns (staysLow_noGap size) noGap_alloc h.space h.cr3 h.noGap
      (fun _ _ => trivial) hroom
  · intro x hx
    obtain ⟨a, k, ha, -, -, hxa⟩ := hbounds x hx
    obtain ⟨m, hfree, -⟩ := h.heap.free_spec h.space (.inl h.cr3) ha
    rw [hxa]
    exact ⟨_, hfree⟩

/-- Every state of every run of the heap after boot meets its contract, for any kernel that ends
with its bitmap below the last page of the low 4 MiB. -/
theorem heap_run_spec (mem : ByteMemory) (disk : ℕ → ℕ → UInt8) (stack : ℕ → ℕ)
    (stale : ℕ → BitVec 32) (kernelEnd : UInt32)
    (hend : kernelEnd.toNat + bitmapBytes memSize ≤ 1023 * 4096) :
    ∃ s₀, bootMemory stale kernelEnd (kmainEntry mem disk stack) = .ok () s₀ ∧
      ∀ s live carved, HeapRun s₀ s live carved → HeapSpec s₀.heapTop s live carved := by
  have hbytes : bitmapBytes memSize = 512 := by decide
  rw [hbytes] at hend
  obtain ⟨s₀, hrun, hboot, -⟩ := bootMemory_booted mem disk stack stale kernelEnd hend
  refine ⟨s₀, hrun, ?_⟩
  intro s live carved hreach
  obtain ⟨g, v, hinv⟩ := hreach.invariant hboot
  have htop : s₀.heapTop = 4096 * ((kernelEnd.toNat + 4607) / 4096) := hboot.heapTop
  rw [htop]
  exact hinv.spec

/-- The first request after boot gets the start of the heap. -/
theorem Booted.malloc_first (hboot : Booted s page) (size : ℕ) (hpos : size ≠ 0)
    (hroom : size + 8 ≤ 4096) : ∃ s', MyOS.malloc size s = .ok (4096 * page + 8) s' := by
  have htop := hboot.heapTop
  have hend : s.heapEnd = 4096 * (page + 1) := hboot.heap.end_eq
  obtain ⟨m, hrun, -⟩ := hboot.heap.malloc_fresh hboot.space (.inl hboot.cr3) rfl hpos (by omega)
    (show s.heapTop + 8 + size ≤ s.heapEnd by omega)
  rw [htop] at hrun
  exact ⟨_, hrun⟩

/-- A kernel that ends at 128 KiB boots, and its first request is served from the first page
of the heap. -/
theorem heap_run_spec_first :
    ∃ s₀ s, bootMemory (fun _ => 0#32) 131072 (kmainEntry (fun _ => 0) (fun _ _ => 0) fun _ => 0) =
        .ok () s₀ ∧ HeapRun s₀ s [(135176, 100)] [135168] ∧
      HeapSpec s₀.heapTop s [(135176, 100)] [135168] := by
  obtain ⟨s₁, hrun₁, hboot, -⟩ := bootMemory_booted (fun _ => 0) (fun _ _ => 0) (fun _ => 0)
    (fun _ => 0#32) 131072 (by decide)
  obtain ⟨s₀, hrun, hspec⟩ := heap_run_spec (fun _ => 0) (fun _ _ => 0) (fun _ => 0)
    (fun _ => 0#32) 131072 (by decide)
  obtain rfl : s₁ = s₀ := by
    rw [hrun₁] at hrun
    cases hrun
    rfl
  have hpage : ((131072 : UInt32).toNat + 4607) / 4096 = 33 := by decide
  rw [hpage] at hboot
  obtain ⟨s, hmalloc⟩ := hboot.malloc_first 100 (by decide) (by decide)
  have hreach : HeapRun s₁ s [(135176, 100)] [135168] := by
    have hstep := HeapRun.malloc .start (by decide) hmalloc
    rw [hboot.heapTop] at hstep
    simpa [sizeofBlockHeader] using hstep
  exact ⟨s₁, s, hrun, hreach, hspec s _ _ hreach⟩

end MyOS
