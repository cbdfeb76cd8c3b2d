import MyOS.Verification.Fs.Buffers
import MyOS.Verification.Loader.Open
import MyOS.Verification.Memory.HeapWindows
import MyOS.Verification.Memory.Requests

/-! The heap under the file system's driver: what `malloc` leaves of the bytes that the driver
reads, and where its blocks meet them. -/

namespace MyOS

open Effect X86Paging ByteMemory PageTables Ownership BlockHeap

/-! ## Requests -/

/-- The heap ends below the windows of the file system and serves the request there, from the
free list or from new pages. -/
def BelowWindows (s : Machine) (size : ℕ) : Prop :=
  s.heapEnd ≤ fatVirtAddr ∧
    (FreeBlockFits s size ∨ s.alignedTop + sizeofBlockHeader + size ≤ fatVirtAddr)

/-- A free block fits, or there are frames for all pages up to the end of a new one. -/
def HasRoom (s : Machine) (size : ℕ) : Prop :=
  FreeBlockFits s size ∨ s.alignedTop + sizeofBlockHeader + size ≤
    s.heapEnd + 4096 * pmmGetFreeFrameCount s.pmm

variable {s s' : Machine} {g : Layout} {v v' : HeapView} {frames : List ℕ} {n size p : ℕ}

/-- What a call to `malloc` that stays below 4 MiB leaves behind. -/
structure Malloced (s : Machine) (g : Layout) (v : HeapView) (size p : ℕ) (s' : Machine)
    (frames : List ℕ) (v' : HeapView) : Prop where
  heap : KernelHeap s' (g.extend frames) v'
  mallocs : v.Mallocs size s.heapTop p v'
  memory : HeadersOnly (g.extend frames) v' s.mem s'.mem
  needed : ∀ k < frames.length,
    s.heapEnd + 4096 * k < s.alignedTop + sizeofBlockHeader + size
  searched : frames ≠ [] → ¬FreeBlockFits s size
  taken : pmmGetFreeFrameCount s'.pmm + frames.length = pmmGetFreeFrameCount s.pmm
  carved : ¬FreeBlockFits s size → p ≠ 0 →
    p = s.alignedTop + sizeofBlockHeader ∧ s'.heapTop = p + size
  served : p ≠ 0 ↔ HasRoom s size
  trace : p ≠ 0 → s'.trace = s.trace

theorem SpelledHeap.freeBlockFits_iff {free : List ℕ} (h : SpelledHeap s g free) :
    FreeBlockFits s size ↔ ∃ a ∈ free, size ≤ s.word g a := by
  rw [← h.someFits_iff]
  constructor
  · rintro ⟨free', hlist, hfits⟩
    rwa [hlist.unique h.spells] at hfits
  · intro hfits
    exact ⟨free, h.spells, hfits⟩

/-- A block of the free list is handed out. -/
theorem KernelHeap.malloc_fits (h : KernelHeap s g v) (hpos : size ≠ 0)
    (hfits : FreeBlockFits s size) :
    ∃ p s' v', MyOS.malloc size s = .ok p s' ∧ Malloced s g v size p s' [] v' := by
  have hwords := (h.heap.spelled h.space (.inl h.cr3)).freeBlockFits_iff.mp hfits
  rcases h.heap.mallocWalk_spec h.space (.inl h.cr3) size with
    ⟨-, hsmall⟩ | ⟨a, m, head, free, hfit, hwalk, hspace, hinv, hmem⟩
  · obtain ⟨a, ha, hle⟩ := hwords
    have := hsmall a ha
    omega
  · obtain ⟨k, hk, -⟩ := hinv.heap.live_block (a := a) (n := size) List.mem_cons_self
    have hbound : a + 8 + k ≤ s.heapTop := (hinv.block_bounds hk).2.2.2.2
    have hheap : KernelHeap { s with mem := m, freeListHead := head } (g.extend [])
        (v.reuse free a size) := by
      rw [g.extend_nil]
      exact ⟨hspace, hinv, h.cr3⟩
    refine ⟨a + 8, _, _, ?_, hheap, .reused (by omega), ?_, by simp, by simp, rfl,
      fun hnone => absurd hfits hnone, ?_, fun _ => rfl⟩
    · unfold MyOS.malloc
      rw [if_neg hpos, bind_of_ok hwalk]
      rfl
    · rw [g.extend_nil]
      exact hmem
    · exact iff_of_true (by omega) (.inl hfits)

/-- The heap grows for the block, as far as there are frames. -/
theorem KernelHeap.malloc_grows (h : KernelHeap s g v) (hpos : size ≠ 0)
    (hfits : ¬FreeBlockFits s size)
    (hlow : s.alignedTop + sizeofBlockHeader + size ≤ 2 ^ 22) :
    ∃ p s' frames v', MyOS.malloc size s = .ok p s' ∧ Malloced s g v size p s' frames v' := by
  have hspelled := h.heap.spelled h.space (.inl h.cr3)
  have hsmall : ∀ b ∈ v.free, s.word g b < size := by
    intro b hb
    by_contra hge
    exact hfits (hspelled.freeBlockFits_iff.mpr ⟨b, hb, by omega⟩)
  have hneed : s.heapNeed size = s.alignedTop + sizeofBlockHeader + size :=
    Nat.mod_eq_of_lt (by omega)
  obtain ⟨frames, t, hgrown, -, hmalloc⟩ :=
    hspelled.malloc_low hpos hsmall (.inl (by rw [hneed]; exact hlow))
  have hinv : HeapInvariant t (g.extend frames) v :=
    h.heap.alignTop.extend hgrown.heapTop hgrown.freeListHead hgrown.heapEnd hgrown.bytes
  have hcr3 : t.cr3 = (g.extend frames).root := hgrown.cr3.trans h.cr3
  have htop : t.heapTop = s.alignedTop := hgrown.heapTop
  have hend : t.heapEnd = s.heapEnd + 4096 * frames.length := hgrown.heapEnd
  have htaken : pmmGetFreeFrameCount t.pmm + frames.length = pmmGetFreeFrameCount s.pmm :=
    hgrown.taken
  obtain ⟨hle, -, haligned⟩ := hspelled.alignedTop_le
  have hneeded := hgrown.needed
  rw [hneed] at hneeded hmalloc
  by_cases hroom : s.alignedTop + sizeofBlockHeader + size ≤ t.heapEnd
  · rw [if_pos hroom] at hmalloc
    obtain ⟨m, hcarve, hspace, hinv', -, hm⟩ := hinv.mallocCarve_spec hgrown.space (.inl hcr3)
      (show t.heapTop % 4 = 0 by omega)
      (show t.heapTop + 8 + size ≤ t.heapEnd by unfold sizeofBlockHeader at hroom; omega)
    refine ⟨_, _, frames, _, hmalloc.trans hcarve, ⟨hspace, hinv', hcr3⟩, .carved (by omega), ?_,
      hneeded, fun _ => hfits, htaken, fun _ _ => ⟨congrArg (· + 8) htop, rfl⟩, ?_,
      fun _ => hgrown.trace (by rw [hneed]; exact hroom)⟩
    · have hblock : (t.heapTop, size) ∈ (v.carve t.heapTop size).blocks := List.mem_cons_self
      intro x htable hx
      have hlow : t.mem x = s.mem x := hgrown.outside x htable
      have hfirst := set32_of_header (m := t.mem) (o := 0) hblock (by simp only; omega) (by omega)
        hx size
      rw [← hlow, ← hfirst]
      change m x = _
      rw [hm]
      exact set32_of_header (o := 4) hblock (by simp only; omega) (by omega) hx 0
    · exact iff_of_true (by omega) (.inr (by omega))
  · rw [if_neg hroom] at hmalloc
    refine ⟨0, t, frames, v, hmalloc, ⟨hgrown.space, hinv, hcr3⟩, .null, ?_, hneeded,
      fun _ => hfits, htaken, fun _ hp => absurd rfl hp, ?_, fun hp => absurd rfl hp⟩
    · intro x htable _
      exact hgrown.outside x htable
    · refine iff_of_false (by omega) ?_
      rintro (hfits' | hframes)
      · exact hfits hfits'
      · rcases hgrown.enough with henough | hnone
        · omega
        · omega

theorem KernelHeap.malloc_low (h : KernelHeap s g v) (hpos : size ≠ 0)
    (hlow : FreeBlockFits s size ∨ s.alignedTop + sizeofBlockHeader + size ≤ 2 ^ 22) :
    ∃ p s' frames v', MyOS.malloc size s = .ok p s' ∧ Malloced s g v size p s' frames v' := by
  by_cases hfits : FreeBlockFits s size
  · obtain ⟨p, s', v', hrun, hmalloced⟩ := h.malloc_fits hpos hfits
    exact ⟨p, s', [], v', hrun, hmalloced⟩
  · exact h.malloc_grows hpos hfits (hlow.resolve_left hfits)

/-! ## The driver's cells -/

/-- Bytes of the parameter block, and those of the `n` pages of the windows. -/
def DriverCell (s : Machine) (n va : ℕ) : Prop :=
  (∃ k < sizeofBpb, va = s.bpb + k) ∨ fatVirtAddr ≤ va ∧ va < fatVirtAddr + 4096 * n

/-- The driver reads there what it read before. -/
def CellsKept (n : ℕ) (s s' : Machine) : Prop :=
  ∀ va, DriverCell s n va → ∀ b, load8 va s = .ok b s → load8 va s' = .ok b s'

/-- The parameter block lies in a block of the heap, and the windows have `n` pages. -/
structure DriverHeap (s : Machine) (n : ℕ) (g : Layout) (v : HeapView) : Prop
    extends KernelHeap s g v where
  windows : g.windows.length = n
  windows_le : n ≤ 256
  block : ∃ a, s.bpb = a + 8 ∧ (a, sizeofBpb) ∈ v.live

/-- Two areas that are live do not meet. -/
theorem HeapInvariant.live_apart (hh : HeapInvariant s g v) {a k b m : ℕ} (ha : (a, k) ∈ v.live)
    (hb : (b, m) ∈ v.live) (hne : a ≠ b) : a + 8 + k ≤ b ∨ b + 8 + m ≤ a := by
  obtain ⟨k', hk, hle⟩ := hh.heap.live_block ha
  obtain ⟨m', hm, hle'⟩ := hh.heap.live_block hb
  rcases hh.heap.separate hk hm with heq | hsep | hsep
  · exact absurd (congrArg Prod.fst heq) hne
  · simp only at hsep
    omega
  · simp only at hsep
    omega

theorem DriverHeap.inHeap_bpb (h : DriverHeap s n g v) {k : ℕ} (hk : k < sizeofBpb) :
    g.InHeap (s.bpb + k) ∧ ∀ b ∈ v.blocks, s.bpb + k < b.1 ∨ b.1 + 8 ≤ s.bpb + k := by
  obtain ⟨a, hbpb, ha⟩ := h.block
  rw [hbpb]
  exact h.heap.live_bounds ha hk

theorem DriverHeap.cell_lt (h : DriverHeap s n g v) {va : ℕ} (hva : DriverCell s n va) :
    va < 2 ^ 22 := by
  have hn := h.windows_le
  rcases hva with ⟨k, hk, rfl⟩ | ⟨-, hlt⟩
  · exact h.space.inHeap_lt (h.inHeap_bpb hk).1
  · unfold fatVirtAddr at hlt
    omega

/-- A window that the heap has not taken has a frame of its own. -/
theorem DriverHeap.window_frame (h : DriverHeap s n g v) {va : ℕ} (hlow : fatVirtAddr ≤ va)
    (hhigh : va < fatVirtAddr + 4096 * n) (hheap : ¬g.InHeap va) :
    ∃ f, g.Owns (.window (va / 4096 - windowPage)) f ∧ f % 4096 = 0 ∧
      g.phys va = f + va % 4096 := by
  unfold fatVirtAddr at hlow hhigh
  have hwin : g.InWindows va := by
    unfold Layout.InWindows windowPage
    rw [h.windows]
    omega
  exact h.space.phys_window hwin hheap

/-- A byte of the heap is none of the driver's. -/
theorem DriverHeap.apart (h : DriverHeap s n g v) {x va : ℕ} (hx : g.InHeap x)
    (hne : x ≠ va) (hva : DriverCell s n va) : g.phys x ≠ g.phys va := by
  by_cases hin : g.InHeap va
  · exact h.space.phys_inj hx hin hne
  · rcases hva with ⟨k, hk, rfl⟩ | ⟨hlow, hhigh⟩
    · exact absurd (h.inHeap_bpb hk).1 hin
    · obtain ⟨f, hf, hfa, hpf⟩ := h.window_frame hlow hhigh hin
      obtain ⟨f', hf', hfa', hpf'⟩ := h.space.phys_heap hx
      have hother := h.space.exact.ne_of_owner_ne hf' hf (by simp)
      omega

/-- The driver's bytes lie outside the low table. -/
theorem DriverHeap.cell_table (h : DriverHeap s n g v) {va : ℕ} (hva : DriverCell s n va) :
    g.phys va < g.table0 ∨ g.table0 + 4096 ≤ g.phys va := by
  have hout : ∀ o f, g.Owns o f → f % 4096 = 0 → (∀ r, g.roleOwner r ≠ o) →
      f + 4096 ≤ g.table0 ∨ g.table0 + 4096 ≤ f := fun o f hf _ ho =>
    h.space.outside hf ho (show g.plan.frame .low = some g.table0 from rfl)
  by_cases hin : g.InHeap va
  · obtain ⟨f, hf, hfa, hpf⟩ := h.space.phys_heap hin
    have := hout _ f hf hfa (fun r => by cases r <;> simp [Layout.roleOwner])
    omega
  · rcases hva with ⟨k, hk, rfl⟩ | ⟨hlow, hhigh⟩
    · exact absurd (h.inHeap_bpb hk).1 hin
    · obtain ⟨f, hf, hfa, hpf⟩ := h.window_frame hlow hhigh hin
      have := hout _ f hf hfa (fun r => by cases r <;> simp [Layout.roleOwner])
      omega

theorem DriverHeap.translate (h : DriverHeap s n g v) {va : ℕ} (hva : DriverCell s n va) :
    s.translate va = some (g.phys va) :=
  h.space.translate_phys (.inl h.cr3) (h.cell_lt hva)

/-- The driver reads what it read before where its byte has stayed and nothing is written. -/
theorem DriverHeap.cell_kept (h : DriverHeap s n g v) (h' : DriverHeap s' n (g.extend frames) v')
    (hbpb : s'.bpb = s.bpb) {written : ℕ → Prop}
    (hwritten : ∀ x, written x → (g.extend frames).InHeap x)
    (hmem : ∀ x, x < g.table0 ∨ g.table0 + 4096 ≤ x →
      (∀ va, written va → x ≠ (g.extend frames).phys va) → s'.mem x = s.mem x)
    {va : ℕ} {b : UInt8} (hva : DriverCell s n va) (hphys : (g.extend frames).phys va = g.phys va)
    (hout : ¬written va) (hload : load8 va s = .ok b s) : load8 va s' = .ok b s' := by
  have hva' : DriverCell s' n va := by
    unfold DriverCell
    rwa [hbpb]
  have hbyte : s'.mem (g.phys va) = s.mem (g.phys va) := by
    refine hmem _ (h.cell_table hva) ?_
    intro x hx
    have hne : x ≠ va := by
      rintro rfl
      exact hout hx
    rw [← hphys]
    exact (h'.apart (hwritten x hx) hne hva').symm
  rw [load8_eq (h.translate hva)] at hload
  rw [load8_eq (h'.translate hva'), hphys, hbyte]
  injection hload with hb _
  rw [hb]

/-- A heap that ends below the windows leaves all cells where they are. -/
theorem DriverHeap.cellsKept (h : DriverHeap s n g v) (h' : DriverHeap s' n (g.extend frames) v')
    (hbelow : s'.heapEnd ≤ fatVirtAddr) (hbpb : s'.bpb = s.bpb) {written : ℕ → Prop}
    (hwritten : ∀ x, written x → (g.extend frames).InHeap x ∧ ∀ k < sizeofBpb, x ≠ s.bpb + k)
    (hmem : ∀ x, x < g.table0 ∨ g.table0 + 4096 ≤ x →
      (∀ va, written va → x ≠ (g.extend frames).phys va) → s'.mem x = s.mem x) :
    CellsKept n s s' := by
  have hend : s'.heapEnd = 4096 * (g.heapPage + (g.heap ++ frames).length) := h'.heap.end_eq
  intro va hva b hload
  refine h.cell_kept h' hbpb (fun x hx => (hwritten x hx).1) hmem hva ?_ ?_ hload
  · rcases hva with ⟨k, hk, rfl⟩ | ⟨hlow, -⟩
    · exact phys_extend (h.inHeap_bpb hk).1
    · rw [List.length_append] at hend
      unfold fatVirtAddr at hlow hbelow
      unfold Layout.phys
      rw [g.lowFrame_extend_old (.inr (by omega))]
  · intro hx
    obtain ⟨hin, hout⟩ := hwritten va hx
    rcases hva with ⟨k, hk, heq⟩ | ⟨hlow, -⟩
    · exact hout k hk heq
    · have hhigh : va < 4096 * (g.heapPage + (g.heap ++ frames).length) := hin.2
      omega

/-! ## `malloc` -/

theorem HeapView.Mallocs.live (h : v.Mallocs size s.heapTop p v') (hp : p ≠ 0) :
    ∃ a, p = a + 8 ∧ v'.live = (a, size) :: v.live := by
  cases h with
  | null => exact absurd rfl hp
  | reused _ => exact ⟨_, rfl, rfl⟩
  | carved _ => exact ⟨_, rfl, rfl⟩

theorem HeapView.Mallocs.live_subset (h : v.Mallocs size s.heapTop p v') : v.live ⊆ v'.live := by
  cases h with
  | null => exact List.Subset.refl _
  | reused _ => exact List.subset_cons_self _ _
  | carved _ => exact List.subset_cons_self _ _

/-- A header of the heap. -/
def InHeader (v : HeapView) (x : ℕ) : Prop := ∃ b ∈ v.blocks, ∃ i < 8, x = b.1 + i

theorem HeapInvariant.inHeader (h : HeapInvariant s g v) {x : ℕ} (hx : InHeader v x) :
    g.InHeap x := by
  obtain ⟨b, hb, i, hi, rfl⟩ := hx
  obtain ⟨⟨hlow, -⟩, ⟨-, hhigh⟩, haligned, -⟩ := h.block_bounds (a := b.1) (n := b.2) hb
  exact ⟨by omega, by omega⟩

/-- What `malloc` writes are headers. -/
theorem Malloced.mem_eq (h : Malloced s g v size p s' frames v') {x : ℕ}
    (htable : x < g.table0 ∨ g.table0 + 4096 ≤ x)
    (hx : ∀ va, InHeader v' va → x ≠ (g.extend frames).phys va) : s'.mem x = s.mem x :=
  h.memory x htable fun b hb i hi => hx _ ⟨b, hb, i, hi, rfl⟩

theorem DriverHeap.malloced (h : DriverHeap s n g v) (hm : Malloced s g v size p s' frames v')
    (hbpb : s'.bpb = s.bpb) : DriverHeap s' n (g.extend frames) v' := by
  obtain ⟨a, ha, hblock⟩ := h.block
  exact ⟨hm.heap, h.windows, h.windows_le, a, hbpb.trans ha, hm.mallocs.live_subset hblock⟩

/-- The block is the caller's own as far as it lies below the windows. -/
theorem DriverHeap.own (h : DriverHeap s n g v) (hm : Malloced s g v size p s' frames v')
    (hbpb : s'.bpb = s.bpb) (hp : p ≠ 0) {area : ℕ} (harea : area ≤ size)
    (hclear : p + area ≤ fatVirtAddr) : OwnMemory s' (DriverCell s' n) p area := by
  have h' := h.malloced hm hbpb
  obtain ⟨a, ha, hblock⟩ := h.block
  obtain ⟨c, rfl, hlive⟩ := hm.mallocs.live hp
  have hc : (c, size) ∈ v'.live := by
    rw [hlive]
    exact List.mem_cons_self
  have hin : ∀ i < area, (g.extend frames).InHeap (c + 8 + i) := fun i hi =>
    (h'.heap.live_bounds hc (by omega)).1
  have htranslate : ∀ i < area, s'.translate (c + 8 + i) =
      some ((g.extend frames).phys (c + 8 + i)) := fun i hi =>
    h'.space.translate_phys (.inl h'.cr3) (h'.space.inHeap_lt (hin i hi))
  refine ⟨fun i hi => ⟨_, htranslate i hi⟩, ?_, ?_, ?_⟩
  · intro i hi j hj heq
    rw [htranslate i hi, htranslate j hj] at heq
    by_contra hne
    exact h'.space.phys_inj (hin i hi) (hin j hj) (by omega) (Option.some.inj heq)
  · intro i hi pa hpa
    rw [htranslate i hi] at hpa
    rw [← Option.some.inj hpa, h'.cr3]
    exact h'.space.not_inTables (hin i hi)
  · intro i hi va hva heq
    rw [htranslate i hi, h'.translate hva] at heq
    refine h'.apart (hin i hi) ?_ hva (Option.some.inj heq).symm
    rcases hva with ⟨k, hk, rfl⟩ | ⟨hlow, -⟩
    · -- the parameter block is another live area
      have hne : c ≠ a := by
        rintro rfl
        have hnodup : (v'.live.map Prod.fst).Nodup :=
          (List.nodup_append.mp h'.heap.heap.nodup).1
        rw [hlive, List.map_cons, List.nodup_cons] at hnodup
        exact hnodup.1 (List.mem_map.mpr ⟨_, hblock, rfl⟩)
      have := h'.heap.live_apart hc (hm.mallocs.live_subset hblock) hne
      omega
    · omega

/-- The free list is as it was if the block was cut off the end. -/
theorem Malloced.free_eq (h : Malloced s g v size p s' frames v') (hfits : ¬FreeBlockFits s size)
    (hle : s.heapTop ≤ s.alignedTop) : v'.free = v.free := by
  obtain ⟨-, hmallocs, -, -, -, -, hcarved, -⟩ := h
  cases hmallocs with
  | null => rfl
  | reused hbelow =>
      have := (hcarved hfits (by omega)).1
      unfold sizeofBlockHeader at this
      omega
  | carved _ => rfl

/-- What the machine's frames hold is all that matters of its memory. -/
theorem DriverHeap.of_owned (h : DriverHeap s n g v) {m : ByteMemory}
    (hm : ∀ o f, g.Owns o f → ∀ i < 4096, m (f + i) = s.mem (f + i)) :
    DriverHeap { s with mem := m } n g v ∧ CellsKept n s { s with mem := m } := by
  have hheap : ∀ x, g.InHeap x → m (g.phys x) = s.mem (g.phys x) := by
    intro x hx
    obtain ⟨f, hf, -, hpf⟩ := h.space.phys_heap hx
    rw [hpf]
    exact hm _ f hf _ (Nat.mod_lt _ (by omega))
  have hspace : KernelSpace { s with mem := m } g := by
    refine h.space.of_bytes ?_
    intro r f hr o ho
    exact hm _ f (h.space.valid.owns_role hr) o ho
  have hinv : HeapInvariant { s with mem := m } g v := by
    refine h.heap.of_words rfl rfl rfl ?_
    intro b hb
    obtain ⟨h1, h2, haligned, -, -⟩ := h.heap.block_bounds (a := b.1) (n := b.2) hb
    have hword : ∀ x, g.InHeap x → x % 4 = 0 → Machine.word { s with mem := m } g x = s.word g x := by
      intro x hx hxa
      unfold Machine.word
      refine get32_congr ?_
      intro i hi
      rw [← phys_add g (by omega)]
      exact hheap _ ⟨by have := hx.1; omega, by have := hx.2; omega⟩
    exact ⟨hword _ h1 haligned, hword _ h2 (by omega)⟩
  have hdriver : DriverHeap { s with mem := m } n g v :=
    ⟨⟨hspace, hinv, h.cr3⟩, h.windows, h.windows_le, h.block⟩
  refine ⟨hdriver, ?_⟩
  intro va hva b hload
  have hbyte : m (g.phys va) = s.mem (g.phys va) := by
    by_cases hin : g.InHeap va
    · exact hheap va hin
    · rcases hva with ⟨k, hk, rfl⟩ | ⟨hlow, hhigh⟩
      · exact absurd (h.inHeap_bpb hk).1 hin
      · obtain ⟨f, hf, -, hpf⟩ := h.window_frame hlow hhigh hin
        rw [hpf]
        exact hm _ f hf _ (Nat.mod_lt _ (by omega))
  rw [load8_eq (h.translate hva)] at hload
  rw [load8_eq (hdriver.translate hva), ← EStateM.Result.ok.inj hload |>.1]
  exact congrArg (EStateM.Result.ok · _) hbyte

/-- A request below the windows returns, with memory apart from the driver's if there is room. -/
theorem DriverHeap.malloc (h : DriverHeap s n g v) (hpos : size ≠ 0)
    (hbelow : BelowWindows s size) :
    ∃ p s' g' v', MyOS.malloc size s = .ok p s' ∧ (p ≠ 0 ↔ HasRoom s size) ∧ DriverHeap s' n g' v' ∧
      s'.heapEnd ≤ fatVirtAddr ∧ CellsKept n s s' ∧ (p ≠ 0 → s'.trace = s.trace) ∧
      (p ≠ 0 → OwnMemory s' (DriverCell s' n) p size) := by
  obtain ⟨p, s', frames, v', hrun, hm⟩ := h.malloc_low hpos
    (hbelow.2.imp id fun hle => by unfold fatVirtAddr at hle; omega)
  have hdriver := (heapBlind_driver.malloc size).ok hrun
  simp only [Prod.mk.injEq] at hdriver
  obtain ⟨hbpb, -⟩ := hdriver
  have h' := h.malloced hm hbpb
  have hend : s.heapEnd = 4096 * (g.heapPage + g.heap.length) := h.heap.end_eq
  have hend' : s'.heapEnd = 4096 * (g.heapPage + (g.heap ++ frames).length) := hm.heap.heap.end_eq
  rw [List.length_append] at hend'
  have hbelow' : s'.heapEnd ≤ fatVirtAddr := by
    cases frames with
    | nil =>
        have := hbelow.1
        simp only [List.length_nil] at hend'
        omega
    | cons f frames =>
        have hlast := hm.needed frames.length (by simp)
        rw [List.length_cons] at hend'
        have hle := hbelow.2.resolve_left (hm.searched (by simp))
        unfold fatVirtAddr at hle ⊢
        omega
  refine ⟨p, s', _, v', hrun, hm.served, h', hbelow', ?_, hm.trace, ?_⟩
  · refine h.cellsKept h' hbelow' hbpb ?_ fun x => hm.mem_eq
    rintro x ⟨b, hb, i, hi, rfl⟩
    refine ⟨hm.heap.heap.inHeader ⟨b, hb, i, hi, rfl⟩, ?_⟩
    intro k hk heq
    rw [← hbpb] at heq
    have := (h'.inHeap_bpb hk).2 b hb
    omega
  · intro hp
    refine h.own hm hbpb hp (Nat.le_refl _) ?_
    obtain ⟨c, rfl, hlive⟩ := hm.mallocs.live hp
    have hlast := (hm.heap.heap.live_bounds (a := c) (n := size) (i := size - 1)
      (by rw [hlive]; exact List.mem_cons_self) (by omega)).1.2
    change _ < 4096 * (g.heapPage + (g.heap ++ frames).length) at hlast
    rw [List.length_append] at hlast
    omega

end MyOS
