import MyOS.Lib.BlockHeap
import MyOS.Verification.Memory.Moves

/-! The heap's pages as the kernel sees them: where its bytes lie, and what loads and stores
through the low table do to its words. -/

namespace MyOS

open Effect X86Paging ByteMemory PageTables Ownership

variable {s s' : Machine} {g : Layout}

/-- Where the byte at a low address lies. -/
def Layout.phys (g : Layout) (va : ℕ) : ℕ := g.lowFrame (va / 4096) + va % 4096

/-- The address lies in one of the heap's pages. -/
def Layout.InHeap (g : Layout) (va : ℕ) : Prop :=
  4096 * g.heapPage ≤ va ∧ va < 4096 * (g.heapPage + g.heap.length)

/-- An address in the windows of the file system. -/
def Layout.InWindows (g : Layout) (va : ℕ) : Prop :=
  4096 * windowPage ≤ va ∧ va < 4096 * (windowPage + g.windows.length)

/-- The word at an aligned low address. -/
def Machine.word (s : Machine) (g : Layout) (va : ℕ) : ℕ := s.mem.get32 (g.phys va)

theorem phys_add (g : Layout) {va k : ℕ} (h : va % 4096 + k < 4096) :
    g.phys (va + k) = g.phys va + k := by
  have hdiv : (va + k) / 4096 = va / 4096 := by omega
  unfold Layout.phys
  rw [hdiv]
  omega

theorem KernelSpace.inHeap_lt (h : KernelSpace s g) {va : ℕ} (hva : g.InHeap va) :
    va < 2 ^ 22 := by
  have := h.valid.heap_fits
  have := hva.2
  omega

/-- A byte of the heap lies in a frame the heap owns. -/
theorem KernelSpace.phys_heap (h : KernelSpace s g) {va : ℕ} (hva : g.InHeap va) :
    ∃ f, g.Owns (.heap (va / 4096 - g.heapPage)) f ∧ f % 4096 = 0 ∧ g.phys va = f + va % 4096 := by
  obtain ⟨hlow, hhigh⟩ := hva
  have hidx : va / 4096 - g.heapPage < g.heap.length := by omega
  have hget : g.heap[va / 4096 - g.heapPage]? = some g.heap[va / 4096 - g.heapPage] :=
    List.getElem?_eq_getElem hidx
  refine ⟨_, hget, (h.frame_bounds (o := .heap _) hget).1, ?_⟩
  unfold Layout.phys Layout.lowFrame
  rw [if_pos (by omega), hget, Option.getD_some]

/-- Outside the heap and the windows the low 4 MiB are mapped to themselves. -/
theorem Layout.lowFrame_identity (g : Layout) {va : ℕ} (hheap : ¬g.InHeap va)
    (hwin : ¬g.InWindows va) : g.lowFrame (va / 4096) = 4096 * (va / 4096) := by
  have hfixed : g.fixedFrame (va / 4096) = 4096 * (va / 4096) := by
    unfold Layout.fixedFrame
    by_cases hj : windowPage ≤ va / 4096
    · have hnone : g.windows[va / 4096 - windowPage]? = none := by
        refine List.getElem?_eq_none ?_
        by_contra hin
        exact hwin ⟨by omega, by omega⟩
      rw [if_pos hj, hnone, Option.getD_none]
    · rw [if_neg hj]
  unfold Layout.lowFrame
  by_cases hj : g.heapPage ≤ va / 4096
  · have hnone : g.heap[va / 4096 - g.heapPage]? = none := by
      refine List.getElem?_eq_none ?_
      by_contra hin
      exact hheap ⟨by omega, by omega⟩
    rw [if_pos hj, hnone, Option.getD_none, hfixed]
  · rw [if_neg hj, hfixed]

/-- A byte of the windows lies in a frame the windows own, unless the heap took the page. -/
theorem KernelSpace.phys_window (h : KernelSpace s g) {va : ℕ} (hva : g.InWindows va)
    (hheap : ¬g.InHeap va) :
    ∃ f, g.Owns (.window (va / 4096 - windowPage)) f ∧ f % 4096 = 0 ∧
      g.phys va = f + va % 4096 := by
  obtain ⟨hlow, hhigh⟩ := hva
  have hidx : va / 4096 - windowPage < g.windows.length := by omega
  have hget : g.windows[va / 4096 - windowPage]? = some g.windows[va / 4096 - windowPage] :=
    List.getElem?_eq_getElem hidx
  have hfixed : g.fixedFrame (va / 4096) = g.windows[va / 4096 - windowPage] := by
    unfold Layout.fixedFrame
    rw [if_pos (by omega), hget, Option.getD_some]
  refine ⟨_, hget, (h.frame_bounds (o := .window _) hget).1, ?_⟩
  unfold Layout.phys Layout.lowFrame
  rw [hfixed]
  by_cases hj : g.heapPage ≤ va / 4096
  · have hnone : g.heap[va / 4096 - g.heapPage]? = none := by
      refine List.getElem?_eq_none ?_
      by_contra hin
      exact hheap ⟨by omega, by omega⟩
    rw [if_pos hj, hnone, Option.getD_none]
  · rw [if_neg hj]

/-- Different addresses of the heap are different bytes. -/
theorem KernelSpace.phys_inj (h : KernelSpace s g) {va x : ℕ} (hva : g.InHeap va)
    (hx : g.InHeap x) (hne : va ≠ x) : g.phys va ≠ g.phys x := by
  obtain ⟨f, hf, hfa, hpf⟩ := h.phys_heap hva
  obtain ⟨f', hf', hfa', hpf'⟩ := h.phys_heap hx
  intro heq
  rw [hpf, hpf'] at heq
  have hff : f = f' := by omega
  rw [hff] at hf
  have howner := h.exact.exclusive _ _ f' hf hf'
  simp only [Owner.heap.injEq] at howner
  have := hva.1
  have := hx.1
  omega

/-- The heap lies outside the tables of the kernel's directory. -/
theorem KernelSpace.not_inTables (h : KernelSpace s g) {va : ℕ} (hva : g.InHeap va) :
    ¬InTables s.mem g.root (g.phys va) := by
  obtain ⟨b, hb, -, hphys⟩ := h.phys_heap hva
  have hapart : ∀ r f, g.plan.frame r = some f → b + 4096 ≤ f ∨ f + 4096 ≤ b := fun r f hr =>
    h.outside hb (fun r hne => by cases r <;> cases hne) hr
  have hroot := hapart .root _ rfl
  have hframe : ∀ f, f % 4096 = 0 → frameOf (f + 3) = f := fun f hf => frameOf_add hf (by omega)
  rintro (hin | ⟨i, hi, hp, hin⟩)
  · omega
  · have hentry : entry s.mem g.root i = if i = 0 then g.table0 + 3
        else if i = 1022 then pte 3 g.temp else if i = 1023 then g.root + 3 else 0 :=
      h.holds .root _ i _ rfl hi rfl
    rw [hentry] at hp hin
    by_cases h0 : i = 0
    · rw [if_pos h0, hframe _ h.valid.table0_aligned] at hin
      have := hapart .low _ rfl
      omega
    · rw [if_neg h0] at hp hin
      by_cases hwindow : i = 1022
      · rw [if_pos hwindow] at hp hin
        cases ht : g.temp with
        | none =>
            rw [ht] at hp
            exact absurd hp (by decide)
        | some t =>
            have htemp := hapart .temp t ht
            rw [ht, pte, hframe _ (h.frame_bounds (o := .temp) ht).1] at hin
            omega
      · rw [if_neg hwindow] at hp hin
        by_cases hself : i = 1023
        · rw [if_pos hself, hframe _ h.valid.root_aligned] at hin
          omega
        · rw [if_neg hself] at hp
          exact absurd hp (by decide)

theorem KernelSpace.translate_phys (h : KernelSpace s g) (hdir : g.IsDir s.cr3) {va : ℕ}
    (hva : va < 2 ^ 22) : s.translate va = some (g.phys va) := by
  rw [translate_eq h.paging (by omega), h.translate_low (h.active hdir) hva]
  rfl

theorem KernelSpace.load32_word (h : KernelSpace s g) (hdir : g.IsDir s.cr3) {va : ℕ}
    (hva : va < 2 ^ 22) (haligned : va % 4 = 0) : load32 va s = .ok (s.word g va) s := by
  refine load32_eq ?_
  intro k hk
  rw [h.translate_phys hdir (by omega), phys_add g (by omega)]

/-- No byte outside the heap differs. -/
def HeapOnly (g : Layout) (m m' : ByteMemory) : Prop :=
  ∀ x, (∀ va, g.InHeap va → x ≠ g.phys va) → m' x = m x

theorem HeapOnly.trans {m m' m'' : ByteMemory} (h : HeapOnly g m m') (h' : HeapOnly g m' m'') :
    HeapOnly g m m'' := by
  intro x hx
  rw [h' x hx, h x hx]

theorem heapOnly_set32 {va : ℕ} (hva : g.InHeap va) (haligned : va % 4 = 0) (m : ByteMemory)
    (v : ℕ) : HeapOnly g m (m.set32 (g.phys va) v) := by
  intro x hx
  refine set32_of_outside m v ?_
  by_contra hin
  have := hva.1
  have := hva.2
  refine hx (va + (x - g.phys va)) ⟨by omega, by omega⟩ ?_
  rw [phys_add g (by omega)]
  omega

/-- Bytes of the heap may change; the tables stay. -/
theorem KernelSpace.of_heap_bytes (h : KernelSpace s g) {m : ByteMemory}
    (hm : HeapOnly g s.mem m) : KernelSpace { s with mem := m } g := by
  refine h.of_bytes ?_
  intro r f hr o ho
  refine hm _ ?_
  intro va hva heq
  obtain ⟨f', hf', hfa', hpf'⟩ := h.phys_heap hva
  have hout := h.outside hf' (fun r => by cases r <;> simp [Layout.roleOwner]) hr
  omega

theorem word_congr {m : ByteMemory} {x : ℕ} (hx : x % 4 = 0)
    (hm : ∀ i < 4, m (g.phys (x + i)) = s.mem (g.phys (x + i))) :
    m.get32 (g.phys x) = s.word g x := by
  refine get32_congr ?_
  intro i hi
  rw [← phys_add g (by omega)]
  exact hm i hi

/-- An aligned store into the heap. -/
theorem KernelSpace.store32_heap (h : KernelSpace s g) (hdir : g.IsDir s.cr3) {va : ℕ}
    (hva : g.InHeap va) (haligned : va % 4 = 0) (v : ℕ) :
    store32 va v s = .ok () { s with mem := s.mem.set32 (g.phys va) v } ∧
      KernelSpace { s with mem := s.mem.set32 (g.phys va) v } g ∧
      (s.mem.set32 (g.phys va) v).get32 (g.phys va) = v % 2 ^ 32 ∧
      ∀ x, g.InHeap x → x % 4 = 0 → x ≠ va →
        (s.mem.set32 (g.phys va) v).get32 (g.phys x) = s.word g x := by
  have hheap : ∀ i < 4, g.InHeap (va + i) := by
    intro i hi
    have := hva.1
    have := hva.2
    exact ⟨by omega, by omega⟩
  have hout : ∀ x, (∀ i < 4, x ≠ g.phys (va + i)) → s.mem.set32 (g.phys va) v x = s.mem x := by
    intro x hx
    refine set32_of_outside s.mem v ?_
    by_contra hin
    refine hx (x - g.phys va) (by omega) ?_
    rw [phys_add g (by omega)]
    omega
  refine ⟨store32_eq v (h.translate_phys hdir (h.inHeap_lt hva)), ?_, get32_set32_same _ _ _, ?_⟩
  · exact h.of_heap_bytes (heapOnly_set32 hva haligned s.mem v)
  · intro x hx hxa hne
    refine word_congr hxa ?_
    intro i hi
    refine hout _ ?_
    intro j hj
    have hxi : g.InHeap (x + i) := by
      have := hx.1
      have := hx.2
      exact ⟨by omega, by omega⟩
    exact h.phys_inj hxi (hheap j hj) (by omega)

/-- A byte stored into the heap. -/
theorem KernelSpace.store8_heap (h : KernelSpace s g) (hdir : g.IsDir s.cr3) {va : ℕ}
    (hva : g.InHeap va) (b : UInt8) :
    store8 va b s = .ok () { s with mem := s.mem.set8 (g.phys va) b } ∧
      KernelSpace { s with mem := s.mem.set8 (g.phys va) b } g ∧
      ∀ x, g.InHeap x → x % 4 = 0 → va < x ∨ x + 4 ≤ va →
        (s.mem.set8 (g.phys va) b).get32 (g.phys x) = s.word g x := by
  refine ⟨store8_eq b (h.translate_phys hdir (h.inHeap_lt hva)), ?_, ?_⟩
  · exact h.of_heap_bytes fun x hx => set8_of_ne s.mem b (hx va hva)
  · intro x hx hxa hne
    refine word_congr hxa ?_
    intro i hi
    have hxi : g.InHeap (x + i) := by
      have := hx.1
      have := hx.2
      exact ⟨by omega, by omega⟩
    exact set8_of_ne s.mem b (h.phys_inj hxi hva (by omega))

end MyOS
