import MyOS.Verification.Memory.Spaces

/-! How a loose frame finds its place: as a page of the heap, as the table of the temporary
window, as a directory, table or page of an address space, or as a kernel stack. -/

namespace MyOS

open Effect X86Paging ByteMemory PageTables Ownership

variable {s : Machine} {g g' : Layout} {a : ℕ}

/-- A layout with one frame less in hand. -/
def Layout.drop (g : Layout) (a : ℕ) : Layout :=
  { g with loose := fun f => f ≠ a ∧ g.loose f }

theorem owns_drop (g : Layout) (a : ℕ) (p : Owner) (x : ℕ) :
    (g.drop a).Owns p x ↔ g.Owns p x ∧ p ≠ .loose a := by
  cases p with
  | loose b =>
      change x = b ∧ b ≠ a ∧ g.loose b ↔ (x = b ∧ g.loose b) ∧ _
      simp only [ne_eq, Owner.loose.injEq]
      refine ⟨?_, ?_⟩
      · rintro ⟨hx, hb, hl⟩
        exact ⟨⟨hx, hl⟩, hb⟩
      · rintro ⟨⟨hx, hl⟩, hb⟩
        exact ⟨hx, hb, hl⟩
  | _ =>
      simp only [ne_eq, reduceCtorEq, not_false_iff, and_true]
      exact Iff.rfl

theorem drop_take (hnot : ¬g.loose a) : (g.take a).drop a = g := by
  have hloose : (fun f => f ≠ a ∧ (f = a ∨ g.loose f)) = g.loose := by
    funext f
    refine propext ⟨?_, ?_⟩
    · rintro ⟨hne, hf⟩
      exact hf.resolve_left hne
    · intro hf
      refine ⟨?_, .inr hf⟩
      intro heq
      rw [heq] at hf
      exact hnot hf
  change { g with loose := fun f => f ≠ a ∧ (f = a ∨ g.loose f) } = g
  rw [hloose]

/-- A frame the allocator hands out is not in hand yet. -/
theorem KernelSpace.not_loose (h : KernelSpace s g) (hne : (pmmAllocFrame s.pmm).1 ≠ 0) :
    ¬g.loose (pmmAllocFrame s.pmm).1 := by
  obtain ⟨-, -, hfree, -⟩ := usedFrame_pmmAllocFrame hne
  intro hl
  exact hfree ((h.exact.used_iff _).mpr ⟨.loose _, rfl, hl⟩)

/-- Passing a loose frame on keeps ownership exact. -/
theorem Exact.pass_loose {used : ℕ → Prop} (h : Exact g.Owns used) (ha : g.loose a) {o : Owner}
    (howns : ∀ p x, g'.Owns p x ↔ (g.drop a).Owns p x ∨ p = o ∧ x = a) : Exact g'.Owns used := by
  have hpass : ∀ p x, g'.Owns p x ↔ g.Owns p x ∧ p ≠ .loose a ∨ p = o ∧ x = a := by
    intro p x
    rw [howns p x, owns_drop]
  exact h.pass (o := .loose a) ⟨rfl, ha⟩ hpass (fun x hx => hx.1)

/-! ## The heap -/

/-- The heap with one page more. -/
def Layout.growHeap (g : Layout) (a : ℕ) : Layout := { g.drop a with heap := g.heap ++ [a] }

theorem lowFrame_growHeap (g : Layout) (a j : ℕ) :
    (g.growHeap a).lowFrame j = if j = g.heapPage + g.heap.length then a else g.lowFrame j := by
  change (if g.heapPage ≤ j then ((g.heap ++ [a])[j - g.heapPage]?).getD (g.fixedFrame j)
    else g.fixedFrame j) = _
  unfold Layout.lowFrame
  by_cases hj : g.heapPage ≤ j
  · rw [if_pos hj, if_pos hj]
    by_cases hlast : j = g.heapPage + g.heap.length
    · have hidx : j - g.heapPage = g.heap.length := by omega
      rw [if_pos hlast, hidx]
      simp
    · rw [if_neg hlast]
      by_cases hlt : j - g.heapPage < g.heap.length
      · rw [List.getElem?_append_left hlt]
      · have hnone : (g.heap ++ [a])[j - g.heapPage]? = none := by
          refine List.getElem?_eq_none ?_
          rw [List.length_append, List.length_singleton]
          omega
        rw [hnone, List.getElem?_eq_none (by omega)]
  · rw [if_neg hj, if_neg hj, if_neg (by omega)]

theorem getElem?_append_singleton {l : List ℕ} {a k x : ℕ} :
    (l ++ [a])[k]? = some x ↔ l[k]? = some x ∨ k = l.length ∧ x = a := by
  by_cases hk : k < l.length
  · have hne : k ≠ l.length := by omega
    rw [List.getElem?_append_left hk]
    simp [hne]
  · have hold : l[k]? = none := List.getElem?_eq_none (by omega)
    rw [hold, List.getElem?_append_right (by omega), List.getElem?_singleton]
    by_cases hlast : k = l.length
    · simp [hlast, eq_comm]
    · have hpos : ¬k - l.length = 0 := by omega
      rw [if_neg hpos]
      simp [hlast]

theorem KernelSpace.growHeap (h : KernelSpace s g) (ha : g.loose a)
    (hfits : g.heapPage + g.heap.length < 1024) :
    KernelSpace
      { s with mem := s.mem.set32 (g.table0 + 4 * (g.heapPage + g.heap.length)) (a + 3) }
      (g.growHeap a) := by
  have hv := h.valid
  have hbound := (h.frame_bounds (o := .loose a) (f := a) ⟨rfl, ha⟩).2
  refine ⟨h.paging, h.root_eq, h.capacity, ?_, ?_, ?_⟩
  · refine ⟨hv.root_aligned, hv.table0_aligned, hv.root_lt, hv.table0_lt, hv.root_ne, ?_,
      hv.table_range, hv.page_range, hv.temp_some⟩
    change g.heapPage + (g.heap ++ [a]).length ≤ 1024
    rw [List.length_append, List.length_singleton]
    omega
  · refine Exact.pass_loose h.exact ha (o := .heap g.heap.length) ?_
    intro p x
    cases p with
    | heap k =>
        change (g.heap ++ [a])[k]? = some x ↔ g.heap[k]? = some x ∨ _
        simp only [Owner.heap.injEq]
        exact getElem?_append_singleton
    | _ => simp only [reduceCtorEq, false_and, or_false]; exact Iff.rfl
  · refine h.holds.write h.separate (r := .low) rfl hfits (fun r => by cases r <;> rfl) ?_
    intro r j w hw
    cases r with
    | low =>
        by_cases hj : j = g.heapPage + g.heap.length
        · refine .inl ⟨rfl, hj, ?_⟩
          change some ((g.growHeap a).lowFrame j + 3) = some w at hw
          rw [lowFrame_growHeap, if_pos hj] at hw
          rw [Nat.mod_eq_of_lt (by omega)]
          exact (Option.some.inj hw).symm
        · refine .inr ⟨.inr hj, ?_⟩
          change some ((g.growHeap a).lowFrame j + 3) = some w at hw
          rw [lowFrame_growHeap, if_neg hj] at hw
          exact hw
    | _ => exact .inr ⟨.inl (by simp), hw⟩

/-! ## The windows of the file system -/

/-- The windows with one page more. -/
def Layout.growWindow (g : Layout) (a : ℕ) : Layout := { g.drop a with windows := g.windows ++ [a] }

theorem fixedFrame_growWindow (g : Layout) (a j : ℕ) :
    (g.growWindow a).fixedFrame j =
      if j = windowPage + g.windows.length then a else g.fixedFrame j := by
  change (if windowPage ≤ j then ((g.windows ++ [a])[j - windowPage]?).getD (4096 * j)
    else 4096 * j) = _
  unfold Layout.fixedFrame
  by_cases hj : windowPage ≤ j
  · rw [if_pos hj, if_pos hj]
    by_cases hlast : j = windowPage + g.windows.length
    · have hidx : j - windowPage = g.windows.length := by omega
      rw [if_pos hlast, hidx]
      simp
    · rw [if_neg hlast]
      by_cases hlt : j - windowPage < g.windows.length
      · rw [List.getElem?_append_left hlt]
      · have hnone : (g.windows ++ [a])[j - windowPage]? = none := by
          refine List.getElem?_eq_none ?_
          rw [List.length_append, List.length_singleton]
          omega
        rw [hnone, List.getElem?_eq_none (by omega)]
  · rw [if_neg hj, if_neg hj, if_neg (by omega)]

/-- A window behind the end of the heap. -/
theorem lowFrame_growWindow {g : Layout} (hheap : g.heapPage + g.heap.length ≤ windowPage)
    (a j : ℕ) :
    (g.growWindow a).lowFrame j =
      if j = windowPage + g.windows.length then a else g.lowFrame j := by
  change (if g.heapPage ≤ j then (g.heap[j - g.heapPage]?).getD ((g.growWindow a).fixedFrame j)
    else (g.growWindow a).fixedFrame j) = _
  rw [fixedFrame_growWindow]
  by_cases hlast : j = windowPage + g.windows.length
  · have hnone : g.heap[j - g.heapPage]? = none := List.getElem?_eq_none (by omega)
    rw [if_pos hlast, hnone, if_pos hlast]
    simp
  · rw [if_neg hlast, if_neg hlast]
    rfl

theorem KernelSpace.growWindow (h : KernelSpace s g) (ha : g.loose a)
    (hheap : g.heapPage + g.heap.length ≤ windowPage)
    (hfits : windowPage + g.windows.length < 1024) :
    KernelSpace
      { s with mem := s.mem.set32 (g.table0 + 4 * (windowPage + g.windows.length)) (a + 3) }
      (g.growWindow a) := by
  have hv := h.valid
  have hbound := (h.frame_bounds (o := .loose a) (f := a) ⟨rfl, ha⟩).2
  refine ⟨h.paging, h.root_eq, h.capacity, hv.of_frames rfl rfl rfl rfl rfl rfl, ?_, ?_⟩
  · refine Exact.pass_loose h.exact ha (o := .window g.windows.length) ?_
    intro p x
    cases p with
    | window k =>
        change (g.windows ++ [a])[k]? = some x ↔ g.windows[k]? = some x ∨ _
        simp only [Owner.window.injEq]
        exact getElem?_append_singleton
    | _ => simp only [reduceCtorEq, false_and, or_false]; exact Iff.rfl
  · refine h.holds.write h.separate (r := .low) rfl hfits (fun r => by cases r <;> rfl) ?_
    intro r j w hw
    cases r with
    | low =>
        change some ((g.growWindow a).lowFrame j + 3) = some w at hw
        by_cases hj : j = windowPage + g.windows.length
        · refine .inl ⟨rfl, hj, ?_⟩
          rw [lowFrame_growWindow hheap, if_pos hj] at hw
          rw [Nat.mod_eq_of_lt (by omega)]
          exact (Option.some.inj hw).symm
        · refine .inr ⟨.inr hj, ?_⟩
          rw [lowFrame_growWindow hheap, if_neg hj] at hw
          exact hw
    | _ => exact .inr ⟨.inl (by simp), hw⟩

/-! ## Kernel stacks -/

/-- Slot `i` gets a kernel stack. -/
def Layout.giveStack (g : Layout) (i a : ℕ) : Layout :=
  { g.drop a with stack := Function.update g.stack i (some a) }

theorem KernelSpace.giveStack (h : KernelSpace s g) (ha : g.loose a) {i : ℕ}
    (hi : g.stack i = none) : KernelSpace s (g.giveStack i a) := by
  refine ⟨h.paging, h.root_eq, h.capacity, h.valid.of_frames rfl rfl rfl rfl rfl rfl, ?_, h.holds⟩
  refine Exact.pass_loose h.exact ha (o := .stack i) ?_
  intro p x
  cases p with
  | stack i' =>
      change Function.update g.stack i (some a) i' = some x ↔ g.stack i' = some x ∨ _
      by_cases hii : i' = i
      · subst hii
        simp [hi, eq_comm]
      · simp [hii]
  | _ => simp only [reduceCtorEq, false_and, or_false]; exact Iff.rfl

/-! ## The temporary window -/

/-- The table of the temporary window is made. -/
def Layout.makeTemp (g : Layout) (t : ℕ) : Layout := { g.drop t with temp := some t }

theorem KernelSpace.makeTemp (h : KernelSpace s g) {t : ℕ} (ht : g.loose t)
    (hnone : g.temp = none) :
    KernelSpace
      { s with mem := (s.mem.fill t 4096 fun _ => 0).set32 (g.root + 4 * 1022) (t + 3) }
      (g.makeTemp t) := by
  have hv := h.valid
  have hown : g.Owns (.loose t) t := ⟨rfl, ht⟩
  have hbound := h.frame_bounds hown
  have hspace : ∀ i, g.space i = none := by
    intro i
    cases hi : g.space i with
    | none => rfl
    | some sp =>
        obtain ⟨t', ht'⟩ := hv.temp_some i sp hi
        rw [hnone] at ht'
        cases ht'
  have hfilled : Holds (s.mem.fill t 4096 fun _ => 0) g.plan := by
    refine h.holds.fill_outside ?_
    intro r f hf
    exact h.outside hown (fun r => by cases r <;> simp [Layout.roleOwner]) hf
  have hlinked : Holds ((s.mem.fill t 4096 fun _ => 0).set32 (g.root + 4 * 1022) (t + 3))
      (g.plan.set .root 1022 (t + 3)) :=
    hfilled.set h.separate rfl (by omega) (by omega)
  refine ⟨h.paging, h.root_eq, h.capacity, ?_, ?_, ?_⟩
  · refine ⟨hv.root_aligned, hv.table0_aligned, hv.root_lt, hv.table0_lt, hv.root_ne,
      hv.heap_fits, hv.table_range, hv.page_range, fun _ _ _ => ⟨t, rfl⟩⟩
  · refine Exact.pass_loose h.exact ht (o := .temp) ?_
    intro p x
    cases p with
    | temp =>
        change some t = some x ↔ g.temp = some x ∨ _
        simp [hnone, eq_comm]
    | _ => simp only [reduceCtorEq, false_and, or_false]; exact Iff.rfl
  · refine hlinked.add (r := .temp) (f := t) ?_ ?_ ?_
    · intro r f hf
      cases r with
      | temp => exact .inl ⟨rfl, (Option.some.inj hf).symm⟩
      | _ => exact .inr ⟨by simp, hf⟩
    · intro r j w hr hw
      cases r with
      | temp => exact absurd rfl hr
      | root =>
          have hval : (g.makeTemp t).plan.value .root j =
              some (if j = 0 then g.table0 + 3 else if j = 1022 then t + 3
                else if j = 1023 then g.root + 3 else 0) := rfl
          have hold : g.plan.value .root j =
              some (if j = 0 then g.table0 + 3 else if j = 1022 then pte 3 g.temp
                else if j = 1023 then g.root + 3 else 0) := rfl
          rw [hval] at hw
          by_cases hj : j = 1022
          · rw [hj, Plan.set_value_same]
            simpa [hj] using hw
          · rw [Plan.set_value_of_ne _ _ (.inr hj), hold]
            simpa [hj] using hw
      | low =>
          rw [Plan.set_value_of_ne _ _ (.inl (by simp))]
          exact hw
      | dir i =>
          change (g.space i).map _ = some w at hw
          rw [hspace i] at hw
          cases hw
      | table i k =>
          change (g.space i).map _ = some w at hw
          rw [hspace i] at hw
          cases hw
    · intro j w hj hw
      have hroot : g.root ≠ t := by
        refine h.exact.ne_of_owner_ne (o := .boot g.root) ⟨rfl, hv.root_aligned, hv.root_lt⟩ hown ?_
        simp
      have hw' : (if j < 1022 then some 0 else none) = some w := hw
      rw [entry_set32_frame _ _ hv.root_aligned hbound.1 (by omega) hj (Ne.symm hroot),
        entry_fill_zero _ hj]
      by_cases hlt : j < 1022
      · rw [if_pos hlt] at hw'
        exact Option.some.inj hw'
      · rw [if_neg hlt] at hw'
        cases hw'

/-- The two open entries of the temporary window may hold anything. -/
theorem KernelSpace.setTemp (h : KernelSpace s g) {t : ℕ} (ht : g.temp = some t) {j : ℕ}
    (hj : 1022 ≤ j) (hlt : j < 1024) (v : ℕ) :
    KernelSpace { s with mem := s.mem.set32 (t + 4 * j) v } g := by
  refine ⟨h.paging, h.root_eq, h.capacity, h.valid, h.exact, ?_⟩
  refine h.holds.write h.separate (r := .temp) ht hlt (fun _ => rfl) ?_
  intro r i w hw
  refine .inr ⟨?_, hw⟩
  by_cases hr : r = .temp
  · refine .inr fun hi => ?_
    rw [hr, hi] at hw
    have hw' : (if j < 1022 then some 0 else none) = some w := hw
    rw [if_neg (by omega)] at hw'
    cases hw'
  · exact .inl hr

/-! ## Address spaces -/

theorem exists_update_self {α β : Type} {f : ℕ → Option α} {i : ℕ} {x : α} {q : α → β} {y : β} :
    (∃ sp, Function.update f i (some x) i = some sp ∧ q sp = y) ↔ q x = y := by
  simp

theorem exists_update_of_ne {α β : Type} {f : ℕ → Option α} {i i' : ℕ} {o : Option α} {q : α → β}
    {y : β} (h : i' ≠ i) :
    (∃ sp, Function.update f i o i' = some sp ∧ q sp = y) ↔ ∃ sp, f i' = some sp ∧ q sp = y := by
  simp [h]

theorem exists_eq_self {α β : Type} {o : Option α} {x : α} (h : o = some x) {q : α → β} {y : β} :
    (∃ sp, o = some sp ∧ q sp = y) ↔ q x = y := by
  simp [h]

/-- A directory that shares the kernel's tables becomes the space of slot `i`. -/
def Layout.addSpace (g : Layout) (i d : ℕ) : Layout :=
  { g.drop d with space := Function.update g.space i (some ⟨d, fun _ => none, fun _ _ => none⟩) }

theorem KernelSpace.addSpace (h : KernelSpace s g) {i d t : ℕ} (hd : g.loose d)
    (hi : g.space i = none) (ht : g.temp = some t)
    (hentry : ∀ k < 1024, entry s.mem d k = if k = 0 then g.table0 + 3
      else if k = 1022 then t + 3 else if k = 1023 then d + 3 else 0) :
    KernelSpace s (g.addSpace i d) := by
  have hv := h.valid
  refine ⟨h.paging, h.root_eq, h.capacity, ?_, ?_, ?_⟩
  · refine ⟨hv.root_aligned, hv.table0_aligned, hv.root_lt, hv.table0_lt, hv.root_ne,
      hv.heap_fits, ?_, ?_, fun _ _ _ => ⟨t, ht⟩⟩
    · intro i' sp k f hsp htable
      by_cases hii : i' = i
      · rw [hii] at hsp
        obtain rfl : _ = sp := Option.some.inj ((Function.update_self i _ _).symm.trans hsp)
        cases htable
      · exact hv.table_range i' sp k f ((Function.update_of_ne hii _ _).symm.trans hsp) htable
    · intro i' sp k j f hsp hpage
      by_cases hii : i' = i
      · rw [hii] at hsp
        obtain rfl : _ = sp := Option.some.inj ((Function.update_self i _ _).symm.trans hsp)
        cases hpage
      · exact hv.page_range i' sp k j f ((Function.update_of_ne hii _ _).symm.trans hsp) hpage
  · refine Exact.pass_loose h.exact hd (o := .dir i) ?_
    intro p x
    cases p with
    | dir i' =>
        change (∃ sp, Function.update g.space i _ i' = some sp ∧ Space.dir sp = x) ↔
          (∃ sp, g.space i' = some sp ∧ Space.dir sp = x) ∨ _
        by_cases hii : i' = i
        · rw [hii, exists_update_self]
          simp [hi, eq_comm]
        · rw [exists_update_of_ne hii]
          simp [hii]
    | table i' k =>
        change (∃ sp, Function.update g.space i _ i' = some sp ∧ Space.table sp k = some x) ↔
          (∃ sp, g.space i' = some sp ∧ Space.table sp k = some x) ∨ _
        by_cases hii : i' = i
        · rw [hii, exists_update_self]
          simp [hi]
        · rw [exists_update_of_ne hii]
          simp
    | page i' k j =>
        change (∃ sp, Function.update g.space i _ i' = some sp ∧ Space.page sp k j = some x) ↔
          (∃ sp, g.space i' = some sp ∧ Space.page sp k j = some x) ∨ _
        by_cases hii : i' = i
        · rw [hii, exists_update_self]
          simp [hi]
        · rw [exists_update_of_ne hii]
          simp
    | _ => simp only [reduceCtorEq, false_and, or_false]; exact Iff.rfl
  · intro r f j w hf hj hw
    cases r with
    | root => exact h.holds .root f j w hf hj hw
    | low => exact h.holds .low f j w hf hj hw
    | temp => exact h.holds .temp f j w hf hj hw
    | dir i' =>
        by_cases hii : i' = i
        · have hfd : d = f := by simpa [Layout.plan, Layout.addSpace, hii] using hf
          rw [← hfd, hentry j hj]
          have hw' : (if j = 0 then g.table0 + 3 else if j = 1022 then pte 3 g.temp
              else if j = 1023 then d + 3 else 0) = w := by
            simpa [Layout.plan, Layout.addSpace, Layout.drop, hii, pte] using hw
          rw [ht] at hw'
          exact hw'
        · refine h.holds (.dir i') f j w ?_ hj ?_
          · simpa [Layout.plan, Layout.addSpace, hii] using hf
          · simpa [Layout.plan, Layout.addSpace, Layout.drop, hii] using hw
    | table i' k =>
        by_cases hii : i' = i
        · simp [Layout.plan, Layout.addSpace, hii] at hf
        · refine h.holds (.table i' k) f j w ?_ hj ?_
          · simpa [Layout.plan, Layout.addSpace, hii] using hf
          · simpa [Layout.plan, Layout.addSpace, hii] using hw

/-- Space `i` gets a table for entry `k`. -/
def Layout.addTable (g : Layout) (i : ℕ) (sp : Space) (k t : ℕ) : Layout :=
  { g.drop t with
    space := Function.update g.space i
      (some { sp with table := Function.update sp.table k (some t) }) }

theorem KernelSpace.addTable (h : KernelSpace s g) {i k t : ℕ} {sp : Space} (ht : g.loose t)
    (hsp : g.space i = some sp) (hk : 1 ≤ k) (hk' : k < 1022) (hnone : sp.table k = none) :
    KernelSpace { s with mem := (s.mem.fill t 4096 fun _ => 0).set32 (sp.dir + 4 * k) (t + 7) }
      (g.addTable i sp k t) := by
  have hv := h.valid
  have hown : g.Owns (.loose t) t := ⟨rfl, ht⟩
  have hbound := h.frame_bounds hown
  have hpages : ∀ j, sp.page k j = none := by
    intro j
    cases hj : sp.page k j with
    | none => rfl
    | some f =>
        obtain ⟨-, t', ht'⟩ := hv.page_range i sp k j f hsp hj
        rw [hnone] at ht'
        cases ht'
  have hdir : g.plan.frame (.dir i) = some sp.dir := by simp [Layout.plan, hsp]
  have hfilled : Holds (s.mem.fill t 4096 fun _ => 0) g.plan := by
    refine h.holds.fill_outside ?_
    intro r f hf
    exact h.outside hown (fun r => by cases r <;> simp [Layout.roleOwner]) hf
  have hlinked : Holds ((s.mem.fill t 4096 fun _ => 0).set32 (sp.dir + 4 * k) (t + 7))
      (g.plan.set (.dir i) k (t + 7)) :=
    hfilled.set h.separate hdir (by omega) (by omega)
  refine ⟨h.paging, h.root_eq, h.capacity, ?_, ?_, ?_⟩
  · refine ⟨hv.root_aligned, hv.table0_aligned, hv.root_lt, hv.table0_lt, hv.root_ne,
      hv.heap_fits, ?_, ?_, ?_⟩
    · intro i' sp' k' f hsp' htable
      by_cases hii : i' = i
      · rw [hii] at hsp'
        obtain rfl : _ = sp' := Option.some.inj ((Function.update_self i _ _).symm.trans hsp')
        by_cases hkk : k' = k
        · rw [hkk]
          exact ⟨hk, hk'⟩
        · exact hv.table_range i sp k' f hsp ((Function.update_of_ne hkk _ _).symm.trans htable)
      · exact hv.table_range i' sp' k' f ((Function.update_of_ne hii _ _).symm.trans hsp') htable
    · intro i' sp' k' j f hsp' hpage
      by_cases hii : i' = i
      · rw [hii] at hsp'
        obtain rfl : _ = sp' := Option.some.inj ((Function.update_self i _ _).symm.trans hsp')
        obtain ⟨hj, t', ht'⟩ := hv.page_range i sp k' j f hsp hpage
        by_cases hkk : k' = k
        · rw [hkk, hnone] at ht'
          cases ht'
        · exact ⟨hj, t', (Function.update_of_ne hkk _ _).trans ht'⟩
      · exact hv.page_range i' sp' k' j f ((Function.update_of_ne hii _ _).symm.trans hsp') hpage
    · intro i' sp' hsp'
      exact hv.temp_some i sp hsp
  · refine Exact.pass_loose h.exact ht (o := .table i k) ?_
    intro p x
    cases p with
    | dir i' =>
        change (∃ sp', Function.update g.space i _ i' = some sp' ∧ Space.dir sp' = x) ↔
          (∃ sp', g.space i' = some sp' ∧ Space.dir sp' = x) ∨ _
        by_cases hii : i' = i
        · rw [hii, exists_update_self, exists_eq_self hsp]
          simp
        · rw [exists_update_of_ne hii]
          simp
    | table i' k' =>
        change (∃ sp', Function.update g.space i _ i' = some sp' ∧ Space.table sp' k' = some x) ↔
          (∃ sp', g.space i' = some sp' ∧ Space.table sp' k' = some x) ∨ _
        by_cases hii : i' = i
        · rw [hii, exists_update_self, exists_eq_self hsp]
          by_cases hkk : k' = k
          · simp [hkk, hnone, eq_comm]
          · simp [hkk]
        · rw [exists_update_of_ne hii]
          simp [hii]
    | page i' k' j =>
        change (∃ sp', Function.update g.space i _ i' = some sp' ∧ Space.page sp' k' j = some x) ↔
          (∃ sp', g.space i' = some sp' ∧ Space.page sp' k' j = some x) ∨ _
        by_cases hii : i' = i
        · rw [hii, exists_update_self, exists_eq_self hsp]
          simp
        · rw [exists_update_of_ne hii]
          simp
    | _ => simp only [reduceCtorEq, false_and, or_false]; exact Iff.rfl
  · refine hlinked.add (r := .table i k) (f := t) ?_ ?_ ?_
    · intro r f hf
      cases r with
      | dir i' =>
          refine .inr ⟨by simp, ?_⟩
          by_cases hii : i' = i
          · simpa [Layout.plan, Layout.addTable, Plan.set, hii, hsp] using hf
          · simpa [Layout.plan, Layout.addTable, Plan.set, hii] using hf
      | table i' k' =>
          by_cases hii : i' = i
          · by_cases hkk : k' = k
            · have hft : t = f := by simpa [Layout.plan, Layout.addTable, hii, hkk] using hf
              exact .inl ⟨by rw [hii, hkk], hft.symm⟩
            · refine .inr ⟨by simp [hkk], ?_⟩
              simpa [Layout.plan, Layout.addTable, Plan.set, hii, hkk, hsp] using hf
          · refine .inr ⟨by simp [hii], ?_⟩
            simpa [Layout.plan, Layout.addTable, Plan.set, hii] using hf
      | _ => exact .inr ⟨by simp, hf⟩
    · intro r j w hr hw
      cases r with
      | dir i' =>
          by_cases hii : i' = i
          · by_cases hjk : j = k
            · rw [hii, hjk, Plan.set_value_same]
              have h0 : ¬k = 0 := by omega
              have h1 : ¬k = 1022 := by omega
              have h2 : ¬k = 1023 := by omega
              simpa [Layout.plan, Layout.addTable, hii, hjk, h0, h1, h2, pte] using hw
            · rw [Plan.set_value_of_ne _ _ (.inr hjk)]
              simpa [Layout.plan, Layout.addTable, Layout.drop, hii, hjk, hsp] using hw
          · rw [Plan.set_value_of_ne _ _ (.inl (by simp [hii]))]
            simpa [Layout.plan, Layout.addTable, Layout.drop, hii] using hw
      | table i' k' =>
          rw [Plan.set_value_of_ne _ _ (.inl (by simp))]
          by_cases hii : i' = i
          · simpa [Layout.plan, Layout.addTable, hii, hsp] using hw
          · simpa [Layout.plan, Layout.addTable, hii] using hw
      | _ =>
          rw [Plan.set_value_of_ne _ _ (.inl (by simp))]
          exact hw
    · intro j w hj hw
      have hne : sp.dir ≠ t := h.exact.ne_of_owner_ne (h.valid.owns_role hdir) hown (by
        simp [Layout.roleOwner])
      rw [entry_set32_frame _ _ (h.separate.aligned _ _ hdir) hbound.1 (by omega) hj (Ne.symm hne),
        entry_fill_zero _ hj]
      simpa [Layout.plan, Layout.addTable, hpages, pte] using hw

/-- The pages of a space with one changed. -/
def Space.setPage (sp : Space) (k j : ℕ) (o : Option ℕ) : Space :=
  { sp with page := Function.update sp.page k (Function.update (sp.page k) j o) }

theorem Space.setPage_same (sp : Space) (k j : ℕ) (o : Option ℕ) :
    (sp.setPage k j o).page k j = o := by
  simp [Space.setPage]

theorem Space.setPage_of_ne (sp : Space) {k j k' j' : ℕ} (o : Option ℕ) (h : k' ≠ k ∨ j' ≠ j) :
    (sp.setPage k j o).page k' j' = sp.page k' j' := by
  by_cases hk : k' = k
  · have hj : j' ≠ j := by
      rcases h with h | h
      · exact absurd hk h
      · exact h
    simp [Space.setPage, hk, hj]
  · simp [Space.setPage, hk]

/-- Page `j` behind entry `k` of space `i` gets a frame. The frame it had stays in use, but
nothing leads to it any more. -/
def Layout.setPage (g : Layout) (i : ℕ) (sp : Space) (k j a : ℕ) : Layout :=
  { g with
    space := Function.update g.space i (some (sp.setPage k j (some a)))
    loose := fun f => f ≠ a ∧ g.loose f ∨ sp.page k j = some f }

/-- Taking a page out of a space leaves its frame loose. -/
private def Layout.evict (g : Layout) (i : ℕ) (sp : Space) (k j : ℕ) : Layout :=
  { g with
    space := Function.update g.space i (some (sp.setPage k j none))
    loose := fun f => g.loose f ∨ sp.page k j = some f }

private theorem owns_evict_page {i k j : ℕ} {sp : Space} (hsp : g.space i = some sp)
    (p : Owner) (x : ℕ) (hp : ∀ b, p ≠ .loose b) :
    (g.evict i sp k j).Owns p x ↔ g.Owns p x ∧ p ≠ .page i k j := by
  cases p with
  | dir i' =>
      change (∃ sp', Function.update g.space i _ i' = some sp' ∧ Space.dir sp' = x) ↔
        (∃ sp', g.space i' = some sp' ∧ Space.dir sp' = x) ∧ _
      by_cases hii : i' = i
      · rw [hii, exists_update_self, exists_eq_self hsp]
        simp [Space.setPage]
      · rw [exists_update_of_ne hii]
        simp
  | table i' k' =>
      change (∃ sp', Function.update g.space i _ i' = some sp' ∧ Space.table sp' k' = some x) ↔
        (∃ sp', g.space i' = some sp' ∧ Space.table sp' k' = some x) ∧ _
      by_cases hii : i' = i
      · rw [hii, exists_update_self, exists_eq_self hsp]
        simp [Space.setPage]
      · rw [exists_update_of_ne hii]
        simp
  | page i' k' j' =>
      change (∃ sp', Function.update g.space i _ i' = some sp' ∧ Space.page sp' k' j' = some x) ↔
        (∃ sp', g.space i' = some sp' ∧ Space.page sp' k' j' = some x) ∧ _
      by_cases hii : i' = i
      · rw [hii, exists_update_self, exists_eq_self hsp]
        by_cases hkj : k' ≠ k ∨ j' ≠ j
        · rw [sp.setPage_of_ne none hkj]
          have hne : Owner.page i k' j' ≠ .page i k j := by
            intro heq
            simp only [Owner.page.injEq, true_and] at heq
            rcases hkj with hk | hj
            · exact hk heq.1
            · exact hj heq.2
          simp only [hne, ne_eq, not_false_iff, and_true]
        · obtain ⟨rfl, rfl⟩ : k' = k ∧ j' = j := by
            simpa only [not_or, ne_eq, Decidable.not_not] using hkj
          rw [sp.setPage_same]
          simp
      · rw [exists_update_of_ne hii]
        simp [hii]
  | loose b => exact absurd rfl (hp b)
  | _ =>
      simp only [ne_eq, reduceCtorEq, not_false_iff, and_true]
      exact Iff.rfl

private theorem exact_evict {used : ℕ → Prop} (h : Exact g.Owns used) {i k j : ℕ} {sp : Space}
    (hsp : g.space i = some sp) : Exact (g.evict i sp k j).Owns used := by
  cases hold : sp.page k j with
  | none =>
      refine ⟨?_, ?_⟩
      all_goals
        have hsame : ∀ p x, (g.evict i sp k j).Owns p x ↔ g.Owns p x := by
          intro p x
          by_cases hp : ∀ b, p ≠ .loose b
          · rw [owns_evict_page hsp p x hp]
            refine and_iff_left_of_imp ?_
            rintro hx rfl
            have hx' : sp.page k j = some x := (exists_eq_self hsp).mp hx
            rw [hold] at hx'
            cases hx'
          · obtain ⟨b, rfl⟩ : ∃ b, p = .loose b := by simpa using hp
            change x = b ∧ (g.loose b ∨ sp.page k j = some b) ↔ x = b ∧ g.loose b
            rw [hold]
            simp
      · intro o o' f ho ho'
        exact h.exclusive o o' f ((hsame o f).mp ho) ((hsame o' f).mp ho')
      · intro f
        rw [h.used_iff f]
        exact exists_congr fun o => (hsame o f).symm
  | some b =>
      have hpage : g.Owns (.page i k j) b := ⟨sp, hsp, hold⟩
      have hpass : ∀ p x, (g.evict i sp k j).Owns p x ↔
          g.Owns p x ∧ p ≠ .page i k j ∨ p = .loose b ∧ x = b := by
        intro p x
        by_cases hp : ∀ b, p ≠ .loose b
        · rw [owns_evict_page hsp p x hp]
          simp [hp b]
        · obtain ⟨c, rfl⟩ : ∃ c, p = .loose c := by simpa using hp
          change x = c ∧ (g.loose c ∨ sp.page k j = some c) ↔ (x = c ∧ g.loose c) ∧ _ ∨ _
          rw [hold]
          simp only [Option.some.injEq, ne_eq, reduceCtorEq, not_false_iff, and_true,
            Owner.loose.injEq]
          refine ⟨?_, ?_⟩
          · rintro ⟨rfl, hl | rfl⟩
            · exact .inl ⟨rfl, hl⟩
            · exact .inr ⟨rfl, rfl⟩
          · rintro (⟨rfl, hl⟩ | ⟨rfl, rfl⟩)
            · exact ⟨rfl, .inl hl⟩
            · exact ⟨rfl, .inr rfl⟩
      refine h.pass hpage hpass ?_
      intro x hx
      have hx' : sp.page k j = some x := (exists_eq_self hsp).mp hx
      rw [hold] at hx'
      exact (Option.some.inj hx').symm

private theorem owns_setPage {i k j : ℕ} {sp : Space} (hne : sp.page k j ≠ some a) (p : Owner)
    (x : ℕ) :
    (g.setPage i sp k j a).Owns p x ↔
      ((g.evict i sp k j).drop a).Owns p x ∨ p = .page i k j ∧ x = a := by
  cases p with
  | dir i' =>
      simp only [reduceCtorEq, false_and, or_false]
      change (∃ sp', Function.update g.space i _ i' = some sp' ∧ Space.dir sp' = x) ↔
        ∃ sp', Function.update g.space i _ i' = some sp' ∧ Space.dir sp' = x
      by_cases hii : i' = i
      · rw [hii, exists_update_self, exists_update_self]
        rfl
      · rw [exists_update_of_ne hii, exists_update_of_ne hii]
  | table i' k' =>
      simp only [reduceCtorEq, false_and, or_false]
      change (∃ sp', Function.update g.space i _ i' = some sp' ∧ Space.table sp' k' = some x) ↔
        ∃ sp', Function.update g.space i _ i' = some sp' ∧ Space.table sp' k' = some x
      by_cases hii : i' = i
      · rw [hii, exists_update_self, exists_update_self]
        rfl
      · rw [exists_update_of_ne hii, exists_update_of_ne hii]
  | page i' k' j' =>
      change (∃ sp', Function.update g.space i _ i' = some sp' ∧ Space.page sp' k' j' = some x) ↔
        (∃ sp', Function.update g.space i _ i' = some sp' ∧ Space.page sp' k' j' = some x) ∨ _
      by_cases hii : i' = i
      · rw [hii, exists_update_self, exists_update_self]
        by_cases hkj : k' ≠ k ∨ j' ≠ j
        · rw [sp.setPage_of_ne _ hkj, sp.setPage_of_ne _ hkj]
          simp only [Owner.page.injEq, true_and]
          refine (or_iff_left ?_).symm
          intro h
          rcases hkj with hk | hj
          · exact hk h.1.1
          · exact hj h.1.2
        · obtain ⟨rfl, rfl⟩ : k' = k ∧ j' = j := by
            simpa only [not_or, ne_eq, Decidable.not_not] using hkj
          rw [sp.setPage_same, sp.setPage_same]
          simp [eq_comm]
      · rw [exists_update_of_ne hii, exists_update_of_ne hii]
        simp [hii]
  | loose b =>
      simp only [reduceCtorEq, false_and, or_false]
      change x = b ∧ (b ≠ a ∧ g.loose b ∨ sp.page k j = some b) ↔
        x = b ∧ b ≠ a ∧ (g.loose b ∨ sp.page k j = some b)
      refine and_congr_right fun _ => ⟨?_, ?_⟩
      · rintro (⟨hba, hl⟩ | hb)
        · exact ⟨hba, .inl hl⟩
        · exact ⟨fun hba => hne (hba ▸ hb), .inr hb⟩
      · rintro ⟨hba, hl | hb⟩
        · exact .inl ⟨hba, hl⟩
        · exact .inr hb
  | _ => simp only [reduceCtorEq, false_and, or_false]; exact Iff.rfl

theorem KernelSpace.setPage (h : KernelSpace s g) {i k j t : ℕ} {sp : Space} (ha : g.loose a)
    (hsp : g.space i = some sp) (ht : sp.table k = some t) (hj : j < 1024) :
    KernelSpace { s with mem := s.mem.set32 (t + 4 * j) (a + 7) } (g.setPage i sp k j a) := by
  have hv := h.valid
  have hbound := h.frame_bounds (o := .loose a) (f := a) ⟨rfl, ha⟩
  have htable : g.plan.frame (.table i k) = some t := by simp [Layout.plan, hsp, ht]
  refine ⟨h.paging, h.root_eq, h.capacity, ?_, ?_, ?_⟩
  · refine ⟨hv.root_aligned, hv.table0_aligned, hv.root_lt, hv.table0_lt, hv.root_ne,
      hv.heap_fits, ?_, ?_, ?_⟩
    · intro i' sp' k' f hsp' htable'
      by_cases hii : i' = i
      · rw [hii] at hsp'
        obtain rfl : _ = sp' := Option.some.inj ((Function.update_self i _ _).symm.trans hsp')
        exact hv.table_range i sp k' f hsp htable'
      · exact hv.table_range i' sp' k' f ((Function.update_of_ne hii _ _).symm.trans hsp') htable'
    · intro i' sp' k' j' f hsp' hpage
      by_cases hii : i' = i
      · rw [hii] at hsp'
        obtain rfl : _ = sp' := Option.some.inj ((Function.update_self i _ _).symm.trans hsp')
        by_cases hkj : k' ≠ k ∨ j' ≠ j
        · rw [sp.setPage_of_ne _ hkj] at hpage
          exact hv.page_range i sp k' j' f hsp hpage
        · obtain ⟨rfl, rfl⟩ : k' = k ∧ j' = j := by
            simpa only [not_or, ne_eq, Decidable.not_not] using hkj
          exact ⟨hj, t, ht⟩
      · exact hv.page_range i' sp' k' j' f ((Function.update_of_ne hii _ _).symm.trans hsp') hpage
    · intro i' sp' hsp'
      exact hv.temp_some i sp hsp
  · have hne : sp.page k j ≠ some a := by
      intro hpage
      have howner := h.exact.exclusive (.page i k j) (.loose a) a ⟨sp, hsp, hpage⟩ ⟨rfl, ha⟩
      cases howner
    exact Exact.pass_loose (exact_evict h.exact hsp) (.inl ha) (owns_setPage hne)
  · refine h.holds.write h.separate htable hj ?_ ?_
    · intro r
      cases r with
      | dir i' =>
          by_cases hii : i' = i
          · simp [Layout.plan, Layout.setPage, Space.setPage, hii, hsp]
          · simp [Layout.plan, Layout.setPage, hii]
      | table i' k' =>
          by_cases hii : i' = i
          · simp [Layout.plan, Layout.setPage, Space.setPage, hii, hsp]
          · simp [Layout.plan, Layout.setPage, hii]
      | _ => rfl
    · intro r j' w hw
      cases r with
      | dir i' =>
          refine .inr ⟨.inl (by simp), ?_⟩
          by_cases hii : i' = i
          · simpa [Layout.plan, Layout.setPage, Space.setPage, hii, hsp] using hw
          · simpa [Layout.plan, Layout.setPage, hii] using hw
      | table i' k' =>
          by_cases hii : i' = i
          · have hw' : pte 7 ((sp.setPage k j (some a)).page k' j') = w := by
              simpa [Layout.plan, Layout.setPage, hii] using hw
            by_cases hkj : k' ≠ k ∨ j' ≠ j
            · rw [sp.setPage_of_ne _ hkj] at hw'
              refine .inr ⟨?_, by simp [Layout.plan, hii, hsp, hw']⟩
              rcases hkj with hk | hj
              · exact .inl (by simp [hk])
              · exact .inr hj
            · obtain ⟨rfl, rfl⟩ : k' = k ∧ j' = j := by
                simpa only [not_or, ne_eq, Decidable.not_not] using hkj
              rw [sp.setPage_same] at hw'
              refine .inl ⟨by rw [hii], rfl, ?_⟩
              rw [← hw', Nat.mod_eq_of_lt (by omega)]
              rfl
          · refine .inr ⟨.inl (by simp [hii]), ?_⟩
            simpa [Layout.plan, Layout.setPage, hii] using hw
      | _ => exact .inr ⟨.inl (by simp), hw⟩

/-! ## Giving back -/

/-- The layout without the space of slot `i`. -/
def Layout.dropSpace (g : Layout) (i : ℕ) : Layout :=
  { g with space := Function.update g.space i none }

/-- The owners that make up an address space. -/
def Owner.OfSpace (i : ℕ) : Owner → Prop
  | .dir i' => i' = i
  | .table i' _ => i' = i
  | .page i' _ _ => i' = i
  | _ => False

private theorem exists_update_none {α β : Type} {f : ℕ → Option α} {i i' : ℕ} {q : α → β} {y : β} :
    (∃ sp, Function.update f i none i' = some sp ∧ q sp = y) ↔
      (∃ sp, f i' = some sp ∧ q sp = y) ∧ ¬i' = i := by
  by_cases hii : i' = i
  · simp [hii]
  · simp [hii]

theorem owns_dropSpace (g : Layout) (i : ℕ) (p : Owner) (x : ℕ) :
    (g.dropSpace i).Owns p x ↔ g.Owns p x ∧ ¬p.OfSpace i := by
  cases p with
  | dir i' => exact exists_update_none
  | table i' k => exact exists_update_none
  | page i' k j => exact exists_update_none
  | _ => simp only [Owner.OfSpace, not_false_iff, and_true]; exact Iff.rfl

/-- The frames of an address space are freed; memory keeps the other tables. -/
theorem KernelSpace.dropSpace (h : KernelSpace s g) {i : ℕ} {m : ByteMemory} {p : Pmm}
    (hholds : Holds m g.plan) (hcap : p.capacity = s.pmm.capacity)
    (hused : ∀ f, p.UsedFrame f ↔
      s.pmm.UsedFrame f ∧ ∀ o : Owner, o.OfSpace i → ¬g.Owns o f) :
    KernelSpace { s with mem := m, pmm := p } (g.dropSpace i) := by
  have hv := h.valid
  have hspace : ∀ {i' sp}, (g.dropSpace i).space i' = some sp → g.space i' = some sp ∧ i' ≠ i := by
    intro i' sp hsp
    by_cases hii : i' = i
    · simp [Layout.dropSpace, hii] at hsp
    · exact ⟨(Function.update_of_ne hii _ _).symm.trans hsp, hii⟩
  refine ⟨h.paging, h.root_eq, hcap.trans h.capacity, ?_, ?_, ?_⟩
  · refine ⟨hv.root_aligned, hv.table0_aligned, hv.root_lt, hv.table0_lt, hv.root_ne,
      hv.heap_fits, ?_, ?_, ?_⟩
    · intro i' sp k f hsp
      exact hv.table_range i' sp k f (hspace hsp).1
    · intro i' sp k j f hsp
      exact hv.page_range i' sp k j f (hspace hsp).1
    · intro i' sp hsp
      exact hv.temp_some i' sp (hspace hsp).1
  · exact h.exact.release (Owner.OfSpace i) (owns_dropSpace g i) hused
  · refine hholds.of_plan ?_ ?_
    · intro r f hf
      cases r with
      | dir i' =>
          by_cases hii : i' = i
          · simp [Layout.plan, Layout.dropSpace, hii] at hf
          · simpa [Layout.plan, Layout.dropSpace, hii] using hf
      | table i' k =>
          by_cases hii : i' = i
          · simp [Layout.plan, Layout.dropSpace, hii] at hf
          · simpa [Layout.plan, Layout.dropSpace, hii] using hf
      | _ => exact hf
    · intro r f j w hf hj hw
      cases r with
      | dir i' =>
          by_cases hii : i' = i
          · simp [Layout.plan, Layout.dropSpace, hii] at hf
          · simpa [Layout.plan, Layout.dropSpace, hii] using hw
      | table i' k =>
          by_cases hii : i' = i
          · simp [Layout.plan, Layout.dropSpace, hii] at hf
          · simpa [Layout.plan, Layout.dropSpace, hii] using hw
      | _ => exact hw

/-- The layout without the kernel stack of slot `i`. -/
def Layout.dropStack (g : Layout) (i : ℕ) : Layout :=
  { g with stack := Function.update g.stack i none }

theorem KernelSpace.dropStack (h : KernelSpace s g) {i : ℕ} (hi : g.stack i = some a) :
    KernelSpace { s with pmm := pmmFreeFrame s.pmm a } (g.dropStack i) := by
  have haligned := (h.frame_bounds (o := .stack i) hi).1
  refine ⟨h.paging, h.root_eq, h.capacity, h.valid.of_frames rfl rfl rfl rfl rfl rfl, ?_, h.holds⟩
  refine h.exact.release (· = .stack i) ?_ ?_
  · intro p x
    cases p with
    | stack i' =>
        change Function.update g.stack i none i' = some x ↔ g.stack i' = some x ∧ _
        by_cases hii : i' = i
        · simp [hii]
        · simp [hii]
    | _ => simp only [reduceCtorEq, not_false_iff, and_true]; exact Iff.rfl
  · intro f
    rw [usedFrame_pmmFreeFrame haligned f]
    refine and_congr_right fun _ => ⟨?_, ?_⟩
    · rintro hne o rfl hown
      exact hne (Option.some.inj (hown.symm.trans hi))
    · rintro hnone rfl
      exact hnone _ rfl hi

/-- A frame in hand is given back. -/
theorem KernelSpace.freeLoose (h : KernelSpace s g) (ha : g.loose a) :
    KernelSpace { s with pmm := pmmFreeFrame s.pmm a } (g.drop a) := by
  have haligned := (h.frame_bounds (o := .loose a) (f := a) ⟨rfl, ha⟩).1
  refine ⟨h.paging, h.root_eq, h.capacity, h.valid.of_frames rfl rfl rfl rfl rfl rfl, ?_, h.holds⟩
  refine h.exact.release (· = .loose a) (owns_drop g a) ?_
  intro f
  rw [usedFrame_pmmFreeFrame haligned f]
  refine and_congr_right fun _ => ⟨?_, ?_⟩
  · rintro hne o rfl hown
    exact hne hown.1
  · rintro hnone rfl
    exact hnone _ rfl ⟨rfl, ha⟩

end MyOS
