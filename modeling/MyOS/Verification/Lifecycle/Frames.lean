import MyOS.Verification.Lifecycle.FirstProgram
import MyOS.Verification.Memory.FreeDirectory

/-! The ledger of the frames in use: what the kernel took at boot, the pages of its heap, the
windows of the file system, the table of the temporary window, and for each user process the
frames its directory leads to and its kernel stack. The page tables of the machine say which
frames these are. -/

namespace MyOS

open Effect X86Paging Ownership

/-! ## What the machine says -/

/-- Frames behind the pages of the heap, the first page being `page`. -/
def Machine.heapFrames (s : Machine) (page : ℕ) : List ℕ :=
  (List.range (s.heapEnd / 4096 - page)).map fun k =>
    frameOf (entry s.mem (frameOf (entry s.mem s.kernelDirectory 0)) (page + k))

/-- The table of the temporary window, once there is one. -/
def Machine.windowTable (s : Machine) : List ℕ :=
  if present (entry s.mem s.kernelDirectory 1022) then
    [frameOf (entry s.mem s.kernelDirectory 1022)]
  else []

/-- Frames of the process in a slot: those its directory leads to, the directory itself, and the
kernel stack. -/
def Machine.processFrames (s : Machine) (i : ℕ) : List ℕ :=
  if s.UserSlot i then
    ownedFrames s.mem (s.processTable i).pageDirectory ++ [(s.processTable i).kernelStack]
  else []

/-- All of them. -/
def Machine.ledger (s : Machine) (page : ℕ) (windows : List ℕ) : List ℕ :=
  (List.range (page + 5)).map (4096 * ·) ++ s.heapFrames page ++ windows ++ s.windowTable ++
    (List.range maxProcesses).flatMap s.processFrames

/-! ## What the layout says -/

/-- The frame of an owner. -/
def Layout.frame (g : Layout) : Owner → Option ℕ
  | .boot b => some b
  | .heap k => g.heap[k]?
  | .window k => g.windows[k]?
  | .temp => g.temp
  | .dir i => (g.space i).map (·.dir)
  | .table i k => (g.space i).bind (·.table k)
  | .page i k j => (g.space i).bind (·.page k j)
  | .stack i => g.stack i
  | .loose _ => none

/-- The owners in a process slot, a table behind its pages. -/
def slotOwners (i : ℕ) : List Owner :=
  ((List.range 767).flatMap fun k =>
    (List.range 1024).map (.page i (k + 1)) ++ [.table i (k + 1)]) ++ [.dir i, .stack i]

def Layout.owners (g : Layout) : List Owner :=
  (List.range (g.heapPage + 5)).map (fun k => .boot (4096 * k)) ++
    (List.range g.heap.length).map .heap ++ (List.range g.windows.length).map .window ++ [.temp] ++
    (List.range maxProcesses).flatMap slotOwners

variable {s : Machine} {g : Layout} {v : HeapView}

theorem mem_slotOwners {i : ℕ} {o : Owner} :
    o ∈ slotOwners i ↔ (∃ k < 767, (∃ j < 1024, o = .page i (k + 1) j) ∨ o = .table i (k + 1)) ∨
      o = .dir i ∨ o = .stack i := by
  simp [slotOwners, eq_comm]

theorem nodup_slotOwners (i : ℕ) : (slotOwners i).Nodup := by
  unfold slotOwners
  rw [List.nodup_append, List.nodup_flatMap]
  refine ⟨⟨?_, ?_⟩, by simp, ?_⟩
  · intro k _
    rw [List.nodup_append]
    refine ⟨List.nodup_range.map fun j j' h => (Owner.page.inj h).2.2, by simp, ?_⟩
    simp
  · refine List.nodup_range.imp ?_
    intro k k' hne o ho ho'
    simp only [List.mem_append, List.mem_map, List.mem_singleton] at ho ho'
    rcases ho with ⟨j, -, rfl⟩ | rfl
    · rcases ho' with ⟨j', -, heq⟩ | heq
      · simp only [Owner.page.injEq] at heq
        omega
      · cases heq
    · rcases ho' with ⟨j', -, heq⟩ | heq
      · cases heq
      · simp only [Owner.table.injEq] at heq
        omega
  · intro o ho o' ho' heq
    simp only [List.mem_flatMap, List.mem_append, List.mem_map, List.mem_singleton] at ho
    obtain ⟨k, -, ⟨j, -, rfl⟩ | rfl⟩ := ho
    · simp [← heq] at ho'
    · simp [← heq] at ho'

/-- The process slot of an owner. -/
def Owner.slot : Owner → Option ℕ
  | .dir i | .table i _ | .page i _ _ | .stack i => some i
  | _ => none

theorem slot_of_mem {i : ℕ} {o : Owner} (h : o ∈ slotOwners i) : o.slot = some i := by
  rcases mem_slotOwners.mp h with ⟨k, -, ⟨j, -, rfl⟩ | rfl⟩ | rfl | rfl <;> rfl

theorem Layout.nodup_owners (g : Layout) : g.owners.Nodup := by
  have hboot : ((List.range (g.heapPage + 5)).map fun k => Owner.boot (4096 * k)).Nodup :=
    List.nodup_range.map fun k k' h => by simpa using h
  have hheap : ((List.range g.heap.length).map Owner.heap).Nodup :=
    List.nodup_range.map fun k k' h => Owner.heap.inj h
  have hwindow : ((List.range g.windows.length).map Owner.window).Nodup :=
    List.nodup_range.map fun k k' h => Owner.window.inj h
  have hslots : ((List.range maxProcesses).flatMap slotOwners).Nodup := by
    rw [List.nodup_flatMap]
    refine ⟨fun i _ => nodup_slotOwners i, List.nodup_range.imp ?_⟩
    intro i i' hne o ho ho'
    exact hne (Option.some.inj ((slot_of_mem ho).symm.trans (slot_of_mem ho')))
  have hslot : ∀ o ∈ (List.range maxProcesses).flatMap slotOwners, o.slot ≠ none := by
    intro o ho
    obtain ⟨i, -, ho⟩ := List.mem_flatMap.mp ho
    rw [slot_of_mem ho]
    exact Option.some_ne_none i
  unfold Layout.owners
  simp only [List.nodup_append, List.mem_append, List.mem_map, List.mem_singleton]
  refine ⟨⟨⟨⟨hboot, hheap, ?_⟩, hwindow, ?_⟩, by simp, ?_⟩, hslots, ?_⟩
  · rintro _ ⟨k, -, rfl⟩ _ ⟨k', -, rfl⟩ heq
    cases heq
  · rintro _ (⟨k, -, rfl⟩ | ⟨k, -, rfl⟩) _ ⟨k', -, rfl⟩ heq <;> cases heq
  · rintro _ ((⟨k, -, rfl⟩ | ⟨k, -, rfl⟩) | ⟨k, -, rfl⟩) _ rfl heq <;> cases heq
  · rintro o ho _ ho' rfl
    rcases ho with ((⟨k, -, rfl⟩ | ⟨k, -, rfl⟩) | ⟨k, -, rfl⟩) | rfl <;> exact hslot _ ho' rfl

/-! ## Both say the same -/

theorem Spaced.space_slot (h : Spaced s g v) {i : ℕ} {sp : Space} (hsp : g.space i = some sp) :
    s.UserSlot i ∧ sp.dir = (s.processTable i).pageDirectory ∧
      ∀ k f, sp.table k = some f → 1 ≤ k ∧ k < 768 := by
  have hslot : s.UserSlot i := by
    by_contra hnot
    rw [(h.unused i hnot).1] at hsp
    cases hsp
  obtain ⟨sp', hsp', hdir, hrange⟩ := (h.user i hslot).space
  rw [hsp] at hsp'
  cases hsp'
  exact ⟨hslot, hdir, fun k f hf => ⟨(h.space.valid.table_range i sp k f hsp hf).1, hrange k f hf⟩⟩

theorem Spaced.mem_owners (h : Spaced s g v) {o : Owner} {f : ℕ} (ho : g.Owns o f) :
    o ∈ g.owners := by
  unfold Layout.owners
  simp only [List.append_assoc, List.mem_append, List.mem_map, List.mem_range, List.mem_singleton]
  cases o with
  | boot b =>
      obtain ⟨-, haligned, hlt⟩ := ho
      exact .inl ⟨b / 4096, by omega, by rw [Nat.mul_div_cancel' (Nat.dvd_of_mod_eq_zero haligned)]⟩
  | heap k => exact .inr (.inl ⟨k, (List.getElem?_eq_some_iff.mp ho).1, rfl⟩)
  | window k => exact .inr (.inr (.inl ⟨k, (List.getElem?_eq_some_iff.mp ho).1, rfl⟩))
  | temp => exact .inr (.inr (.inr (.inl rfl)))
  | dir i =>
      obtain ⟨sp, hsp, -⟩ := ho
      have hslot := (h.space_slot hsp).1
      refine .inr (.inr (.inr (.inr (List.mem_flatMap.mpr ⟨i, List.mem_range.mpr hslot.2.1, ?_⟩))))
      exact mem_slotOwners.mpr (.inr (.inl rfl))
  | table i k =>
      obtain ⟨sp, hsp, htable⟩ := ho
      obtain ⟨hslot, -, hrange⟩ := h.space_slot hsp
      have hk := hrange k f htable
      refine .inr (.inr (.inr (.inr (List.mem_flatMap.mpr ⟨i, List.mem_range.mpr hslot.2.1, ?_⟩))))
      exact mem_slotOwners.mpr (.inl ⟨k - 1, by omega, .inr (by rw [Nat.sub_add_cancel hk.1])⟩)
  | page i k j =>
      obtain ⟨sp, hsp, hpage⟩ := ho
      obtain ⟨hslot, -, hrange⟩ := h.space_slot hsp
      obtain ⟨hj, t, ht⟩ := h.space.valid.page_range i sp k j f hsp hpage
      have hk := hrange k t ht
      refine .inr (.inr (.inr (.inr (List.mem_flatMap.mpr ⟨i, List.mem_range.mpr hslot.2.1, ?_⟩))))
      exact mem_slotOwners.mpr
        (.inl ⟨k - 1, by omega, .inl ⟨j, hj, by rw [Nat.sub_add_cancel hk.1]⟩⟩)
  | stack i =>
      have hslot : s.UserSlot i := by
        by_contra hnot
        rw [Layout.Owns, (h.unused i hnot).2] at ho
        cases ho
      refine .inr (.inr (.inr (.inr (List.mem_flatMap.mpr ⟨i, List.mem_range.mpr hslot.2.1, ?_⟩))))
      exact mem_slotOwners.mpr (.inr (.inr rfl))
  | loose b => exact absurd ho.2 (h.tidy b)

theorem Spaced.owns_iff (h : Spaced s g v) (o : Owner) (f : ℕ) :
    g.Owns o f ↔ o ∈ g.owners ∧ g.frame o = some f := by
  constructor
  · intro ho
    refine ⟨h.mem_owners ho, ?_⟩
    cases o with
    | boot b => exact congrArg some ho.1.symm
    | dir i =>
        obtain ⟨sp, hsp, hdir⟩ := ho
        exact Option.map_eq_some_iff.mpr ⟨sp, hsp, hdir⟩
    | table i k =>
        obtain ⟨sp, hsp, htable⟩ := ho
        exact Option.bind_eq_some_iff.mpr ⟨sp, hsp, htable⟩
    | page i k j =>
        obtain ⟨sp, hsp, hpage⟩ := ho
        exact Option.bind_eq_some_iff.mpr ⟨sp, hsp, hpage⟩
    | loose b => exact absurd ho.2 (h.tidy b)
    | _ => exact ho
  · rintro ⟨hmem, hframe⟩
    cases o with
    | boot b =>
        have hb : b ∈ (List.range (g.heapPage + 5)).map (4096 * ·) := by
          simpa [Layout.owners, mem_slotOwners] using hmem
        obtain ⟨k, hk, rfl⟩ := List.mem_map.mp hb
        rw [List.mem_range] at hk
        refine ⟨(Option.some.inj hframe).symm, ?_, ?_⟩
        · exact Nat.mul_mod_right 4096 k
        · exact Nat.mul_lt_mul_of_pos_left hk (by decide)
    | dir i => exact Option.map_eq_some_iff.mp hframe
    | table i k => exact Option.bind_eq_some_iff.mp hframe
    | page i k j => exact Option.bind_eq_some_iff.mp hframe
    | loose b => cases hframe
    | _ => exact hframe

/-! ## The ledger -/

theorem Spaced.heapFrames_eq (h : Spaced s g v) : s.heapFrames g.heapPage = g.heap := by
  have hend := h.heap.end_eq
  have hlength : s.heapEnd / 4096 - g.heapPage = g.heap.length := by omega
  have hfits := h.space.valid.heap_fits
  have hlow : frameOf (entry s.mem s.kernelDirectory 0) = g.table0 := by
    rw [h.space.root_eq, h.space.activeRoot.low]
    exact frameOf_add h.space.valid.table0_aligned (by omega)
  unfold Machine.heapFrames
  rw [hlength, hlow]
  apply List.ext_getElem
  · simp
  · intro k hk hk'
    have hframe : g.lowFrame (g.heapPage + k) = g.heap[k] := by
      unfold Layout.lowFrame
      rw [if_pos (Nat.le_add_right _ _), Nat.add_sub_cancel_left, List.getElem?_eq_getElem hk',
        Option.getD_some]
    rw [List.getElem_map, List.getElem_range, h.space.low_entry (by omega),
      frameOf_add (h.space.lowFrame_aligned _) (by omega), hframe]

theorem present_pte {o : Option ℕ} {n : ℕ} (hn : n % 2 = 1) (ho : ∀ f, o = some f → f % 4096 = 0) :
    present (pte n o) ↔ ∃ f, o = some f := by
  cases o with
  | none => simp [pte, present]
  | some f => simp [pte, present_add (ho f rfl) hn]

/-- The frame behind an entry, if there is one. -/
theorem pte_frames {o : Option ℕ} {n : ℕ} (hn : n % 2 = 1) (hlt : n < 4096)
    (ho : ∀ f, o = some f → f % 4096 = 0) :
    (if present (pte n o) then [frameOf (pte n o)] else []) = o.toList := by
  cases o with
  | none => simp [pte, present]
  | some f =>
      rw [if_pos ((present_pte hn ho).mpr ⟨f, rfl⟩)]
      exact congrArg (fun x => [x]) (frameOf_add (ho f rfl) hlt)

theorem Spaced.windowTable_eq (h : Spaced s g v) : s.windowTable = g.temp.toList := by
  unfold Machine.windowTable
  rw [h.space.root_eq, h.space.activeRoot.window]
  exact pte_frames (by decide) (by decide) fun f hf => (h.space.frame_bounds (o := .temp) hf).1

/-- A table with the pages behind it. -/
theorem KernelSpace.entryFrames_eq (h : KernelSpace s g) {i : ℕ} {sp : Space}
    (hsp : g.space i = some sp) {k : ℕ} (hk : k < 767) :
    entryFrames s.mem (entry s.mem sp.dir (k + 1)) =
      ((List.range 1024).flatMap fun j => (sp.page (k + 1) j).toList) ++
        (sp.table (k + 1)).toList := by
  rw [h.dir_entry hsp (by omega) (by omega)]
  cases hf : sp.table (k + 1) with
  | none =>
      have hpages : ∀ j, sp.page (k + 1) j = none := by
        intro j
        cases hpage : sp.page (k + 1) j with
        | none => rfl
        | some f =>
            obtain ⟨-, t, ht⟩ := h.valid.page_range i sp (k + 1) j f hsp hpage
            rw [hf] at ht
            cases ht
      simp [entryFrames, pte, present, hpages]
  | some f =>
      have haligned := (h.frame_bounds (o := .table i (k + 1)) ⟨sp, hsp, hf⟩).1
      have htable : tableFrames s.mem f =
          (List.range 1024).flatMap fun j => (sp.page (k + 1) j).toList := by
        unfold tableFrames
        apply List.flatMap_congr
        intro j hj
        rw [h.table_entry hsp hf (List.mem_range.mp hj)]
        refine pte_frames (by decide) (by decide) ?_
        intro a ha
        exact (h.frame_bounds (o := .page i (k + 1) j) ⟨sp, hsp, ha⟩).1
      have hframe : frameOf (pte 7 (some f)) = f := frameOf_add haligned (by decide)
      have hpresent : present (pte 7 (some f)) := present_add haligned (by decide)
      rw [entryFrames, if_pos hpresent, hframe, htable]
      rfl

theorem KernelSpace.ownedFrames_eq (h : KernelSpace s g) {i : ℕ} {sp : Space}
    (hsp : g.space i = some sp) :
    ownedFrames s.mem sp.dir =
      ((List.range 767).flatMap fun k =>
        ((List.range 1024).flatMap fun j => (sp.page (k + 1) j).toList) ++
          (sp.table (k + 1)).toList) ++ [sp.dir] := by
  refine congrArg (· ++ [sp.dir]) (List.flatMap_congr ?_)
  intro k hk
  exact h.entryFrames_eq hsp (List.mem_range.mp hk)

theorem filterMap_eq_flatMap {α β : Type} (f : α → Option β) (l : List α) :
    l.filterMap f = l.flatMap fun a => (f a).toList := by
  induction l with
  | nil => rfl
  | cons a l ih => cases hf : f a <;> simp [hf, ih]

theorem Spaced.processFrames_eq (h : Spaced s g v) (i : ℕ) :
    s.processFrames i = (slotOwners i).filterMap g.frame := by
  unfold Machine.processFrames
  by_cases hslot : s.UserSlot i
  · obtain ⟨⟨sp, hsp, hdir, -⟩, hstack⟩ := h.user i hslot
    rw [if_pos hslot, ← hdir, h.space.ownedFrames_eq hsp]
    unfold slotOwners
    simp only [filterMap_eq_flatMap, List.flatMap_assoc, List.flatMap_append, List.flatMap_map]
    simp [Layout.frame, hsp, hstack]
  · obtain ⟨hspace, hstack⟩ := h.unused i hslot
    rw [if_neg hslot]
    symm
    rw [List.filterMap_eq_nil_iff]
    intro o ho
    rcases mem_slotOwners.mp ho with ⟨k, -, ⟨j, -, rfl⟩ | rfl⟩ | rfl | rfl
    · simp [Layout.frame, hspace]
    · simp [Layout.frame, hspace]
    · simp [Layout.frame, hspace]
    · exact hstack

theorem filterMap_getElem? (l : List ℕ) : (List.range l.length).filterMap (l[·]?) = l := by
  induction l with
  | nil => rfl
  | cons a l ih => simpa [List.range_succ_eq_map, List.filterMap_map, Function.comp_def] using ih

theorem Spaced.ledger_eq (h : Spaced s g v) :
    s.ledger g.heapPage g.windows = g.owners.filterMap g.frame := by
  have hboot : ((List.range (g.heapPage + 5)).map fun k => Owner.boot (4096 * k)).filterMap g.frame =
      (List.range (g.heapPage + 5)).map (4096 * ·) := by
    rw [List.filterMap_map]
    exact congrFun List.filterMap_eq_map _
  have hheap : ((List.range g.heap.length).map Owner.heap).filterMap g.frame = g.heap := by
    rw [List.filterMap_map]
    exact filterMap_getElem? g.heap
  have hwindow :
      ((List.range g.windows.length).map Owner.window).filterMap g.frame = g.windows := by
    rw [List.filterMap_map]
    exact filterMap_getElem? g.windows
  have htemp : [Owner.temp].filterMap g.frame = g.temp.toList := by
    rw [filterMap_eq_flatMap]
    exact List.flatMap_singleton _ _
  have hslots : ((List.range maxProcesses).flatMap slotOwners).filterMap g.frame =
      (List.range maxProcesses).flatMap s.processFrames := by
    rw [List.filterMap_flatMap]
    exact List.flatMap_congr fun i _ => (h.processFrames_eq i).symm
  unfold Machine.ledger Layout.owners
  rw [h.heapFrames_eq, h.windowTable_eq, List.filterMap_append, List.filterMap_append,
    List.filterMap_append, List.filterMap_append, hboot, hheap, hwindow, htemp, hslots]

/-! ## Accounting -/

/-- A list of the frames in use, each of them once, accounts for all frames. -/
theorem freeFrameCount_add_length {p : Pmm} {frames : List ℕ} (hnodup : frames.Nodup)
    (hused : ∀ f, p.UsedFrame f ↔ f ∈ frames) :
    pmmGetFreeFrameCount p + frames.length = p.capacity := by
  have hlength : frames.length = (List.range p.capacity).countP fun b => p.frameUsed b := by
    have hperm : frames.Perm (((List.range p.capacity).filter fun b => p.frameUsed b).map
        (4096 * ·)) := by
      refine (List.perm_ext_iff_of_nodup hnodup ?_).mpr ?_
      · exact (List.nodup_range.filter _).map fun a b hab => by simpa using hab
      · intro f
        rw [← hused f, List.mem_map]
        constructor
        · rintro ⟨haligned, hlt, hbit⟩
          exact ⟨f / 4096, by simpa using ⟨hlt, hbit⟩, by omega⟩
        · rintro ⟨b, hb, rfl⟩
          have hdiv : 4096 * b / 4096 = b := by omega
          obtain ⟨hlt, hbit⟩ := List.mem_filter.mp hb
          refine ⟨Nat.mul_mod_right 4096 b, ?_, ?_⟩
          · rw [hdiv]
            exact List.mem_range.mp hlt
          · rw [hdiv]
            exact hbit
    rw [hperm.length_eq, List.length_map, List.countP_eq_length_filter]
  have hsplit : (List.range p.capacity).length = _ :=
    List.length_eq_countP_add_countP fun b => p.frameUsed b
  rw [List.length_range] at hsplit
  rw [pmmGetFreeFrameCount_eq, hlength, Nat.add_comm]
  simpa using hsplit.symm

/-- The contract of the frames in one state of a run: the ledger names the frames in use, each
of them once, so the free frames are those it leaves over. -/
structure LedgerExact (s : Machine) (page : ℕ) (windows : List ℕ) : Prop where
  nodup : (s.ledger page windows).Nodup
  used_iff : ∀ f, s.pmm.UsedFrame f ↔ f ∈ s.ledger page windows
  free_count : pmmGetFreeFrameCount s.pmm + (s.ledger page windows).length = 4096

theorem Spaced.ledgerExact (h : Spaced s g v) : LedgerExact s g.heapPage g.windows := by
  obtain ⟨hnodup, hused⟩ := h.space.exact.ledger g.nodup_owners h.owns_iff
  rw [← h.ledger_eq] at hnodup hused
  refine ⟨hnodup, hused, ?_⟩
  rw [freeFrameCount_add_length hnodup hused]
  exact h.space.capacity

/-- In every state of every run, a frame is in use exactly when the kernel holds it or it belongs
to one process, and to no two owners: no frame is lost or shared in any order of starts, exits
and reaps. -/
theorem lifecycle_ledger_exact {s₀ s : Machine} {page : ℕ} {windows : List ℕ}
    (h : KernelOnly s₀ page windows) (hrun : Relation.ReflTransGen SpaceStep s₀ s) :
    LedgerExact s page windows := by
  obtain ⟨g, v, hspaced, rfl, rfl⟩ := h.steps hrun
  exact hspaced.ledgerExact

/-- From power on until the first program runs, and until its slot is free again. -/
theorem lifecycle_ledger_exact_program :
    ∃ s₁ s₂ : Machine, s₁.UserSlot 2 ∧
      LedgerExact s₁ 33 ((List.range 4).map fun k => (33 + 6 + k) * 4096) ∧ ¬s₂.UserSlot 2 ∧
      LedgerExact s₂ 33 ((List.range 4).map fun k => (33 + 6 + k) * 4096) := by
  obtain ⟨s₀, h⟩ := exists_firstBoot
  obtain ⟨s₁, s₂, hrun, hstarted, -, hend, hreaped⟩ := h.run (irqReturn 0 s₀)
  exact ⟨s₁, s₂, hstarted.userSlot (by decide), lifecycle_ledger_exact h.kernelOnly hrun,
    hreaped.not_userSlot rfl, lifecycle_ledger_exact h.kernelOnly (hrun.trans hend)⟩

end MyOS
