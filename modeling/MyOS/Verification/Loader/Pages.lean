import MyOS.Verification.Memory.Window
import Mathlib.Data.List.Dedup

/-! The address space of a program while it is filled: which pages have been mapped so far,
what their bytes are known to hold, and how many frames that took. -/

namespace MyOS

open Effect X86Paging ByteMemory PageTables Ownership

def Machine.freeFrames (s : Machine) : ℕ := pmmGetFreeFrameCount s.pmm

/-- The frame requests that got `NULL` so far. -/
def Machine.failures (s : Machine) : ℕ := s.trace.count .allocFailed

/-- Frames that pages take in an empty address space: one each, and one for every table. -/
def frameCost (pages : List ℕ) : ℕ := pages.length + (pages.map (· / 1024)).dedup.length

theorem frameCost_cons_mem {p : ℕ} {ps : List ℕ} (h : ∃ q ∈ ps, q / 1024 = p / 1024) :
    frameCost (p :: ps) = frameCost ps + 1 := by
  have hmem : p / 1024 ∈ ps.map (· / 1024) := List.mem_map.mpr h
  rw [frameCost, frameCost, List.map_cons, List.dedup_cons_of_mem hmem, List.length_cons]
  omega

theorem frameCost_cons_notMem {p : ℕ} {ps : List ℕ} (h : ¬∃ q ∈ ps, q / 1024 = p / 1024) :
    frameCost (p :: ps) = frameCost ps + 2 := by
  have hmem : p / 1024 ∉ ps.map (· / 1024) := fun hin => h (List.mem_map.mp hin)
  rw [frameCost, frameCost, List.map_cons, List.dedup_cons_of_notMem hmem, List.length_cons,
    List.length_cons]
  omega

theorem frameCost_suffix {ps qs : List ℕ} (h : ps <:+ qs) : frameCost ps ≤ frameCost qs := by
  obtain ⟨pre, rfl⟩ := h
  induction pre with
  | nil => exact le_refl _
  | cons p pre ih =>
      rw [List.cons_append]
      by_cases hmem : ∃ q ∈ pre ++ ps, q / 1024 = p / 1024
      · rw [frameCost_cons_mem hmem]
        omega
      · rw [frameCost_cons_notMem hmem]
        omega

/-! ## One load -/

/-- A load begins when the new directory has become active. `pages` are the pages it will map,
the last one first. -/
structure Load where
  start : Machine
  layout : Layout
  slot : ℕ
  pages : List ℕ

/-- The layout with the space of one slot and the loose frames replaced. -/
def Layout.withSpace (g : Layout) (i : ℕ) (sp : Space) (loose : ℕ → Prop) : Layout :=
  { g with space := Function.update g.space i (some sp), loose := loose }

/-- Page `p` has a frame. -/
def Space.Mapped (sp : Space) (p : ℕ) : Prop := ∃ f, sp.page (p / 1024) (p % 1024) = some f

variable {l : Load} {s t : Machine}

/-- The state of a load after the pages `ps`; `E` gives the bytes that are known. -/
structure Mapping (l : Load) (ps : List ℕ) (E : ℕ → Option UInt8) (s : Machine) (sp : Space)
    (loose : ℕ → Prop) : Prop where
  space : KernelSpace s (l.layout.withSpace l.slot sp loose)
  state : s = { l.start with mem := s.mem, pmm := s.pmm, trace := s.trace }
  dir : sp.dir = l.start.cr3
  suffix : ps <:+ l.pages
  tables : ∀ k f, sp.table k = some f → ∃ p ∈ ps, p / 1024 = k
  pages : ∀ k j f, sp.page k j = some f → 1024 * k + j ∈ ps
  grows : ∀ f, l.start.pmm.UsedFrame f → s.pmm.UsedFrame f
  heap : HeapKept l.layout l.start.mem s.mem
  bytes : ∀ va b, E va = some b →
    ∃ f, sp.page (va / 2 ^ 22) (va / 4096 % 1024) = some f ∧ s.mem (f + va % 4096) = b

/-- No frame was missing: every page is mapped, and the frames in use are accounted for. -/
structure Whole (l : Load) (ps : List ℕ) (s : Machine) (sp : Space) (loose : ℕ → Prop) : Prop where
  mapped : ∀ p ∈ ps, sp.Mapped p
  free : s.freeFrames + frameCost ps = l.start.freeFrames
  failures : s.failures = l.start.failures
  tidy : ps.Nodup → loose = l.layout.loose

/-- A mapping in which nothing is missing, unless there were too few frames. -/
structure Loaded (l : Load) (ps : List ℕ) (E : ℕ → Option UInt8) (s : Machine) (sp : Space)
    (loose : ℕ → Prop) : Prop extends Mapping l ps E s sp loose where
  whole : Whole l ps s sp loose ∨
    l.start.freeFrames < frameCost ps ∧ .allocFailed ∈ s.trace

/-- A new table was zeroed at an address that does not lead to its frame: one of the heap, or
one of the program's own pages. -/
def Strays (l : Load) (s : Machine) : Prop :=
  ∃ f pa, .newTable f (some pa) ∈ s.trace ∧ pa ≠ f ∧ f % 4096 = 0 ∧ f < 2 ^ 24 ∧
    ¬l.start.pmm.UsedFrame f ∧ (l.layout.InHeap f ∨ l.layout.InWindows f ∨ f / 4096 ∈ l.pages)

/-- What is known when a load stops with a fault. -/
def Halted (l : Load) (s : Machine) : Prop :=
  Strays l s ∨ (frameCost l.pages ≤ l.start.freeFrames → s.failures = l.start.failures)

/-- Part of a load: unless a table went astray, it ends with `Q`. -/
def Loads {α : Type} (l : Load) (c : Kernel α) (s : Machine) (Q : α → Machine → Prop) : Prop :=
  Ends (fun a t => Strays l t ∨ Q a t) (Halted l) (c s)

theorem Strays.mono (h : Strays l s) (hst : s.trace <:+ t.trace) : Strays l t := by
  obtain ⟨f, pa, hmem, hrest⟩ := h
  exact ⟨f, pa, hst.subset hmem, hrest⟩

section Rules

variable {α β : Type} {P : α → Machine → Prop} {Q : β → Machine → Prop}

theorem Loads.bind {x : Kernel α} {f : α → Kernel β} (hx : Loads l x s P)
    (hgrows : ∀ a, Leads (fun s t : Machine => s.trace <:+ t.trace) (f a))
    (hf : ∀ a t, P a t → Loads l (f a) t Q) : Loads l (x >>= f) s Q := by
  refine ends_bind hx ?_
  rintro a t (hstray | hP)
  · cases hc : f a t with
    | ok b u => exact .inl (hstray.mono ((hgrows a).ok hc))
    | error e u => exact .inl (hstray.mono ((hgrows a).error hc))
  · exact hf a t hP

theorem Loads.mono {c : Kernel α} {P' : α → Machine → Prop} (h : Loads l c s P)
    (hPP' : ∀ a t, P a t → P' a t) : Loads l c s P' :=
  Ends.mono h fun a t => Or.imp_right (hPP' a t)

theorem loads_of_ok {c : Kernel α} {a : α} (hc : c s = .ok a t) (h : P a t) : Loads l c s P :=
  ends_of_ok hc (.inr h)

theorem loads_of_error {c : Kernel α} {e : Halt} (hc : c s = .error e t) (h : Halted l t) :
    Loads l c s P :=
  ends_of_error hc h

theorem loads_forRange {body : ℕ → Kernel Unit} {n : ℕ} (inv : ℕ → Machine → Prop)
    (hgrows : ∀ i, Leads (fun s t : Machine => s.trace <:+ t.trace) (body i))
    (hstep : ∀ i s, i < n → inv i s → Loads l (body i) s fun _ t => inv (i + 1) t)
    (h0 : inv 0 s) : Loads l (forRange n body) s fun _ t => inv n t := by
  induction n with
  | zero => exact loads_of_ok rfl h0
  | succ n ih =>
      have hfirst : Loads l (forRange n body) s fun _ t => inv n t :=
        ih fun i s hi => hstep i s (by omega)
      exact hfirst.bind (fun _ => hgrows n) fun _ t hn => hstep n t (by omega) hn

end Rules

/-! ## Mapping a page -/

section Mapping

variable {ps : List ℕ} {E : ℕ → Option UInt8} {sp : Space} {loose : ℕ → Prop}

theorem Mapping.space_eq (_h : Mapping l ps E s sp loose) :
    (l.layout.withSpace l.slot sp loose).space l.slot = some sp := by
  simp [Layout.withSpace]

theorem Mapping.cr3 (h : Mapping l ps E s sp loose) : s.cr3 = sp.dir := by
  rw [h.state, h.dir]

theorem Mapping.isDir (h : Mapping l ps E s sp loose) :
    (l.layout.withSpace l.slot sp loose).IsDir s.cr3 :=
  .inr ⟨l.slot, sp, h.space_eq, h.cr3.symm⟩

theorem Mapping.owns_page (h : Mapping l ps E s sp loose) {k j f : ℕ} (hf : sp.page k j = some f) :
    (l.layout.withSpace l.slot sp loose).Owns (.page l.slot k j) f :=
  ⟨sp, h.space_eq, hf⟩

/-- The bytes known survive writes to a frame that is not one of the program's pages. -/
theorem Mapping.bytes_kept (h : Mapping l ps E s sp loose) {o : Owner} {a : ℕ} {m : ByteMemory}
    (ha : (l.layout.withSpace l.slot sp loose).Owns o a) (ho : ∀ k j, o ≠ .page l.slot k j)
    (hm : ∀ x, x < a ∨ a + 4096 ≤ x → m x = s.mem x) {k j f q : ℕ} (hf : sp.page k j = some f)
    (hq : q < 4096) : m (f + q) = s.mem (f + q) := by
  have hne := h.space.exact.ne_of_owner_ne ha (h.owns_page hf) (ho k j)
  have haa := (h.space.frame_bounds ha).1
  have hfa := (h.space.frame_bounds (h.owns_page hf)).1
  exact hm _ (by omega)

/-- A frame is taken for a page. -/
theorem Mapping.alloc (h : Mapping l ps E s sp loose) (hne : (pmmAllocFrame s.pmm).1 ≠ 0) :
    Mapping l ps E { s with pmm := (pmmAllocFrame s.pmm).2 } sp
      (fun f => f = (pmmAllocFrame s.pmm).1 ∨ loose f) := by
  obtain ⟨-, -, -, hused⟩ := usedFrame_pmmAllocFrame hne
  refine ⟨h.space.alloc hne s.trace, ?_, h.dir, h.suffix, h.tables, h.pages, ?_, h.heap, h.bytes⟩
  · have hstate := h.state
    generalize s.mem = m at hstate ⊢
    generalize s.trace = tr at hstate ⊢
    rw [hstate]
  · intro f hf
    exact (hused f).mpr (.inl (h.grows f hf))

/-- The next page: nothing is known about its bytes. -/
theorem Mapping.cons (h : Mapping l ps E s sp loose) {p : ℕ} (hp : p :: ps <:+ l.pages) :
    Mapping l (p :: ps) (fun va => if va / 4096 = p then none else E va) s sp loose := by
  refine ⟨h.space, h.state, h.dir, hp, ?_, ?_, h.grows, h.heap, ?_⟩
  · intro k f hf
    obtain ⟨q, hq, hk⟩ := h.tables k f hf
    exact ⟨q, List.mem_cons_of_mem p hq, hk⟩
  · intro k j f hf
    exact List.mem_cons_of_mem p (h.pages k j f hf)
  · intro va b hb
    by_cases hva : va / 4096 = p
    · rw [if_pos hva] at hb
      cases hb
    · rw [if_neg hva] at hb
      exact h.bytes va b hb

theorem withSpace_setPage (g : Layout) (i : ℕ) (sp : Space) (loose : ℕ → Prop) (k j a : ℕ) :
    (g.withSpace i sp loose).setPage i sp k j a =
      g.withSpace i (sp.setPage k j (some a))
        (fun f => f ≠ a ∧ loose f ∨ sp.page k j = some f) := by
  simp only [Layout.withSpace, Layout.setPage, Function.update_idem]

theorem withSpace_addTable (g : Layout) (i : ℕ) (sp : Space) {loose : ℕ → Prop} (k : ℕ) {t : ℕ}
    (hnot : ¬loose t) :
    ((g.withSpace i sp loose).take t).addTable i sp k t =
      g.withSpace i { sp with table := Function.update sp.table k (some t) } loose := by
  have hdrop : ((g.withSpace i sp loose).take t).drop t = g.withSpace i sp loose := drop_take hnot
  unfold Layout.addTable
  rw [hdrop]
  simp only [Layout.withSpace, Layout.take, Function.update_idem]

/-- The entry of a page is written. -/
theorem Mapping.setPage (h : Mapping l ps E s sp loose) {a k j f : ℕ} (ha : loose a)
    (hf : sp.table k = some f) (hj : j < 1024) (hp : 1024 * k + j ∈ ps)
    (hE : ∀ va, va / 4096 = 1024 * k + j → E va = none) :
    Mapping l ps E { s with mem := s.mem.set32 (f + 4 * j) (a + 7) } (sp.setPage k j (some a))
      (fun x => x ≠ a ∧ loose x ∨ sp.page k j = some x) := by
  have hown : (l.layout.withSpace l.slot sp loose).Owns (.table l.slot k) f :=
    ⟨sp, h.space_eq, hf⟩
  have hspace := h.space.setPage (a := a) (j := j) ha h.space_eq hf hj
  rw [withSpace_setPage] at hspace
  refine ⟨hspace, ?_, h.dir, h.suffix, h.tables, ?_, h.grows, ?_, ?_⟩
  · exact congrArg (fun u : Machine => { u with mem := s.mem.set32 (f + 4 * j) (a + 7) }) h.state
  · intro k' j' x hx
    by_cases hkj : k' = k ∧ j' = j
    · rw [hkj.1, hkj.2]
      exact hp
    · rw [sp.setPage_of_ne _ (by omega)] at hx
      exact h.pages k' j' x hx
  · exact h.heap.trans
      ((h.space.heapKept_entry hown (by simp) s.mem hj (a + 7)).of_layout rfl rfl)
  · intro va b hb
    have hva : va / 4096 ≠ 1024 * k + j := by
      intro heq
      rw [hE va heq] at hb
      cases hb
    obtain ⟨x, hx, hbyte⟩ := h.bytes va b hb
    refine ⟨x, ?_, ?_⟩
    · rw [sp.setPage_of_ne _ (by omega)]
      exact hx
    · rw [← hbyte]
      exact h.bytes_kept hown (by simp) (fun y hy => set32_of_outside s.mem _ (by omega)) hx
        (by omega)

/-- A table is made for a page of the list. -/
theorem Mapping.newTable (h : Mapping l ps E s sp loose) (hne : (pmmAllocFrame s.pmm).1 ≠ 0)
    {k : ℕ} (hk : 1 ≤ k) (hk' : k < 1022) (hnone : sp.table k = none)
    (hp : ∃ p ∈ ps, p / 1024 = k) {d : ℕ} (hd : d = sp.dir) (e : Event) :
    Mapping l ps E
      { s with
        pmm := (pmmAllocFrame s.pmm).2, trace := e :: s.trace
        mem := (s.mem.fill (pmmAllocFrame s.pmm).1 4096 fun _ => 0).set32 (d + 4 * k)
          ((pmmAllocFrame s.pmm).1 + 7) }
      { sp with table := Function.update sp.table k (some (pmmAllocFrame s.pmm).1) } loose := by
  subst hd
  obtain ⟨hta, -, hfree, hused⟩ := usedFrame_pmmAllocFrame hne
  have hspace := (h.space.alloc hne (e :: s.trace)).addTable (.inl rfl) h.space_eq hk hk' hnone
  have hnot : ¬loose (pmmAllocFrame s.pmm).1 := h.space.not_loose hne
  rw [withSpace_addTable _ _ _ _ hnot] at hspace
  have hown : (l.layout.withSpace l.slot sp loose).Owns (.dir l.slot) sp.dir :=
    ⟨sp, h.space_eq, rfl⟩
  refine ⟨hspace, ?_, h.dir, h.suffix, ?_, h.pages, ?_, ?_, ?_⟩
  · exact congrArg (fun u : Machine => { u with
      pmm := (pmmAllocFrame s.pmm).2, trace := e :: s.trace
      mem := (s.mem.fill (pmmAllocFrame s.pmm).1 4096 fun _ => 0).set32 (sp.dir + 4 * k)
        ((pmmAllocFrame s.pmm).1 + 7) }) h.state
  · intro k' f hf
    by_cases hkk : k' = k
    · rw [hkk]
      exact hp
    · have hold : sp.table k' = some f := (Function.update_of_ne hkk _ _).symm.trans hf
      exact h.tables k' f hold
  · intro f hf
    exact (hused f).mpr (.inl (h.grows f hf))
  · have hout : ∀ x, x < (pmmAllocFrame s.pmm).1 ∨ (pmmAllocFrame s.pmm).1 + 4096 ≤ x →
        (s.mem.fill (pmmAllocFrame s.pmm).1 4096 fun _ => 0) x = s.mem x :=
      fun x hx => ByteMemory.fill_outside s.mem _ (by omega)
    have hfill := (h.space.heapKept_free hfree hta hout).of_layout (g := l.layout) rfl rfl
    exact h.heap.trans (hfill.trans
      ((h.space.heapKept_entry hown (by simp) _ (by omega) _).of_layout rfl rfl))
  · intro va b hb
    obtain ⟨x, hx, hbyte⟩ := h.bytes va b hb
    refine ⟨x, hx, ?_⟩
    have hxa := (h.space.frame_bounds (h.owns_page hx)).1
    have hcr3 := (h.space.frame_bounds hown).1
    have hxt : x ≠ (pmmAllocFrame s.pmm).1 := by
      intro heq
      exact hfree ((h.space.exact.used_iff _).mpr ⟨_, heq ▸ h.owns_page hx⟩)
    have hxd := h.space.exact.ne_of_owner_ne hown (h.owns_page hx) (by simp)
    rw [← hbyte]
    refine (set32_of_outside _ _ (by omega)).trans ?_
    exact ByteMemory.fill_outside s.mem _ (by omega)

theorem Mapping.trace (h : Mapping l ps E s sp loose) (tr : List Event) :
    Mapping l ps E { s with trace := tr } sp loose :=
  ⟨h.space.same rfl rfl rfl rfl, congrArg (fun u : Machine => { u with trace := tr }) h.state,
    h.dir, h.suffix, h.tables, h.pages, h.grows, h.heap, h.bytes⟩

theorem Mapping.mapped_table (h : Mapping l ps E s sp loose) {p : ℕ} (hp : sp.Mapped p) :
    ∃ f, sp.table (p / 1024) = some f := by
  obtain ⟨f, hf⟩ := hp
  exact (h.space.valid.page_range l.slot sp _ _ f h.space_eq hf).2

/-- A table goes astray only over the heap, the windows or the pages of the program. -/
theorem Mapping.shadowed (h : Mapping l ps E s sp loose) {f : ℕ}
    (hf : (l.layout.withSpace l.slot sp loose).Shadowed s.cr3 f) :
    l.layout.InHeap f ∨ l.layout.InWindows f ∨ f / 4096 ∈ l.pages := by
  rcases hf with hheap | hwin | ⟨i, sp', b, hsp', hdir, hb⟩
  · exact .inl hheap
  · exact .inr (.inl hwin)
  · refine .inr (.inr (h.suffix.subset ?_))
    have hi : Owner.dir i = Owner.dir l.slot :=
      h.space.exact.exclusive _ _ s.cr3 ⟨sp', hsp', hdir⟩ ⟨sp, h.space_eq, h.cr3.symm⟩
    obtain rfl : i = l.slot := Owner.dir.inj hi
    obtain rfl : sp = sp' := Option.some.inj (h.space_eq.symm.trans hsp')
    have hpage := h.pages _ _ _ hb
    have hindex : 1024 * (f / 2 ^ 22) + f / 4096 % 1024 = f / 4096 := by omega
    rwa [hindex] at hpage

end Mapping

/-! ## A page more -/

section MapPage

variable {ps : List ℕ} {E : ℕ → Option UInt8} {sp : Space} {loose : ℕ → Prop} {p : ℕ}

theorem Space.mapped_setPage {a : ℕ} (hmapped : ∀ q ∈ ps, sp.Mapped q) {q : ℕ}
    (hq : q ∈ p :: ps) : (sp.setPage (p / 1024) (p % 1024) (some a)).Mapped q := by
  by_cases hqp : q = p
  · rw [hqp]
    exact ⟨a, sp.setPage_same _ _ _⟩
  · obtain ⟨f, hf⟩ := hmapped q ((List.mem_cons.mp hq).resolve_left hqp)
    refine ⟨f, ?_⟩
    rw [sp.setPage_of_ne _ (by omega)]
    exact hf

/-- With no page evicted, the frames in hand are those from before the allocation. -/
theorem Whole.loose_setPage (h : Whole l ps s sp loose) (hm : Mapping l ps E s sp loose)
    (hne : (pmmAllocFrame s.pmm).1 ≠ 0) (hnodup : (p :: ps).Nodup) :
    (fun x => x ≠ (pmmAllocFrame s.pmm).1 ∧ (x = (pmmAllocFrame s.pmm).1 ∨ loose x) ∨
      sp.page (p / 1024) (p % 1024) = some x) = l.layout.loose := by
  obtain ⟨hnot, hnodup⟩ := List.nodup_cons.mp hnodup
  have hnone : ∀ x, sp.page (p / 1024) (p % 1024) ≠ some x := by
    intro x hx
    have hmem := hm.pages _ _ _ hx
    rw [Nat.div_add_mod] at hmem
    exact hnot hmem
  rw [← h.tidy hnodup]
  funext x
  refine propext ⟨?_, ?_⟩
  · rintro (⟨hx, hx'⟩ | hx)
    · exact hx'.resolve_left hx
    · exact absurd hx (hnone x)
  · intro hx
    refine .inl ⟨?_, .inr hx⟩
    rintro rfl
    exact hm.space.not_loose hne hx

theorem freeFrames_alloc (hne : (pmmAllocFrame s.pmm).1 ≠ 0) :
    s.freeFrames = pmmGetFreeFrameCount (pmmAllocFrame s.pmm).2 + 1 :=
  freeFrameCount_alloc hne

/-- With a table in place, the entry is written and the page is mapped. -/
theorem Loaded.finish (h : Loaded l ps E s sp loose) (hne : (pmmAllocFrame s.pmm).1 ≠ 0)
    {u : Machine} {sp₁ : Space} {f : ℕ} {E' : ℕ → Option UInt8}
    (hu : Mapping l (p :: ps) E' u sp₁ fun x => x = (pmmAllocFrame s.pmm).1 ∨ loose x)
    (hpage : sp₁.page = sp.page) (hf : sp₁.table (p / 1024) = some f)
    (hE : ∀ va, va / 4096 = p → E' va = none)
    (hfree : Whole l ps s sp loose → u.freeFrames + frameCost (p :: ps) = l.start.freeFrames)
    (hfail : u.failures = s.failures) (htrace : s.trace <:+ u.trace) :
    ∃ sp' loose', Loaded l (p :: ps) E'
      { u with mem := u.mem.set32 (f + 4 * (p % 1024)) ((pmmAllocFrame s.pmm).1 + 7) }
      sp' loose' := by
  have hindex : 1024 * (p / 1024) + p % 1024 = p := Nat.div_add_mod p 1024
  have hset := hu.setPage (.inl rfl) hf (j := p % 1024) (by omega)
    (by rw [hindex]; exact List.mem_cons_self) (by rw [hindex]; exact hE)
  refine ⟨_, _, hset, ?_⟩
  rcases h.whole with hwhole | ⟨hshort, hnull⟩
  · refine .inl ⟨?_, hfree hwhole, hfail.trans hwhole.failures, ?_⟩
    · refine fun q => Space.mapped_setPage ?_
      intro q hq
      obtain ⟨x, hx⟩ := hwhole.mapped q hq
      exact ⟨x, by rw [hpage]; exact hx⟩
    · intro hnodup
      rw [hpage]
      exact hwhole.loose_setPage h.toMapping hne hnodup
  · have hcost := frameCost_suffix (List.suffix_cons p ps)
    exact .inr ⟨by omega, htrace.subset hnull⟩

/-- Where a load can stop: with as many failed requests as before. -/
theorem Loaded.halted (h : Loaded l ps E s sp loose) (hfail : t.failures = s.failures) :
    Halted l t := by
  refine .inr ?_
  intro henough
  rcases h.whole with hwhole | ⟨hshort, -⟩
  · exact hfail.trans hwhole.failures
  · have hcost := frameCost_suffix h.suffix
    omega

/-- The case that the page's table is missing and there is a frame for it. The new table is
cleared at its physical address, in the program's own address space. -/
theorem Loaded.map_page_new (h : Loaded l ps E s sp loose) (hne : (pmmAllocFrame s.pmm).1 ≠ 0)
    {va : ℕ} (hlow : 1 ≤ va / 2 ^ 22) (hhigh : va / 2 ^ 22 < 1022)
    (hp : va / 4096 :: ps <:+ l.pages) (dir : ℕ) (hf : sp.table (va / 2 ^ 22) = none)
    (hnew : (pmmAllocFrame (pmmAllocFrame s.pmm).2).1 ≠ 0) :
    Loads l (pagingMapPage dir va (pmmAllocFrame s.pmm).1 userPageFlags)
      { s with pmm := (pmmAllocFrame s.pmm).2 }
      fun _ t => ∃ sp' loose', Loaded l (va / 4096 :: ps)
        (fun x => if x / 4096 = va / 4096 then none else E x) t sp' loose' := by
  have hu := (h.toMapping.alloc hne).cons hp
  have hself := (hu.space.active hu.isDir).selfMapped
  have haligned := (hu.space.frame_bounds (o := .loose _) ⟨rfl, .inl rfl⟩).1
  have hk : va / 4096 / 1024 = va / 2 ^ 22 := by omega
  have hj : va / 4096 % 1024 < 1024 := by omega
  have hva : va < 2 ^ 32 := by omega
  have hflags : (pmmAllocFrame s.pmm).1 ||| userPageFlags = (pmmAllocFrame s.pmm).1 + 7 :=
    or_eq_add haligned (by decide)
  have hentry := hu.space.dir_entry hu.space_eq hlow hhigh
  rw [← hu.cr3, hf, pte] at hentry
  have habs : ¬present (entry s.mem s.cr3 (va / 2 ^ 22)) := by
    rw [hentry]
    decide
  obtain ⟨hta, htlt, htfree, -⟩ := usedFrame_pmmAllocFrame hnew
  have hcap : (pmmAllocFrame s.pmm).2.capacity = 4096 := hu.space.capacity
  have htlt' : (pmmAllocFrame (pmmAllocFrame s.pmm).2).1 < 2 ^ 24 := by omega
  have htrace := pagingMapPage_new_trace hu.space.paging hself hva dir (pmmAllocFrame s.pmm).1
    userPageFlags habs rfl hnew
  cases hreach : Machine.translate { s with pmm := (pmmAllocFrame s.pmm).2 }
      (pmmAllocFrame (pmmAllocFrame s.pmm).2).1 with
  | none =>
      cases hc : pagingMapPage dir va (pmmAllocFrame s.pmm).1 userPageFlags
          { s with pmm := (pmmAllocFrame s.pmm).2 } with
      | ok b t =>
          obtain ⟨pa, hpa, -⟩ := pagingMapPage_new_reached hu.space.paging hself hva dir _ _ habs rfl
            hnew hc
          rw [hreach] at hpa
          cases hpa
      | error e t =>
          refine loads_of_error hc (h.halted ?_)
          rw [final, hc] at htrace
          rw [Machine.failures, htrace, List.count_cons_of_ne (by simp)]
          rfl
  | some pa =>
      by_cases hpa : pa = (pmmAllocFrame (pmmAllocFrame s.pmm).2).1
      · rw [hpa] at hreach
        have hcr3 : s.cr3 ≠ (pmmAllocFrame (pmmAllocFrame s.pmm).2).1 := by
          intro heq
          exact htfree ((hu.space.exact.used_iff _).mpr
            ⟨.dir l.slot, sp, hu.space_eq, hu.cr3.symm.trans heq⟩)
        have hrun := pagingMapPage_new hu.space.paging hself hva dir (pmmAllocFrame s.pmm).1
          userPageFlags habs rfl hnew hta (htlt'.trans (by decide)) hcr3 (by decide)
          fun m' hm o ho => hu.space.zero_reaches hu.isDir htfree hta htlt' hreach hm ho
        rw [hflags] at hrun
        have hmade := hu.newTable hnew hlow hhigh hf ⟨va / 4096, List.mem_cons_self, hk⟩ hu.cr3
          (.newTable (pmmAllocFrame (pmmAllocFrame s.pmm).2).1
            (some (pmmAllocFrame (pmmAllocFrame s.pmm).2).1))
        refine loads_of_ok hrun (h.finish hne hmade rfl (by rw [hk]; exact Function.update_self _ _ _)
          (fun x hx => if_pos hx) ?_ ?_ (List.suffix_cons _ _))
        · intro hwhole
          have hnotMem : ¬∃ q ∈ ps, q / 1024 = va / 4096 / 1024 := by
            rintro ⟨q, hq, hqk⟩
            obtain ⟨f, hf'⟩ := h.mapped_table (hwhole.mapped q hq)
            rw [hqk, hk, hf] at hf'
            cases hf'
          have hfree := hwhole.free
          have hcount := freeFrames_alloc hne
          have hcount' := freeFrameCount_alloc hnew
          rw [frameCost_cons_notMem hnotMem]
          change pmmGetFreeFrameCount (pmmAllocFrame (pmmAllocFrame s.pmm).2).2 + _ = _
          omega
        · exact List.count_cons_of_ne (by simp)
      · have hstray : ∀ u : Machine, u.trace = .newTable (pmmAllocFrame (pmmAllocFrame s.pmm).2).1
            (some pa) :: s.trace → Strays l u := by
          intro u hu'
          refine ⟨_, pa, by rw [hu']; exact List.mem_cons_self, hpa, hta, htlt', ?_, ?_⟩
          · exact fun hused => htfree (hu.grows _ hused)
          · exact hu.shadowed
              ((hu.space.reached_or_shadowed hu.isDir hta htlt' hreach).resolve_left hpa)
        rw [hreach] at htrace
        cases hc : pagingMapPage dir va (pmmAllocFrame s.pmm).1 userPageFlags
            { s with pmm := (pmmAllocFrame s.pmm).2 } with
        | ok b t =>
            rw [final, hc] at htrace
            exact ends_of_ok hc (.inl (hstray t htrace))
        | error e t =>
            rw [final, hc] at htrace
            exact ends_of_error hc (.inl (hstray t htrace))

/-- What `paging_map_page` does for the next page of a load and the frame just taken. Without
a frame for a missing table it does nothing. -/
theorem Loaded.map_page (h : Loaded l ps E s sp loose) (hne : (pmmAllocFrame s.pmm).1 ≠ 0)
    {va : ℕ} (hlow : 1 ≤ va / 2 ^ 22) (hhigh : va / 2 ^ 22 < 1022)
    (hp : va / 4096 :: ps <:+ l.pages) (dir : ℕ) :
    Loads l (pagingMapPage dir va (pmmAllocFrame s.pmm).1 userPageFlags)
      { s with pmm := (pmmAllocFrame s.pmm).2 }
      fun _ t => ∃ sp' loose', Loaded l (va / 4096 :: ps)
        (fun x => if x / 4096 = va / 4096 then none else E x) t sp' loose' := by
  have hu := (h.toMapping.alloc hne).cons hp
  have hself := (hu.space.active hu.isDir).selfMapped
  have haligned := (hu.space.frame_bounds (o := .loose _) ⟨rfl, .inl rfl⟩).1
  have hk : va / 4096 / 1024 = va / 2 ^ 22 := by omega
  have hva : va < 2 ^ 32 := by omega
  have hflags : (pmmAllocFrame s.pmm).1 ||| userPageFlags = (pmmAllocFrame s.pmm).1 + 7 :=
    or_eq_add haligned (by decide)
  have hE : ∀ x, x / 4096 = va / 4096 →
      (if x / 4096 = va / 4096 then none else E x) = none := fun x hx => if_pos hx
  have hentry := hu.space.dir_entry hu.space_eq hlow hhigh
  rw [← hu.cr3] at hentry
  have hcount := freeFrames_alloc hne
  cases hf : sp.table (va / 2 ^ 22) with
  | some f =>
      have hfa := (hu.space.frame_bounds (o := .table l.slot _) ⟨sp, hu.space_eq, hf⟩).1
      rw [hf, pte] at hentry
      have hrun := pagingMapPage_present hu.space.paging hself hva dir (pmmAllocFrame s.pmm).1
        userPageFlags (by rw [hentry]; exact present_add hfa (by omega))
      rw [hentry, hflags, frameOf_add hfa (by omega)] at hrun
      refine loads_of_ok hrun (h.finish hne hu rfl (by rw [hk]; exact hf) hE ?_ rfl
        List.suffix_rfl)
      intro hwhole
      have hmem := h.tables _ _ hf
      rw [← hk] at hmem
      have hfree := hwhole.free
      rw [frameCost_cons_mem hmem]
      change pmmGetFreeFrameCount (pmmAllocFrame s.pmm).2 + _ = _
      omega
  | none =>
      rw [hf, pte] at hentry
      have habs : ¬present (entry s.mem s.cr3 (va / 2 ^ 22)) := by
        rw [hentry]
        decide
      have hnotMem : Whole l ps s sp loose → ¬∃ q ∈ ps, q / 1024 = va / 4096 / 1024 := by
        rintro hwhole ⟨q, hq, hqk⟩
        obtain ⟨f, hf'⟩ := h.mapped_table (hwhole.mapped q hq)
        rw [hqk, hk, hf] at hf'
        cases hf'
      by_cases hnull : (pmmAllocFrame (pmmAllocFrame s.pmm).2).1 = 0
      · have hrun := pagingMapPage_null hu.space.paging hself hva dir (pmmAllocFrame s.pmm).1
          userPageFlags habs hnull
        rw [(hu.space.alloc_null hnull).1] at hrun
        refine loads_of_ok hrun ⟨sp, _, hu.trace _, .inr ⟨?_, List.mem_cons_self⟩⟩
        have hzero : pmmGetFreeFrameCount (pmmAllocFrame s.pmm).2 = 0 :=
          hu.space.freeFrameCount_null hnull
        rcases h.whole with hwhole | ⟨hshort, -⟩
        · have hfree := hwhole.free
          rw [frameCost_cons_notMem (hnotMem hwhole)]
          omega
        · have hcost := frameCost_suffix (List.suffix_cons (va / 4096) ps)
          omega
      · exact h.map_page_new hne hlow hhigh hp dir hf hnull

end MapPage

end MyOS
