import MyOS.Verification.Loader.Pages

/-! Reading the file and writing the program's bytes during a load. -/

namespace MyOS

open Effect X86Paging ByteMemory PageTables Ownership

variable {l : Load} {s t : Machine} {ps : List ℕ} {E E' : ℕ → Option UInt8} {sp : Space}
  {loose : ℕ → Prop}

/-! ## The heap -/

/-- The heap as the kernel sees it when the load begins. -/
def Load.image (l : Load) : ByteMemory := fun va => l.start.mem (l.layout.phys va)

/-- The byte at an address of the heap. -/
def Load.byteAt (l : Load) (va : ℕ) : Option UInt8 :=
  if 4096 * l.layout.heapPage ≤ va ∧ va < 4096 * (l.layout.heapPage + l.layout.heap.length) then
    some (l.image va)
  else none

/-- The heap stays as it is while a program is loaded. -/
theorem Mapping.load8_heap (h : Mapping l ps E s sp loose) {va : ℕ} (hva : l.layout.InHeap va) :
    load8 va s = .ok (l.image va) s := by
  have hlt : va < 2 ^ 22 := h.space.inHeap_lt hva
  have htranslate : s.translate va = some (l.layout.phys va) := h.space.translate_phys h.isDir hlt
  rw [load8_eq htranslate, h.heap va hva]
  rfl

theorem Mapping.load32_heap (h : Mapping l ps E s sp loose) {va : ℕ} (hva : l.layout.InHeap va)
    (hva' : l.layout.InHeap (va + 3)) : load32 va s = .ok (l.image.get32 va) s := by
  refine load32_bytes fun k hk => h.load8_heap ?_
  exact ⟨hva.1.trans (by omega), lt_of_le_of_lt (by omega) hva'.2⟩

theorem Mapping.load16_heap (h : Mapping l ps E s sp loose) {va : ℕ} (hva : l.layout.InHeap va)
    (hva' : l.layout.InHeap (va + 1)) : load16 va s = .ok (l.image.get16 va) s := by
  refine load16_bytes fun k hk => h.load8_heap ?_
  exact ⟨hva.1.trans (by omega), lt_of_le_of_lt (by omega) hva'.2⟩

/-! ## The program's pages -/

theorem Loaded.weaken (h : Loaded l ps E s sp loose)
    (hE : ∀ va b, E' va = some b → E va = some b) : Loaded l ps E' s sp loose :=
  { h with bytes := fun va b hb => h.bytes va b (hE va b hb) }

theorem Mapping.translate_user (h : Mapping l ps E s sp loose) {va : ℕ} (hlow : 2 ^ 22 ≤ va)
    (hhigh : va < 1022 * 2 ^ 22) :
    s.translate va = (sp.page (va / 2 ^ 22) (va / 4096 % 1024)).map (· + va % 4096) := by
  rw [translate_eq h.space.paging (by omega), h.cr3]
  exact h.space.translate_space h.space_eq (by omega) (by omega)

/-- Where the program's own entries end, nothing is mapped. -/
theorem Mapping.translate_limit (h : Mapping l ps E s sp loose) :
    s.translate (1022 * 2 ^ 22) = none := by
  obtain ⟨t, ht⟩ := h.space.valid.temp_some l.slot sp h.space_eq
  have ht' : l.layout.temp = some t := ht
  obtain ⟨hentry, hframe, hpresent⟩ := h.space.window_entry h.isDir ht
  have hzero : entry s.mem t 0 = 0 := h.space.holds .temp t 0 0 ht (by omega) (by simp [Layout.plan])
  rw [translate_eq h.space.paging (by omega)]
  have hd : 1022 * 2 ^ 22 / 2 ^ 22 = 1022 := by omega
  have hj : 1022 * 2 ^ 22 / 4096 % 1024 = 0 := by omega
  cases htr : X86Paging.translate s.mem s.cr3 (1022 * 2 ^ 22) with
  | none => rfl
  | some pa =>
      obtain ⟨-, hpte, -⟩ := translate_eq_some.mp htr
      rw [hd, hj, hentry, hframe, hzero] at hpte
      exact absurd hpte (by decide)

/-- Bytes of one of the program's pages change. -/
theorem Loaded.write (h : Loaded l ps E s sp loose) {k j f : ℕ} (hf : sp.page k j = some f)
    {m : ByteMemory} (hm : ∀ x, x < f ∨ f + 4096 ≤ x → m x = s.mem x)
    (hE : ∀ va b, E' va = some b →
      if va / 2 ^ 22 = k ∧ va / 4096 % 1024 = j then m (f + va % 4096) = b else E va = some b) :
    Loaded l ps E' { s with mem := m } sp loose := by
  have hown := h.owns_page hf
  have hfa := (h.space.frame_bounds hown).1
  refine ⟨⟨?_, ?_, h.dir, h.suffix, h.tables, h.pages, h.grows, ?_, ?_⟩, ?_⟩
  · refine h.space.of_bytes ?_
    intro r f' hf' o ho
    have hout := h.space.outside hown (by intro r; cases r <;> simp [Layout.roleOwner]) hf'
    exact hm _ (by omega)
  · exact congrArg (fun u : Machine => { u with mem := m }) h.state
  · exact h.heap.trans ((h.space.heapKept hown (by simp) hm).of_layout rfl rfl)
  · intro va b hb
    have hbyte := hE va b hb
    by_cases hva : va / 2 ^ 22 = k ∧ va / 4096 % 1024 = j
    · rw [if_pos hva] at hbyte
      exact ⟨f, by rw [hva.1, hva.2]; exact hf, hbyte⟩
    · rw [if_neg hva] at hbyte
      obtain ⟨f', hf', hold⟩ := h.bytes va b hbyte
      refine ⟨f', hf', ?_⟩
      have hne := h.space.exact.ne_of_owner_ne (h.owns_page hf') hown (by simpa using hva)
      have hfa' := (h.space.frame_bounds (h.owns_page hf')).1
      rw [← hold]
      exact hm _ (by omega)
  · rcases h.whole with hwhole | hshort
    · exact .inl ⟨hwhole.mapped, hwhole.free, hwhole.failures, hwhole.tidy⟩
    · exact .inr hshort

theorem Loaded.store8 (h : Loaded l ps E s sp loose) {va : ℕ} (hlow : 2 ^ 22 ≤ va)
    (hhigh : va < 1022 * 2 ^ 22) (b : UInt8) :
    Loads l (store8 va b) s fun _ t => Loaded l ps (Function.update E va (some b)) t sp loose := by
  have htranslate := h.translate_user hlow hhigh
  cases hf : sp.page (va / 2 ^ 22) (va / 4096 % 1024) with
  | none =>
      rw [hf, Option.map_none] at htranslate
      refine loads_of_error (e := .pageFault va) ?_ (h.halted rfl)
      rw [MyOS.store8, htranslate]
  | some f =>
      rw [hf, Option.map_some] at htranslate
      have hown := h.owns_page hf
      refine loads_of_ok (store8_eq b htranslate) (h.write hf ?_ ?_)
      · intro x hx
        exact set8_of_ne s.mem b (by omega)
      · intro x c hc
        by_cases hx : x = va
        · rw [hx, Function.update_self] at hc
          rw [hx, if_pos ⟨rfl, rfl⟩, set8_same]
          exact Option.some.inj hc
        · rw [Function.update_of_ne hx] at hc
          split
          · rename_i hpage
            obtain ⟨f', hf', hold⟩ := h.bytes x c hc
            rw [hpage.1, hpage.2, hf] at hf'
            obtain rfl : f = f' := Option.some.inj hf'
            rw [set8_of_ne s.mem b (by omega)]
            exact hold
          · exact hc

/-! ## Ranges of bytes -/

/-- The bytes known after `n` bytes were written from `dest` on, byte `i` being `src i`. -/
def overlay (E : ℕ → Option UInt8) (dest n : ℕ) (src : ℕ → Option UInt8) : ℕ → Option UInt8 :=
  fun va => if dest ≤ va ∧ va < dest + n then src (va - dest) else E va

theorem overlay_zero (E : ℕ → Option UInt8) (dest : ℕ) (src : ℕ → Option UInt8) :
    overlay E dest 0 src = E := by
  funext va
  unfold overlay
  rw [if_neg (by omega)]

theorem overlay_succ (E : ℕ → Option UInt8) (dest n : ℕ) (src : ℕ → Option UInt8) :
    overlay E dest (n + 1) src = Function.update (overlay E dest n src) (dest + n) (src n) := by
  funext va
  unfold overlay
  by_cases hva : va = dest + n
  · rw [hva, Function.update_self, if_pos (by omega)]
    congr 1
    omega
  · rw [Function.update_of_ne hva]
    by_cases hin : dest ≤ va ∧ va < dest + n
    · rw [if_pos (by omega), if_pos hin]
    · rw [if_neg (by omega), if_neg hin]

/-- One byte more; a byte that is not known may be any. -/
theorem Loaded.overlay_succ {dest n : ℕ} {src : ℕ → Option UInt8} {b : UInt8}
    (h : Loaded l ps (Function.update (overlay E dest n src) (dest + n) (some b)) s sp loose)
    (hb : ∀ c, src n = some c → c = b) : Loaded l ps (overlay E dest (n + 1) src) s sp loose := by
  refine h.weaken ?_
  intro va c hc
  rw [MyOS.overlay_succ] at hc
  by_cases hva : va = dest + n
  · rw [hva, Function.update_self] at hc ⊢
    rw [hb c hc]
  · rw [Function.update_of_ne hva] at hc ⊢
    exact hc

/-- A store up to where the program's own entries end: there it faults. -/
theorem Loaded.store8_limit (h : Loaded l ps E s sp loose) {va : ℕ} (hlow : 2 ^ 22 ≤ va)
    (hhigh : va ≤ 1022 * 2 ^ 22) (b : UInt8) :
    Loads l (MyOS.store8 va b) s fun _ t =>
      va + 1 ≤ 1022 * 2 ^ 22 ∧ Loaded l ps (Function.update E va (some b)) t sp loose := by
  by_cases hlimit : va = 1022 * 2 ^ 22
  · refine loads_of_error (e := .pageFault va) ?_ (h.halted rfl)
    rw [MyOS.store8, hlimit, h.translate_limit]
  · refine (h.store8 hlow (by omega) b).mono ?_
    intro _ t ht
    exact ⟨by omega, ht⟩

/-- A loop that writes byte after byte. It stops where the program's own entries end. -/
theorem Loaded.writes (h : Loaded l ps E s sp loose) {dest n : ℕ} {src : ℕ → Option UInt8}
    (hhigh : dest ≤ 1022 * 2 ^ 22) {body : ℕ → Kernel Unit}
    (hgrows : ∀ i, Leads (fun s t : Machine => s.trace <:+ t.trace) (body i))
    (hbody : ∀ i E s, i < n → dest + i ≤ 1022 * 2 ^ 22 → Loaded l ps E s sp loose →
      Loads l (body i) s fun _ t => dest + i + 1 ≤ 1022 * 2 ^ 22 ∧
        ∃ b, (∀ c, src i = some c → c = b) ∧
          Loaded l ps (Function.update E (dest + i) (some b)) t sp loose) :
    Loads l (forRange n body) s fun _ t => Loaded l ps (overlay E dest n src) t sp loose := by
  let inv : ℕ → Machine → Prop := fun i t =>
    dest + i ≤ 1022 * 2 ^ 22 ∧ Loaded l ps (overlay E dest i src) t sp loose
  have hstart : inv 0 s := by
    refine ⟨by omega, ?_⟩
    rw [overlay_zero]
    exact h
  have hstep : ∀ i t, i < n → inv i t → Loads l (body i) t fun _ u => inv (i + 1) u := by
    intro i t hi ht
    refine (hbody i _ t hi ht.1 ht.2).mono ?_
    intro _ u hu
    obtain ⟨hle, b, hb, hloaded⟩ := hu
    exact ⟨hle, hloaded.overlay_succ hb⟩
  refine (loads_forRange inv hgrows hstep hstart).mono ?_
  intro _ t ht
  exact ht.2

theorem Loaded.memset (h : Loaded l ps E s sp loose) {dest : ℕ} (hlow : 2 ^ 22 ≤ dest)
    (hhigh : dest ≤ 1022 * 2 ^ 22) (c : UInt8) (n : ℕ) :
    Loads l (MyOS.memset dest c n) s fun _ t =>
      Loaded l ps (overlay E dest n fun _ => some c) t sp loose := by
  refine h.writes hhigh (fun i => processBlind_trace.store8 _ _) ?_
  intro i E t _ hle ht
  refine (ht.store8_limit (by omega) hle c).mono ?_
  intro _ u hu
  exact ⟨hu.1, c, fun b hb => (Option.some.inj hb).symm, hu.2⟩

theorem Loaded.memcpyFrom (h : Loaded l ps E s sp loose) {dest : ℕ} (hlow : 2 ^ 22 ≤ dest)
    (hhigh : dest ≤ 1022 * 2 ^ 22) (src : ℕ → UInt8) (n : ℕ) :
    Loads l (MyOS.memcpyFrom dest src n) s fun _ t =>
      Loaded l ps (overlay E dest n fun i => some (src i)) t sp loose := by
  refine h.writes hhigh (fun i => processBlind_trace.store8 _ _) ?_
  intro i E t _ hle ht
  refine (ht.store8_limit (by omega) hle (src i)).mono ?_
  intro _ u hu
  exact ⟨hu.1, src i, fun b hb => (Option.some.inj hb).symm, hu.2⟩

/-- Reading a byte: what the heap holds is known, anything else may be there. -/
theorem Loaded.load8 (h : Loaded l ps E s sp loose) (va : ℕ) :
    Loads l (MyOS.load8 va) s fun b t => t = s ∧ ∀ c, l.byteAt va = some c → c = b := by
  cases hload : MyOS.load8 va s with
  | ok b t =>
      refine loads_of_ok hload ⟨(readBlind_id.load8 va).ok hload, ?_⟩
      intro c hc
      unfold Load.byteAt at hc
      by_cases hin : 4096 * l.layout.heapPage ≤ va ∧
          va < 4096 * (l.layout.heapPage + l.layout.heap.length)
      · rw [if_pos hin] at hc
        rw [h.load8_heap hin] at hload
        cases hload
        exact (Option.some.inj hc).symm
      · rw [if_neg hin] at hc
        cases hc
  | error e t =>
      obtain rfl : t = s := (readBlind_id.load8 va).error hload
      exact loads_of_error hload (h.halted rfl)

theorem Loaded.memcpy (h : Loaded l ps E s sp loose) {dest : ℕ} (hlow : 2 ^ 22 ≤ dest)
    (hhigh : dest ≤ 1022 * 2 ^ 22) (src n : ℕ) :
    Loads l (MyOS.memcpy dest src n) s fun _ t =>
      Loaded l ps (overlay E dest n fun i => l.byteAt (src + i)) t sp loose := by
  refine h.writes hhigh (fun i => processBlind_trace.bind (processBlind_trace.load8 _)
    fun b => processBlind_trace.store8 _ b) ?_
  intro i E t _ hle ht
  refine (ht.load8 (src + i)).bind (fun b => processBlind_trace.store8 _ b) ?_
  intro b u hu
  obtain ⟨rfl, hb⟩ := hu
  refine (ht.store8_limit (by omega) hle b).mono ?_
  intro _ v hv
  exact ⟨hv.1, b, hb, hv.2⟩

end MyOS
