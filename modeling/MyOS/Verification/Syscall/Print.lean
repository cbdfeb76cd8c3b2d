import MyOS.Model.Boot
import MyOS.Model.Vga

/-! The print system call and what it can disclose: two states in which a user task finds the same
show the same screens, exactly when the string lies in what the task may read. -/

namespace MyOS

open Effect X86Paging

/-! ## What a task may read -/

/-- Ring 3 reads the byte at `pa` when it reads at `va`. -/
def Machine.Opens (s : Machine) (va pa : ℕ) : Prop :=
  X86Paging.Opens s.mem s.cr3 (va % 2 ^ 32) pa

/-- Two machines in which ring 3 finds the same: it may use the same addresses, gets to the same
places and reads the same there. All else may differ, the page directory and its tables, too. -/
structure Machine.SameView (s t : Machine) : Prop where
  paging : s.paging = true ∧ t.paging = true
  opens : ∀ va pa, t.Opens va pa ↔ s.Opens va pa
  contents : ∀ va pa, s.Opens va pa → t.mem pa = s.mem pa

/-- The screen is the same as well. -/
structure Console.Agrees (d e : Console) : Prop where
  machine : d.machine.SameView e.machine
  vga : e.vga = d.vga
  shown : e.shown = d.shown

/-- Every byte that `print_string` reads from `va` on, up to the terminator, is one that ring 3
may read there. -/
def Console.Confined : ℕ → ℕ → Console → Prop
  | 0, _, _ => True
  | fuel + 1, va, d => ∃ pa, d.machine.Opens va pa ∧
      (d.byte pa ≠ 0 → Console.Confined fuel (va + 1) (d.putChar (d.byte pa)))

/-- A directory whose own frame and tables are not open to ring 3. -/
structure Machine.HidesTables (s : Machine) : Prop where
  paging : s.paging = true
  aligned : s.cr3 % 4096 = 0
  cr3_lt : s.cr3 < 2 ^ 32
  hidden : ∀ va pa, s.Opens va pa → ¬InTables s.mem s.cr3 pa

variable {d e : Console} {s t u : Machine}

theorem Machine.Opens.translate {va pa : ℕ} (h : s.Opens va pa) (hpaging : s.paging = true) :
    s.translate va = some pa := by
  rw [Machine.translate, if_pos hpaging]
  exact h.2.2

theorem Machine.SameView.trans (h : s.SameView t) (h' : t.SameView u) : s.SameView u where
  paging := ⟨h.paging.1, h'.paging.2⟩
  opens va pa := (h'.opens va pa).trans (h.opens va pa)
  contents va pa hopens :=
    (h'.contents va pa ((h.opens va pa).mpr hopens)).trans (h.contents va pa hopens)

theorem Console.Agrees.byte (h : d.Agrees e) {va pa : ℕ} (hpa : d.machine.Opens va pa) :
    e.byte pa = d.byte pa := by
  rw [Console.byte, Console.byte, h.vga, h.machine.contents va pa hpa]

theorem Console.Agrees.putChar (h : d.Agrees e) (c : UInt8) :
    (d.putChar c).Agrees (e.putChar c) where
  machine := h.machine
  vga := by simp only [Console.putChar, h.vga]
  shown := by simp only [Console.putChar, h.vga, h.shown]

/-! ## One character -/

/-- `sys_test_print` from the address `va` on. -/
def printLine (fuel va : ℕ) : EStateM Halt Console Unit := do
  printString fuel va
  modify fun d => d.putChar 10

theorem loadChar_apply {va pa : ℕ} (h : d.machine.translate va = some pa) :
    loadChar va d = .ok (d.byte pa) d := by
  rw [loadChar, h]

theorem printLine_char {va pa : ℕ} (fuel : ℕ) (h : d.machine.translate va = some pa)
    (hc : d.byte pa ≠ 0) :
    final (printLine (fuel + 1) va) d =
      final (printLine fuel (va + 1)) (d.putChar (d.byte pa)) := by
  have hstep : printString (fuel + 1) va d = printString fuel (va + 1) (d.putChar (d.byte pa)) := by
    rw [printString, bind_of_ok (loadChar_apply h), if_pos hc]
    rfl
  rw [final, final, printLine, printLine, bind_congr hstep]

theorem printLine_end {va pa : ℕ} (fuel : ℕ) (h : d.machine.translate va = some pa)
    (hc : d.byte pa = 0) : final (printLine (fuel + 1) va) d = d.putChar 10 := by
  have hstep : printString (fuel + 1) va d = .ok () d := by
    rw [printString, bind_of_ok (loadChar_apply h), if_neg (by simpa using hc)]
    rfl
  rw [final, printLine, bind_of_ok hstep]
  rfl

theorem printLine_fault {va : ℕ} (fuel : ℕ) (h : d.machine.translate va = none) :
    final (printLine (fuel + 1) va) d = d := by
  have hload : loadChar va d = .error (.pageFault va) d := by rw [loadChar, h]
  have hstep : printString (fuel + 1) va d = .error (.pageFault va) d := by
    rw [printString, bind_of_error hload]
  rw [final, printLine, bind_of_error hstep]

/-- What was shown stays shown. -/
theorem printLine_shown (fuel va : ℕ) (d : Console) :
    d.shown <+: (final (printLine fuel va) d).shown := by
  induction fuel generalizing va d with
  | zero => exact List.prefix_rfl
  | succ fuel ih =>
      cases h : d.machine.translate va with
      | none => exact ⟨[], by rw [printLine_fault fuel h, List.append_nil]⟩
      | some pa =>
          have hput : ∀ c, d.shown <+: (d.putChar c).shown := fun c => List.prefix_append _ _
          by_cases hc : d.byte pa = 0
          · rw [printLine_end fuel h hc]
            exact hput 10
          · rw [printLine_char fuel h hc]
            exact (hput _).trans (ih (va + 1) _)

/-! ## Strings the task may read -/

theorem Console.Agrees.printLine (fuel va : ℕ) (h : d.Agrees e) (hd : d.Confined fuel va) :
    (final (printLine fuel va) d).Agrees (final (printLine fuel va) e) := by
  induction fuel generalizing va d e with
  | zero => exact h
  | succ fuel ih =>
      obtain ⟨pa, hopens, hrest⟩ := hd
      have hva := hopens.translate h.machine.paging.1
      have hva' := ((h.machine.opens va pa).mpr hopens).translate h.machine.paging.2
      have hbyte := h.byte hopens
      by_cases hc : d.byte pa = 0
      · rw [printLine_end fuel hva hc, printLine_end fuel hva' (hbyte.trans hc)]
        exact h.putChar 10
      · rw [printLine_char fuel hva hc, printLine_char fuel hva' (by rw [hbyte]; exact hc), hbyte]
        exact ih (va + 1) (h.putChar _) (hrest hc)

/-! ## Strings that reach further -/

/-- An entry of a hidden table that is closed to ring 3 before and after. -/
theorem Machine.HidesTables.sameView (h : s.HidesTables) {x w : ℕ} (hx : x % 4 = 0)
    (hin : ∀ i < 4, InTables s.mem s.cr3 (x + i))
    (hold : ¬(present (s.mem.get32 x) ∧ user (s.mem.get32 x)))
    (hnew : ¬(present (w % 2 ^ 32) ∧ user (w % 2 ^ 32))) :
    s.SameView { s with mem := s.mem.set32 x w } := by
  have hdir : s.cr3 % 4 = 0 := by
    have haligned := h.aligned
    omega
  have hout : ∀ y, y < x ∨ x + 4 ≤ y → s.mem.set32 x w y = s.mem y :=
    fun y hy => ByteMemory.set32_of_outside s.mem w hy
  have hnew' : ¬(present ((s.mem.set32 x w).get32 x) ∧ user ((s.mem.set32 x w).get32 x)) := by
    rw [ByteMemory.get32_set32_same]
    exact hnew
  refine ⟨⟨h.paging, h.paging⟩, ?_, ?_⟩
  · intro va pa
    exact ⟨Opens.of_closed hdir hx (fun y hy => (hout y hy).symm) hnew',
      Opens.of_closed hdir hx hout hold⟩
  · intro va pa hopens
    apply hout
    by_contra hpa
    have hpa' : x + (pa - x) = pa := by omega
    have htables := hin (pa - x) (by omega)
    rw [hpa'] at htables
    exact h.hidden va pa hopens htables

section Walk

variable {va : ℕ}

theorem Machine.HidesTables.translate (h : s.HidesTables) (m : ByteMemory) :
    Machine.translate { s with mem := m } va = X86Paging.translate m s.cr3 (va % 2 ^ 32) := by
  rw [Machine.translate, if_pos h.paging]

/-- A mapped address that ring 3 may not use need not be mapped. -/
theorem Machine.HidesTables.unmap (h : s.HidesTables) (hclosed : ∀ pa, ¬s.Opens va pa) {pa : ℕ}
    (hva : s.translate va = some pa) : ∃ t, s.SameView t ∧ t.translate va = none := by
  have hdir : s.cr3 % 4 = 0 := by
    have haligned := h.aligned
    omega
  have hv : va % 2 ^ 32 < 2 ^ 32 := Nat.mod_lt _ (by omega)
  have hwalk := (h.translate s.mem).symm.trans hva
  obtain ⟨hp, hp', -⟩ := translate_eq_some.mp hwalk
  have hclosed' : ¬userAccessible s.mem s.cr3 (va % 2 ^ 32) :=
    fun hacc => hclosed pa ⟨hv, hacc, hwalk⟩
  have htable := frameOf_mod (entry s.mem s.cr3 (va % 2 ^ 32 / 2 ^ 22))
  have hnone : ¬(present (0 % 2 ^ 32) ∧ user (0 % 2 ^ 32)) := by decide
  -- one of the two entries on the way is closed; without it the walk ends there
  by_cases hu : user (entry s.mem s.cr3 (va % 2 ^ 32 / 2 ^ 22))
  · refine ⟨_, h.sameView (x := frameOf (entry s.mem s.cr3 (va % 2 ^ 32 / 2 ^ 22)) +
      4 * (va % 2 ^ 32 / 4096 % 1024)) (by omega) ?_ ?_ hnone, ?_⟩
    · intro i hi
      exact .inr ⟨_, by omega, hp, by omega⟩
    · intro hopen
      exact hclosed' ⟨hp, hu, hp', hopen.2⟩
    · rw [h.translate, translate_cleared hdir (.inr rfl) (by decide)]
  · refine ⟨_, h.sameView (x := s.cr3 + 4 * (va % 2 ^ 32 / 2 ^ 22)) (by omega) ?_ ?_ hnone, ?_⟩
    · intro i hi
      exact .inl (by omega)
    · intro hopen
      exact hu hopen.2
    · rw [h.translate, translate_cleared hdir (.inl rfl) (by decide)]

/-- Where a table has no entry, there may be one of the kernel's. -/
theorem Machine.HidesTables.fill (h : s.HidesTables)
    (hp : present (entry s.mem s.cr3 (va % 2 ^ 32 / 2 ^ 22)))
    (hva : s.translate va = none) : ∃ t pa, s.SameView t ∧ t.translate va = some pa := by
  have hdir : s.cr3 % 4 = 0 := by
    have haligned := h.aligned
    omega
  have hv : va % 2 ^ 32 < 2 ^ 32 := Nat.mod_lt _ (by omega)
  have htable := frameOf_mod (entry s.mem s.cr3 (va % 2 ^ 32 / 2 ^ 22))
  have hmissing : ¬present (entry s.mem (frameOf (entry s.mem s.cr3 (va % 2 ^ 32 / 2 ^ 22)))
      (va % 2 ^ 32 / 4096 % 1024)) := by
    intro hp'
    have hsome := (h.translate s.mem).trans (translate_eq_some.mpr ⟨hp, hp', rfl⟩)
    exact absurd (hva.symm.trans hsome) (by simp)
  obtain ⟨pa, hpa⟩ := translate_filled (w := 1) hdir hp rfl hmissing (by decide)
  refine ⟨_, pa, h.sameView (by omega) ?_ (fun hopen => hmissing hopen.1) (w := 1) (by decide), ?_⟩
  · intro i hi
    exact .inr ⟨_, by omega, hp, by omega⟩
  · rw [h.translate, hpa]

/-- The directory may serve as one of its own tables, closed to ring 3. -/
theorem Machine.HidesTables.selfEntry (h : s.HidesTables) {k : ℕ} (hk : k < 1024)
    (hp : ¬present (entry s.mem s.cr3 k)) :
    ∃ t, s.SameView t ∧ t.HidesTables ∧ present (entry t.mem t.cr3 k) := by
  have haligned := h.aligned
  have hlt := h.cr3_lt
  have hmod : (s.cr3 + 1) % 2 ^ 32 = s.cr3 + 1 := Nat.mod_eq_of_lt (by omega)
  have hframe : frameOf (s.cr3 + 1) = s.cr3 := frameOf_add haligned (by omega)
  have hclosed : ¬user (s.cr3 + 1) := by
    unfold user
    omega
  have hview := h.sameView (x := s.cr3 + 4 * k) (w := s.cr3 + 1) (by omega)
    (fun i hi => .inl (by omega)) (fun hopen => hp hopen.1)
    (by rw [hmod]; exact fun hopen => hclosed hopen.2)
  have hself : entry (s.mem.set32 (s.cr3 + 4 * k) (s.cr3 + 1)) s.cr3 k = s.cr3 + 1 :=
    (entry_set32_same s.mem s.cr3 k (s.cr3 + 1)).trans hmod
  refine ⟨_, hview, ⟨h.paging, haligned, hlt, ?_⟩, ?_⟩
  · intro va pa hopens htables
    apply h.hidden va pa ((hview.opens va pa).mp hopens)
    rcases htables with hdir | ⟨i, hi, hpi, hin⟩
    · exact .inl hdir
    dsimp only at hpi hin
    by_cases hik : i = k
    · rw [hik, hself, hframe] at hin
      exact .inl hin
    · rw [entry_set32_index s.mem s.cr3 _ hik] at hpi hin
      exact .inr ⟨i, hi, hpi, hin⟩
  · change present (entry (s.mem.set32 (s.cr3 + 4 * k) (s.cr3 + 1)) s.cr3 k)
    rw [hself]
    unfold present
    omega

/-- An address that is not mapped may be mapped for the kernel. -/
theorem Machine.HidesTables.map (h : s.HidesTables) (hva : s.translate va = none) :
    ∃ t pa, s.SameView t ∧ t.translate va = some pa := by
  by_cases hp : present (entry s.mem s.cr3 (va % 2 ^ 32 / 2 ^ 22))
  · exact h.fill hp hva
  have hv : va % 2 ^ 32 < 2 ^ 32 := Nat.mod_lt _ (by omega)
  obtain ⟨t, hview, hhides, hself⟩ := h.selfEntry (by omega) hp
  cases htr : t.translate va with
  | some pa => exact ⟨t, pa, hview, htr⟩
  | none =>
      -- the directory lacks the second entry, too
      obtain ⟨u, pa, hview', hu⟩ := hhides.fill hself htr
      exact ⟨u, pa, hview.trans hview', hu⟩

end Walk

/-- What is read at an address is shown: a newline at the end of the string. -/
theorem printLine_length {va pa : ℕ} (fuel : ℕ) (h : d.machine.translate va = some pa) :
    d.shown.length < (final (printLine (fuel + 1) va) d).shown.length := by
  have hshown : ∀ c, d.shown.length < (d.putChar c).shown.length := by
    intro c
    simp [Console.putChar]
  by_cases hc : d.byte pa = 0
  · rw [printLine_end fuel h hc]
    exact hshown 10
  · rw [printLine_char fuel h hc]
    exact Nat.lt_of_lt_of_le (hshown _) (printLine_shown fuel (va + 1) _).length_le

/-- A string that leaves what ring 3 may read shows where it does, in some state in which ring 3
finds the same. -/
theorem exists_disclosed (fuel va : ℕ) (h : d.machine.HidesTables) (hd : ¬d.Confined fuel va) :
    ∃ t, d.machine.SameView t ∧ (final (printLine fuel va) { d with machine := t }).shown ≠
      (final (printLine fuel va) d).shown := by
  induction fuel generalizing va d with
  | zero => exact absurd trivial hd
  | succ fuel ih =>
      by_cases hopen : ∃ pa, d.machine.Opens va pa
      · obtain ⟨pa, hopens⟩ := hopen
        have hrest : ¬(d.byte pa ≠ 0 → (d.putChar (d.byte pa)).Confined fuel (va + 1)) :=
          fun hrest => hd ⟨pa, hopens, hrest⟩
        rw [Classical.not_imp] at hrest
        obtain ⟨hc, hrest⟩ := hrest
        obtain ⟨t, hview, hne⟩ := ih (d := d.putChar (d.byte pa)) (va + 1) h hrest
        have hagree : d.Agrees { d with machine := t } := ⟨hview, rfl, rfl⟩
        have hbyte := hagree.byte hopens
        have hva := hopens.translate h.paging
        have hva' := ((hview.opens va pa).mpr hopens).translate hview.paging.2
        refine ⟨t, hview, ?_⟩
        rw [printLine_char fuel hva hc, printLine_char fuel hva' (by rw [hbyte]; exact hc), hbyte]
        exact hne
      · have hclosed : ∀ pa, ¬d.machine.Opens va pa := fun pa hpa => hopen ⟨pa, hpa⟩
        cases hva : d.machine.translate va with
        | some pa =>
            obtain ⟨t, hview, ht⟩ := h.unmap hclosed hva
            refine ⟨t, hview, ?_⟩
            have hlt := printLine_length fuel hva
            rw [printLine_fault (d := { d with machine := t }) fuel ht]
            intro heq
            exact absurd (congrArg List.length heq) (Nat.ne_of_lt hlt)
        | none =>
            obtain ⟨t, pa, hview, ht⟩ := h.map hva
            refine ⟨t, hview, ?_⟩
            have hlt := printLine_length (d := { d with machine := t }) fuel ht
            rw [printLine_fault fuel hva]
            intro heq
            exact absurd (congrArg List.length heq) (Nat.ne_of_gt hlt)

/-- The call shows the same in every state in which ring 3 finds the same. -/
def Console.KeepsSecrets (d : Console) (ebx : ℕ) : Prop :=
  ∀ e, d.Agrees e → (final (sysTestPrint ebx) e).vga = (final (sysTestPrint ebx) d).vga ∧
    (final (sysTestPrint ebx) e).shown = (final (sysTestPrint ebx) d).shown

/-- The print system call keeps secrets when every byte it reads is one that ring 3 may read there,
and, where ring 3 does not see the page tables themselves, only then. -/
theorem sys_test_print_discloses_nothing_iff (d : Console) (ebx : ℕ) :
    (d.Confined (2 ^ 32) ebx → d.KeepsSecrets ebx) ∧
      (d.machine.HidesTables → (d.KeepsSecrets ebx ↔ d.Confined (2 ^ 32) ebx)) := by
  have hkeeps : d.Confined (2 ^ 32) ebx → d.KeepsSecrets ebx := by
    intro hd e he
    have hrun := he.printLine (2 ^ 32) ebx hd
    exact ⟨hrun.vga, hrun.shown⟩
  refine ⟨hkeeps, ?_⟩
  intro hhides
  refine ⟨?_, hkeeps⟩
  intro h
  by_contra hd
  obtain ⟨t, hview, hne⟩ := exists_disclosed (2 ^ 32) ebx hhides hd
  exact hne (h { d with machine := t } ⟨hview, rfl, rfl⟩).2

/-- A directory at `0x1000`: the first 4 MiB one to one for ring 0 only, and one page at
`0x400000` for the task. The kernel holds a secret at `0x5000`. -/
def secretMemory : ByteMemory := fun x =>
  if x = 0x1000 then 0x03
  else if x = 0x1001 then 0x20
  else if x = 0x1004 then 0x07
  else if x = 0x1005 then 0x30
  else if 0x2000 ≤ x ∧ x < 0x3000 then
    UInt8.ofNat (((x - 0x2000) / 4 * 4096 + 3) / 256 ^ (x % 4))
  else if x = 0x3000 then 0x07
  else if x = 0x3001 then 0x60
  else if x = 0x5000 then 65
  else 0

def secretConsole : Console where
  machine :=
    { kmainEntry secretMemory (fun _ _ => 0) (fun _ => 0) with paging := true, cr3 := 0x1000 }
  vga := ⟨fun _ => vgaBlank, 0, 0⟩
  shown := []

theorem secretMemory_directory (i : ℕ) (hi : i < 1024) :
    entry secretMemory 0x1000 i = if i = 0 then 0x2003 else if i = 1 then 0x3007 else 0 := by
  by_cases h0 : i = 0
  · rw [if_pos h0, h0]
    rfl
  · by_cases h1 : i = 1
    · rw [if_neg h0, if_pos h1, h1]
      rfl
    · rw [if_neg h0, if_neg h1]
      refine ByteMemory.get32_eq_zero ?_
      intro k hk
      unfold secretMemory
      simp (disch := omega) only [if_neg]

theorem secretMemory_table (j : ℕ) (hj : j < 1024) :
    entry secretMemory 0x3000 j = if j = 0 then 0x6007 else 0 := by
  by_cases h0 : j = 0
  · rw [if_pos h0, h0]
    rfl
  · rw [if_neg h0]
    refine ByteMemory.get32_eq_zero ?_
    intro k hk
    unfold secretMemory
    simp (disch := omega) only [if_neg]

theorem secret_hidden : ¬InTables secretMemory 0x1000 0x5000 ∧
    ∀ va, ¬X86Paging.Opens secretMemory 0x1000 va 0x5000 := by
  constructor
  · rintro (hdir | ⟨i, hi, hp, hin⟩)
    · exact absurd hdir (by decide)
    · rw [secretMemory_directory i hi] at hp hin
      by_cases h0 : i = 0
      · rw [if_pos h0] at hin
        exact absurd hin (by decide)
      · by_cases h1 : i = 1
        · rw [if_neg h0, if_pos h1] at hin
          exact absurd hin (by decide)
        · rw [if_neg h0, if_neg h1] at hp
          exact absurd hp (by decide)
  · rintro va ⟨hva, hacc, htr⟩
    obtain ⟨hp, hu, hpte, -⟩ := hacc
    obtain ⟨-, -, hpa⟩ := translate_eq_some.mp htr
    have hdir := secretMemory_directory (va / 2 ^ 22) (by omega)
    have hone : va / 2 ^ 22 = 1 := by
      by_contra h1
      rw [hdir, if_neg h1] at hp hu
      split at hu
      · exact absurd hu (by decide)
      · exact absurd hu (by decide)
    rw [hone, if_neg (by decide), if_pos rfl] at hdir
    have htable := secretMemory_table (va / 4096 % 1024) (by omega)
    rw [hone, hdir] at hpte hpa
    change present (entry secretMemory 0x3000 _) at hpte
    change _ = frameOf (entry secretMemory 0x3000 _) + _ at hpa
    rw [htable] at hpte hpa
    split at hpte
    · rename_i h0
      rw [if_pos h0] at hpa
      have hframe : frameOf 0x6007 = 0x6000 := rfl
      omega
    · exact absurd hpte (by decide)

/-- The same console with another byte in memory. -/
def Console.setByte (d : Console) (pa : ℕ) (b : UInt8) : Console :=
  { d with machine := { d.machine with mem := d.machine.mem.set8 pa b } }

/-- A system call with a kernel address shows the kernel's byte. -/
theorem sys_test_print_shows_kernel_byte :
    secretConsole.Agrees (secretConsole.setByte 0x5000 66) ∧
      (final (sysTestPrint 0x5000) (secretConsole.setByte 0x5000 66)).vga ≠
        (final (sysTestPrint 0x5000) secretConsole).vga := by
  obtain ⟨htables, hopens⟩ := secret_hidden
  have hkept : ∀ pa, pa ≠ 0x5000 → secretMemory.set8 0x5000 66 pa = secretMemory pa :=
    fun pa hne => ByteMemory.set8_of_ne _ _ hne
  constructor
  · refine ⟨⟨⟨rfl, rfl⟩, ?_, ?_⟩, rfl, rfl⟩
    · intro va pa
      apply opens_of_tables
      intro x hx
      apply hkept
      rintro rfl
      exact htables hx
    · intro va pa hpa
      apply hkept
      rintro rfl
      exact hopens _ hpa
  · intro h
    have hcell := congrFun (congrArg Vga.cells h) 0
    exact absurd hcell (by decide)

end MyOS
