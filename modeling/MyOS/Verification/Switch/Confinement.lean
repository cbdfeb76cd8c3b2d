import MyOS.Model.Interrupt
import MyOS.Model.Protection
import MyOS.Verification.Irq.Gates
import MyOS.Verification.Syscall.Print

/-! Code in ring 3 gets nowhere but into the handlers of the kernel, on the kernel's stack, and not
even there through the gate of its choice. -/

namespace MyOS

open X86Protection (Regs Action Sealed)

/-! ## The descriptors -/

/-- The access bytes of the six entries, with the busy bit of the task state segment. -/
def accessBytes : List ℕ := [0, 0x9A, 0x92, 0xFA, 0xF2, 0x8B]

section Tables

variable {addr : Stub → ℕ} {tssBase : ℕ} {gdt : ℕ → GdtEntry} {idt : ℕ → IdtEntry} {s : Machine}

/-- The entry of the task state segment, once it is in use. -/
theorem gdtEntries_tss : gdtEntries tssBase gdt 5 =
    { limitLow := sizeofTssEntry
      baseLow := tssBase % 2 ^ 16
      baseMiddle := tssBase / 2 ^ 16 % 2 ^ 8
      access := 0x8B
      granularity := 0x40
      baseHigh := tssBase / 2 ^ 24 % 2 ^ 8 } := by
  simp [gdtEntries, tssFlush, tssSetGate, gdtSetGate, sizeofTssEntry]

theorem access_gdtEntries {k : ℕ} (hk : k < 6) :
    (gdtEntries tssBase gdt k).access = accessBytes.getD k 0 := by
  have hcases : k = 0 ∨ k = 1 ∨ k = 2 ∨ k = 3 ∨ k = 4 ∨ k = 5 := by omega
  rcases hcases with rfl | rfl | rfl | rfl | rfl | rfl
  case inr.inr.inr.inr.inr =>
    rw [gdtEntries_tss]
    rfl
  all_goals rfl

/-- A selector in the table leads to its entry, with the access byte given there. -/
theorem access_of_lookup {sel : ℕ} {d : X86Protection.Descriptor}
    (h : (protection addr tssBase gdt idt s).lookup sel = some d) :
    sel.testBit 2 = false ∧ sel / 8 < 6 ∧ d.access = accessBytes.getD (sel / 8) 0 := by
  unfold X86Protection.Tables.lookup at h
  split at h
  · cases h
  · rename_i hin
    have hlimit : ¬(8 * 6 - 1 < sel / 8 * 8 + 7) := fun hlt => hin (.inr hlt)
    have hindex : sel / 8 < 6 := by omega
    refine ⟨by simpa using fun hbit => hin (.inl hbit), hindex, ?_⟩
    cases h
    change (gdtEntries tssBase gdt ((sel / 8 * 8 + 5) / 8)).byte ((sel / 8 * 8 + 5) % 8) = _
    have hentry : (sel / 8 * 8 + 5) / 8 = sel / 8 := by omega
    have hbyte : (sel / 8 * 8 + 5) % 8 = 5 := by omega
    rw [hentry, hbyte]
    exact access_gdtEntries hindex

variable (addr tssBase gdt idt s) in
theorem exists_lookup {sel : ℕ} (hlocal : sel.testBit 2 = false) (hindex : sel / 8 < 6) :
    ∃ d, (protection addr tssBase gdt idt s).lookup sel = some d := by
  unfold X86Protection.Tables.lookup
  have hlimit : ¬((protection addr tssBase gdt idt s).gdtLimit < sel / 8 * 8 + 7) := by
    change ¬(8 * 6 - 1 < sel / 8 * 8 + 7)
    omega
  rw [if_neg (by simp [hlocal, hlimit])]
  exact ⟨_, rfl⟩

theorem tssLimit_protection : (protection addr tssBase gdt idt s).tssLimit = sizeofTssEntry := by
  change (gdtEntries tssBase gdt 5).descriptor.last = _
  rw [gdtEntries_tss]
  have hlimit : sizeofTssEntry % 2 ^ 8 + 2 ^ 8 * (sizeofTssEntry / 2 ^ 8) + 2 ^ 16 * (0x40 % 16) =
      sizeofTssEntry := by decide
  have hgranularity : Nat.testBit (0x40 / 16) 3 = false := by decide
  unfold GdtEntry.descriptor X86Protection.Descriptor.decode X86Protection.Descriptor.last
  simp only [GdtEntry.byte, hgranularity, hlimit]
  rfl

/-! ## The gates -/

/-- A gate belongs to a stub, and only the one of the system call is open to ring 3. -/
theorem gate_protection (haddr : ∀ stub, addr stub < 2 ^ 32) {v : ℕ} {g : X86Protection.Gate}
    (h : (protection addr tssBase gdt idt s).gate v = some g) :
    g.selector = 0x08 ∧ (∃ stub : Stub, stub.number = v ∧ g.offset = addr stub) ∧
      (3 ≤ g.dpl → v = 128) := by
  obtain ⟨hisr, hirq, hcall, hnone⟩ := gate_idtInstall haddr idt
  change (if v < 256 then _ else none) = some g at h
  split at h
  · rename_i hv
    by_cases hlow : v < 32
    · have hgate := hisr ⟨v, hlow⟩
      rw [hgate] at h
      cases h
      exact ⟨rfl, ⟨.isr ⟨v, hlow⟩, rfl, rfl⟩, by simp⟩
    by_cases hline : v < 48
    · have hgate := hirq ⟨v - 32, by omega⟩
      have hback : 32 + (v - 32) = v := by omega
      simp only [hback] at hgate
      rw [hgate] at h
      cases h
      exact ⟨rfl, ⟨.irq ⟨v - 32, by omega⟩, hback, rfl⟩, by simp⟩
    by_cases hsyscall : v = 128
    · subst hsyscall
      rw [hcall] at h
      cases h
      exact ⟨rfl, ⟨.isr128, rfl, rfl⟩, fun _ => rfl⟩
    · rw [hnone v hv (by omega) hsyscall] at h
      cases h
  · cases h

/-- Every exception and every interrupt line has a gate. -/
theorem gate_isSome (haddr : ∀ stub, addr stub < 2 ^ 32) {v : ℕ} (hv : v < 48) :
    ((protection addr tssBase gdt idt s).gate v).isSome = true := by
  obtain ⟨hisr, hirq, -, -⟩ := gate_idtInstall haddr idt
  change (if v < 256 then _ else none : Option X86Protection.Gate).isSome = true
  rw [if_pos (by omega)]
  by_cases hlow : v < 32
  · rw [hisr ⟨v, hlow⟩]
    rfl
  · have hgate := hirq ⟨v - 32, by omega⟩
    have hback : 32 + (v - 32) = v := by omega
    simp only [hback] at hgate
    rw [hgate]
    rfl

/-! ## No way around the gates -/

/-- Below `esp0` memory is mapped for the frame of an interrupt from ring 3. -/
def Machine.StackMapped (s : Machine) : Prop :=
  ∀ k < 24, (s.translate (below s.esp0 (k + 1))).isSome = true

variable (tssBase gdt idt) in
/-- The tables are sealed. The limit of the task state segment is one too large, but a port is
looked up in two bytes of the bit map, and the second one is missing. -/
theorem sealed_protection (haddr : ∀ stub, addr stub < 2 ^ 32) (hstack : s.StackMapped) :
    Sealed (protection addr tssBase gdt idt s) 0x18 0x08 0x10 where
  nonconforming sel d hd hsegment hexec := by
    obtain ⟨-, hindex, haccess⟩ := access_of_lookup hd
    have hbytes : ∀ k < 6, (accessBytes.getD k 0).testBit 3 = true →
        (accessBytes.getD k 0).testBit 4 = true → (accessBytes.getD k 0).testBit 2 = false := by
      decide
    unfold X86Protection.Descriptor.segment at hsegment
    unfold X86Protection.Descriptor.executable at hexec
    unfold X86Protection.Descriptor.conforming
    rw [haccess] at hsegment hexec ⊢
    exact hbytes _ hindex hexec hsegment
  user_code sel d hd hsegment hexec hdpl := by
    obtain ⟨hlocal, hindex, haccess⟩ := access_of_lookup hd
    have hbytes : ∀ k < 6, (accessBytes.getD k 0).testBit 3 = true →
        accessBytes.getD k 0 / 32 % 4 = 3 → k = 3 := by
      decide
    unfold X86Protection.Descriptor.executable at hexec
    unfold X86Protection.Descriptor.dpl at hdpl
    rw [haccess] at hexec hdpl
    have hthree := hbytes _ hindex hexec hdpl
    have hbit : sel / 2 ^ 2 % 2 = 0 := by simpa [Nat.testBit_eq_decide_div_mod_eq] using hlocal
    omega
  system sel d hd hsegment := by
    obtain ⟨-, hindex, haccess⟩ := access_of_lookup hd
    have hbytes : ∀ k < 6, (accessBytes.getD k 0).testBit 4 = false →
        accessBytes.getD k 0 / 32 % 4 = 0 := by
      decide
    unfold X86Protection.Descriptor.segment at hsegment
    unfold X86Protection.Descriptor.dpl
    rw [haccess] at hsegment ⊢
    exact hbytes _ hindex hsegment
  gates v g hg := (gate_protection haddr hg).1
  code_lookup := by
    obtain ⟨d, hd⟩ := exists_lookup addr tssBase gdt idt s (by decide : Nat.testBit 0x08 2 = false)
      (by decide)
    obtain ⟨-, -, haccess⟩ := access_of_lookup hd
    refine ⟨d, hd, ?_⟩
    unfold X86Protection.Descriptor.present X86Protection.Descriptor.segment
      X86Protection.Descriptor.executable X86Protection.Descriptor.dpl
    rw [haccess]
    decide
  code_selector := by decide
  stack_selector := rfl
  stack_allowed := by
    obtain ⟨d, hd⟩ := exists_lookup addr tssBase gdt idt s (by decide : Nat.testBit 0x10 2 = false)
      (by decide)
    obtain ⟨-, -, haccess⟩ := access_of_lookup hd
    unfold X86Protection.Tables.stackAllowed X86Protection.Tables.isPresent
    rw [hd]
    simp only [Option.map_some, Option.getD_some, X86Protection.Descriptor.present,
      X86Protection.Descriptor.segment, X86Protection.Descriptor.executable,
      X86Protection.Descriptor.permitted, X86Protection.Descriptor.dpl]
    rw [haccess]
    decide
  tss_long := by
    rw [tssLimit_protection]
    decide
  stack_fits := by
    unfold X86Protection.Tables.frameFits
    rw [List.all_eq_true]
    intro k hk
    exact hstack k (List.mem_range.mp hk)
  faults v hlow hhigh := gate_isSome haddr (by omega)
  link d hd := by
    obtain ⟨-, -, haccess⟩ := access_of_lookup hd
    rw [haccess]
    change accessBytes.getD (0 % 2 ^ 16 / 8) 0 % 16 ≠ 11
    decide
  ports := by
    rw [tssLimit_protection]
    change sizeofTssEntry ≤ sizeofTssEntry * 2 ^ 16 / 2 ^ 16
    decide

end Tables

/-! ## Ring 3 -/

/-- The vector through which an action in ring 3 may reach the kernel: `int n` its gate if that is
the one of the system calls, what is not allowed the fault it raises. -/
def MayReach : Action → ℕ → Prop
  | .interrupt n, v => v = 13 ∨ v = 128 ∧ n = 128
  | .port _ _, v => v = 13
  | .privileged, v => v = 13
  | .exception w, v => v = w
  | .line w, v => v = w
  | _, v => 10 ≤ v ∧ v ≤ 13

/-- Exceptions of the processor and interrupts of the controllers that `pic_remap` has set up. -/
def FromHardware : Action → Prop
  | .exception v => v < 32
  | .line v => 32 ≤ v ∧ v < 48
  | _ => True

/-- Whatever code in ring 3 tries, and for how long, with any values in its registers: it is still
in its code segment, or it is in the stub of a vector that its last action may reach, with the
stack that the scheduler has put into the TSS. No device port and no task switch is open to it, and
there is no triple fault, as long as that stack is mapped. -/
theorem user_code_confined {addr : Stub → ℕ} (haddr : ∀ stub, addr stub < 2 ^ 32) (tssBase : ℕ)
    (gdt : ℕ → GdtEntry) (idt : ℕ → IdtEntry) (s : Machine) (hstack : s.StackMapped) (r : Regs)
    (hcs : r.cs = 0x1B) (actions : List Action) (hactions : ∀ a ∈ actions, FromHardware a) :
    match (protection addr tssBase gdt idt s).run r actions with
    | .continues r' => r'.cs = 0x1B
    | .enters v r' => (∃ a ∈ actions, MayReach a v) ∧
        ∃ stub : Stub, stub.number = v ∧ r' = ⟨0x08, addr stub, 0x10, s.esp0⟩
    | .system => False
    | .shutdown => False := by
  have hserved : ∀ a ∈ actions, a.Served (protection addr tssBase gdt idt s) := by
    intro a ha
    have hhardware := hactions a ha
    cases a with
    | exception v => exact gate_isSome haddr (Nat.lt_trans hhardware (by decide))
    | line v => exact gate_isSome haddr hhardware.2
    | _ => trivial
  have hconfined := (sealed_protection tssBase gdt idt haddr hstack).run (by decide) hcs hserved
  cases hrun : (protection addr tssBase gdt idt s).run r actions with
  | continues r' =>
      rw [hrun] at hconfined
      exact hconfined
  | system =>
      rw [hrun] at hconfined
      exact hconfined
  | shutdown =>
      rw [hrun] at hconfined
      exact hconfined
  | enters v r' =>
      rw [hrun] at hconfined
      obtain ⟨⟨a, ha, hreaches⟩, g, hg, rfl⟩ := hconfined
      obtain ⟨-, ⟨stub, hnumber, hoffset⟩, -⟩ := gate_protection haddr hg
      refine ⟨⟨a, ha, ?_⟩, stub, hnumber, ?_⟩
      · cases a with
        | interrupt n =>
            rcases hreaches with hfault | ⟨rfl, g', hg', hdpl⟩
            · exact .inl hfault
            · have hcall := (gate_protection haddr hg').2.2 hdpl
              exact .inr ⟨hcall, hcall⟩
        | _ => exact hreaches
      · unfold X86Protection.Tables.handler
        rw [hoffset]
        rfl

/-- The registers of a task that has been switched to. -/
def CpuState.regs (c : CpuState) : Regs := ⟨c.cs, c.eip, c.ss, c.esp⟩

def stubAt (stub : Stub) : ℕ := 0x10000 + 16 * stub.number

theorem stubAt_lt (stub : Stub) : stubAt stub < 2 ^ 32 := by
  have hnumber : stub.number ≤ 128 := by
    cases stub with
    | isr n => exact Nat.le_trans (Nat.le_of_lt n.isLt) (by decide)
    | irq n => exact Nat.le_trans (Nat.add_le_add_left (Nat.le_of_lt n.isLt) 32) (by decide)
    | isr128 => exact Nat.le_refl 128
  unfold stubAt
  omega

def programStart : Regs := (newTask 2 (text "ARGS") 0 0 0x8048000 0xBFFFFFF0 0).cpuState.regs

/-- A new process, with the first 4 MiB mapped one to one for ring 0 and its kernel stack there. -/
def programMachine : Machine := { secretConsole.machine with esp0 := 0x9000 }

/-- It loads its data segment and makes a system call. -/
def systemCall : X86Protection.Outcome :=
  (protection stubAt 0x20000 (fun _ => ⟨0, 0, 0, 0, 0, 0⟩) (fun _ => ⟨0, 0, 0, 0, 0⟩)
    programMachine).run programStart [.loadData 0x23, .interrupt 128]

theorem user_code_confined_system_call :
    systemCall = .enters 128 ⟨0x08, stubAt .isr128, 0x10, 0x9000⟩ ∧
    match systemCall with
    | .continues r' => r'.cs = 0x1B
    | .enters v r' => (∃ a ∈ [Action.loadData 0x23, .interrupt 128], MayReach a v) ∧
        ∃ stub : Stub, stub.number = v ∧ r' = ⟨0x08, stubAt stub, 0x10, 0x9000⟩
    | .system => False
    | .shutdown => False := by
  refine ⟨by decide +kernel, ?_⟩
  have hstack : programMachine.StackMapped := by
    unfold Machine.StackMapped
    decide +kernel
  exact user_code_confined stubAt_lt 0x20000 (fun _ => ⟨0, 0, 0, 0, 0, 0⟩)
    (fun _ => ⟨0, 0, 0, 0, 0⟩) programMachine hstack programStart rfl
    [.loadData 0x23, .interrupt 128] (by simp [FromHardware])

end MyOS
