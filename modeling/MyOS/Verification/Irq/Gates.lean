import MyOS.Model.Irq

/-! What the set-up leaves behind: the descriptor table of `idt_install` and the controllers of
`pic_remap`. -/

namespace MyOS

open Intel8259

/-! ## The descriptor table -/

section Entries

variable {ι : Type} {num base : ι → ℕ} {selector flags : ℕ} {l : List ι}

theorem foldl_idtSetGate_of_ne {v : ℕ} (h : ∀ n ∈ l, num n ≠ v) (idt : ℕ → IdtEntry) :
    l.foldl (fun idt n => idtSetGate (num n) (base n) selector flags idt) idt v = idt v := by
  induction l generalizing idt with
  | nil => rfl
  | cons m l ih =>
      rw [List.foldl_cons, ih fun n hn => h n (List.mem_cons_of_mem m hn)]
      exact Function.update_of_ne (Ne.symm (h m List.mem_cons_self)) _ _

/-- Entries written one after the other, at different numbers. -/
theorem foldl_idtSetGate_of_mem (hinj : Function.Injective num) {n : ι} (hn : n ∈ l)
    (idt : ℕ → IdtEntry) :
    l.foldl (fun idt n => idtSetGate (num n) (base n) selector flags idt) idt (num n) =
      idtSetGate (num n) (base n) selector flags idt (num n) := by
  induction l generalizing idt with
  | nil => cases hn
  | cons m l ih =>
      rw [List.foldl_cons]
      by_cases hrest : n ∈ l
      · rw [ih hrest]
        simp [idtSetGate]
      · obtain rfl : n = m := by simpa [hrest] using hn
        refine foldl_idtSetGate_of_ne ?_ _
        intro k hk heq
        rw [hinj heq] at hk
        exact hrest hk

end Entries

theorem idtSetGate_of_ne {num base selector flags v : ℕ} (h : v ≠ num) (idt : ℕ → IdtEntry) :
    idtSetGate num base selector flags idt v = idt v :=
  Function.update_of_ne h _ _

/-- The processor reads the address that was stored. -/
theorem gate_idtSetGate {num base selector flags : ℕ} (hbase : base < 2 ^ 32) (idt : ℕ → IdtEntry) :
    (idtSetGate num base selector flags idt num).gate =
      if flags.testBit 7 ∧ (flags % 32 = 14 ∨ flags % 32 = 15) then
        some ⟨base, selector, flags / 32 % 4, flags % 32 = 15⟩
      else none := by
  have hoffset : base % 2 ^ 16 + 2 ^ 16 * (base / 2 ^ 16 % 2 ^ 16) = base := by omega
  simp only [idtSetGate, Function.update_self, IdtEntry.gate, hoffset]

/-- The stubs are at addresses of 32 bits, all of them different. -/
structure StubsPlaced (addr : Stub → ℕ) : Prop where
  injective : Function.Injective addr
  lt : ∀ stub, addr stub < 2 ^ 32

/-- Exceptions get trap gates, interrupt lines interrupt gates, and only the system call is open
to ring 3. There are no other gates. -/
theorem gate_idtInstall {addr : Stub → ℕ} (h : ∀ stub, addr stub < 2 ^ 32) (idt : ℕ → IdtEntry) :
    (∀ n : Fin 32, (idtInstall addr idt n).gate = some ⟨addr (.isr n), 0x08, 0, true⟩) ∧
    (∀ n : Fin 16, (idtInstall addr idt (32 + n)).gate = some ⟨addr (.irq n), 0x08, 0, false⟩) ∧
    (idtInstall addr idt 128).gate = some ⟨addr .isr128, 0x08, 3, false⟩ ∧
    ∀ v < 256, 48 ≤ v → v ≠ 128 → (idtInstall addr idt v).gate = none := by
  have hisr : Function.Injective fun n : Fin 32 => n.val := fun _ _ => Fin.ext
  have hirq : Function.Injective fun n : Fin 16 => 32 + n.val := fun a b hab => by
    have : 32 + a.val = 32 + b.val := hab
    exact Fin.ext (by omega)
  unfold idtInstall
  refine ⟨?_, ?_, ?_, ?_⟩
  · intro n
    rw [idtSetGate_of_ne (by omega),
      foldl_idtSetGate_of_ne (fun m _ => by omega),
      foldl_idtSetGate_of_mem hisr (List.mem_finRange n)]
    exact gate_idtSetGate (h _) _
  · intro n
    rw [idtSetGate_of_ne (by omega), foldl_idtSetGate_of_mem hirq (List.mem_finRange n)]
    exact gate_idtSetGate (h _) _
  · exact gate_idtSetGate (h _) _
  · intro v hv hhigh hne
    have hclear : Function.Injective fun i : ℕ => i := fun _ _ heq => heq
    rw [idtSetGate_of_ne hne,
      foldl_idtSetGate_of_ne (fun m _ => by omega),
      foldl_idtSetGate_of_ne (fun m _ => by omega),
      foldl_idtSetGate_of_mem hclear (List.mem_range.mpr hv)]
    exact gate_idtSetGate (by decide) _

/-! ## The controllers -/

theorem latch_of_requests {p : Pair} (h : p.slave.requests = fun _ => false) : p.latch = p := by
  refine Pair.latch_quiet (first_eq_none.mpr ?_)
  intro i _
  unfold Chip.wants
  rw [h]
  rfl

/-- Whatever state the controllers were in, `pic_remap` sets them up anew. It keeps the masks and
what is in service; requests are forgotten. -/
theorem picRemap_eq (offset1 offset2 : ℕ) (p : Pair) :
    picRemap offset1 offset2 p =
      { master := ⟨.mask, false, true, offset1 % 256 - offset1 % 256 % 8, 4, 1, p.master.mask,
          fun _ => false, p.master.inService⟩
        slave := ⟨.mask, false, true, offset2 % 256 - offset2 % 256 % 8, 2, 1, p.slave.mask,
          fun _ => false, p.slave.inService⟩ } := by
  have hicw :
      Nat.testBit 0x11 4 = true ∧ Nat.testBit 0x11 1 = false ∧ Nat.testBit 0x11 0 = true := by
    decide
  simp [picRemap, pic1Cmd, pic1Data, pic2Cmd, pic2Data, Pair.out, Pair.read, Chip.writeCommand,
    Chip.writeData, latch_of_requests, hicw]

end MyOS
