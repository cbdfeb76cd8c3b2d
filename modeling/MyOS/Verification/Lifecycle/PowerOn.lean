import MyOS.Verification.Lifecycle.Isolation

/-! From power on: what `kmain` has set up stays sound in all lifecycles of processes. -/

namespace MyOS

open Effect X86Paging

/-- From power on, whatever the memory holds: `kmain` sets the system up, and in every state of
every run of processes that follows, the frames are accounted for and the address spaces kept
apart. -/
theorem power_on_sound (mem : ByteMemory) (stack : ℕ → ℕ) (stale : ℕ → BitVec 32)
    (disk : ℕ → ℕ → UInt8) (kernelEnd : UInt32) (idleTask shellTask : ℕ)
    (hend : kernelEnd.toNat + bitmapBytes memSize ≤ 761 * 4096) (hfits : WindowsFit disk) :
    let page := (kernelEnd.toNat + 4607) / 4096
    let windows := (List.range (windowPages disk)).map fun k => (page + 6 + k) * 4096
    ∃ s₀, bootProcesses stale kernelEnd idleTask shellTask (kmainEntry mem disk stack) = .ok () s₀ ∧
      ∀ s, Relation.ReflTransGen SpaceStep s₀ s →
        LedgerExact s page windows ∧ SpacesIsolated s page windows := by
  intro page windows
  obtain ⟨s₀, hboot, honly⟩ :=
    bootProcesses_kernelOnly mem stack stale idleTask shellTask hend hfits
  refine ⟨s₀, hboot, fun s hrun => ?_⟩
  obtain ⟨g, v, hspaced, hpage, hwindows⟩ := honly.steps hrun
  have hledger := hspaced.ledgerExact
  have hisolated := hspaced.isolated
  rw [hpage, hwindows] at hledger hisolated
  exact ⟨hledger, hisolated⟩

/-- A kernel that ends at 128 KiB, on the disk with the program: the run in which it starts, exits
and is reaped. -/
theorem power_on_sound_boot_disk :
    ∃ s₀ s₁ s₂, bootProcesses (fun _ => 0#32) 131072 0x1000 0x2000
        (kmainEntry (fun _ => 0) programFile.disk fun _ => 0) = .ok () s₀ ∧
      s₁.UserSlot 2 ∧ LedgerExact s₁ 33 ((List.range 4).map fun k => (33 + 6 + k) * 4096) ∧
      SpacesIsolated s₁ 33 ((List.range 4).map fun k => (33 + 6 + k) * 4096) ∧ ¬s₂.UserSlot 2 ∧
      LedgerExact s₂ 33 ((List.range 4).map fun k => (33 + 6 + k) * 4096) ∧
      SpacesIsolated s₂ 33 ((List.range 4).map fun k => (33 + 6 + k) * 4096) := by
  have hfit : WindowsFit programFile.disk := ⟨bootDisk_fits.sector, bootDisk_fits.below⟩
  obtain ⟨s₀, hboot, hsound⟩ := power_on_sound (fun _ => 0) (fun _ => 0) (fun _ => 0#32)
    programFile.disk 131072 0x1000 0x2000 (by decide) hfit
  rw [programFile.windowPages_disk] at hsound
  obtain ⟨s, h⟩ := exists_firstBoot
  obtain rfl : s = s₀ := (EStateM.Result.ok.inj (h.boot.symm.trans hboot)).2
  obtain ⟨s₁, s₂, hrun, hstarted, -, hend, hreaped⟩ := h.run (irqReturn 0 s)
  obtain ⟨hledger₁, hspaces₁⟩ := hsound s₁ hrun
  obtain ⟨hledger₂, hspaces₂⟩ := hsound s₂ (hrun.trans hend)
  exact ⟨s, s₁, s₂, hboot, hstarted.userSlot (by decide), hledger₁, hspaces₁,
    hreaped.not_userSlot rfl, hledger₂, hspaces₂⟩

end MyOS
