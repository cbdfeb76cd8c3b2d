import MyOS.Model.Boot
import MyOS.Verification.Shell.Numbers

/-! The `kill` command: which strings reap which slot. -/

namespace MyOS

open Decimal Effect Logged

variable {arg : List UInt8} {s : Machine}

theorem killCommandNoted_erases (arg : List UInt8) :
    Logged.Erases (killCommandNoted arg) (killCommand arg) := by
  refine Logged.Erases.ite (Logged.erases_read fun t => Logged.Erases.ite ?_ (Logged.erases_pure ()))
    (Logged.erases_pure ())
  exact (erases_quiet _).note_bind _

/-- The slots that `kill` reaps. -/
def reaped (arg : List UInt8) (s : Machine) : List ℕ := (final (killCommandNoted arg) (s, [])).2

/-- The contract of `kill`: a slot is reaped only under its own number, and a string that is not
the number of a slot changes nothing. -/
structure KillsNamed (arg : List UInt8) (s : Machine) : Prop where
  named : ∀ p ∈ reaped arg s, Numeral arg ∧ value arg = p
  other : (∀ p < maxProcesses, ¬(Numeral arg ∧ value arg = p)) → killCommand arg s = .ok () s

/-- The slot that the sum of the characters comes to is a zombie's. -/
def Hits (arg : List UInt8) (s : Machine) (p : ℕ) : Prop :=
  0 < p ∧ p < maxProcesses ∧ charSum arg % 2 ^ 32 = p ∧ (s.processTable p).state = .zombie

theorem atoi_eq_iff (arg : List UInt8) {p : ℕ} (hp : p < 2 ^ 31) :
    atoi arg = p ↔ charSum arg % 2 ^ 32 = p := by
  rw [atoi_eq_bmod, Int.bmod_def]
  have hnonneg := Int.emod_nonneg (charSum arg) (show (2 : ℤ) ^ 32 ≠ 0 by decide)
  have hlt := Int.emod_lt_of_pos (charSum arg) (show (0 : ℤ) < 2 ^ 32 by decide)
  push_cast
  split <;> omega

theorem quiet_slotState (s : Machine) (p : ℕ) (log : List ℕ) :
    quiet (do return ((← get : Machine).processTable p).state : Kernel TaskState) (s, log) =
      .ok (s.processTable p).state (s, log) := rfl

theorem killCommand_hits {p : ℕ} (h : Hits arg s p) :
    killCommand arg s = reap p s ∧ reaped arg s = [p] := by
  obtain ⟨hpos, hlt, hsum, hzombie⟩ := h
  have hslots : maxProcesses = 16 := rfl
  have hatoi := (atoi_eq_iff arg (by omega : p < 2 ^ 31)).mpr hsum
  have hrange : 0 < atoi arg ∧ atoi arg < maxProcesses := by omega
  have hslot : (atoi arg).toNat = p := by omega
  refine ⟨?_, ?_⟩
  · simp only [killCommand, if_pos hrange, hslot]
    rw [bind_of_ok (get_apply s), if_pos hzombie]
  · unfold reaped killCommandNoted
    simp only [if_pos hrange, hslot]
    rw [final_bind_of_ok (quiet_slotState s p []), if_pos hzombie,
      final_bind_of_ok (show note p (s, []) = .ok () (s, [p]) from rfl)]
    unfold final quiet
    cases reap p s <;> rfl

theorem killCommand_misses (h : ∀ p, ¬Hits arg s p) :
    killCommand arg s = .ok () s ∧ reaped arg s = [] := by
  by_cases hrange : 0 < atoi arg ∧ atoi arg < maxProcesses
  · have hslots : maxProcesses = 16 := rfl
    have hcast : ((atoi arg).toNat : ℤ) = atoi arg := by omega
    have hzombie : (s.processTable (atoi arg).toNat).state ≠ .zombie := by
      intro hzombie
      refine h (atoi arg).toNat ⟨by omega, by omega, ?_, hzombie⟩
      exact (atoi_eq_iff arg (by omega)).mp hcast.symm
    refine ⟨?_, ?_⟩
    · simp only [killCommand, if_pos hrange]
      rw [bind_of_ok (get_apply s), if_neg hzombie]
      rfl
    · unfold reaped killCommandNoted
      simp only [if_pos hrange]
      rw [final_bind_of_ok (quiet_slotState s _ []), if_neg hzombie]
      rfl
  · refine ⟨?_, ?_⟩
    · simp only [killCommand, if_neg hrange]
      rfl
    · unfold reaped killCommandNoted
      simp only [if_neg hrange]
      rfl

/-- `kill` acts on the slot that is named, if any, exactly when the sum of the characters does
not lead to a zombie of another name. -/
theorem kill_named_iff (arg : List UInt8) (s : Machine) :
    KillsNamed arg s ↔ ∀ p, Hits arg s p → Numeral arg ∧ value arg = p := by
  constructor
  · intro h p hp
    apply h.named
    rw [(killCommand_hits hp).2]
    exact List.mem_singleton_self p
  · intro h
    by_cases hhit : ∃ p, Hits arg s p
    · obtain ⟨p, hp⟩ := hhit
      have hnamed := h p hp
      refine ⟨?_, ?_⟩
      · intro q hq
        rw [(killCommand_hits hp).2, List.mem_singleton] at hq
        rw [hq]
        exact hnamed
      · intro hother
        exact absurd hnamed (hother p hp.2.1)
    · have hmiss := killCommand_misses fun p hp => hhit ⟨p, hp⟩
      refine ⟨?_, fun _ => hmiss.1⟩
      intro q hq
      rw [hmiss.2] at hq
      cases hq

/-- The idle task, the shell and a zombie in slot 10. -/
def zombieInTen : Machine :=
  { kmainEntry (fun _ => 0) (fun _ _ => 0) (fun _ => 0) with
    processTable := fun i =>
      if i < 2 then { state := .running } else if i = 10 then { state := .zombie } else {} }

/-- A colon comes ten characters behind `'0'`. -/
theorem kill_colon : reaped [58] zombieInTen = [10] ∧ ¬KillsNamed [58] zombieInTen := by
  have hhits : Hits [58] zombieInTen 10 := by
    refine ⟨by decide, by decide, ?_, rfl⟩
    decide
  refine ⟨(killCommand_hits hhits).2, ?_⟩
  intro h
  have hnamed := h.named 10 (by rw [(killCommand_hits hhits).2]; exact List.mem_singleton_self 10)
  exact absurd hnamed.1 (by decide)

end MyOS
