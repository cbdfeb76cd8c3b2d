import MyOS.Model.Boot
import MyOS.Verification.Memory.Access

/-! An address space as `paging_init` leaves it: the first 4 MiB one to one, and the directory
behind its own last entry. Concrete machines are built on it. -/

namespace MyOS

open Effect X86Paging ByteMemory

/-- The directory at `0x1000` and its one table at `0x2000`. -/
def identityMemory : ByteMemory := fun x =>
  if x = 0x1000 then 0x03
  else if x = 0x1001 then 0x20
  else if x = 0x1FFC then 0x03
  else if x = 0x1FFD then 0x10
  else if 0x2000 ≤ x ∧ x < 0x3000 then
    UInt8.ofNat (((x - 0x2000) / 4 * 4096 + 3) / 256 ^ (x % 4))
  else 0

/-- A machine with paging on and these tables; the rest of memory is `m`. -/
def identityMachine (m : ByteMemory) : Machine :=
  { kmainEntry (fun x => if 0x1000 ≤ x ∧ x < 0x3000 then identityMemory x else m x)
      (fun _ _ => 0) (fun _ => 0) with
    paging := true
    cr3 := 0x1000
    kernelDirectory := 0x1000 }

/-- The memory has these tables. -/
def HasIdentity (m : ByteMemory) : Prop :=
  ∀ x, 0x1000 ≤ x → x < 0x3000 → m x = identityMemory x

theorem hasIdentity_identityMachine (m : ByteMemory) : HasIdentity (identityMachine m).mem :=
  fun _ h h' => if_pos ⟨h, h'⟩

variable {m : ByteMemory}

theorem HasIdentity.directory (h : HasIdentity m) {k : ℕ} (hk : k < 1024) :
    entry m 0x1000 k = entry identityMemory 0x1000 k :=
  entry_congr hk fun o ho => h _ (by omega) (by omega)

theorem identity_directory {k : ℕ} (hk : k < 1024) :
    entry identityMemory 0x1000 k = if k = 0 then 0x2003 else if k = 1023 then 0x1003 else 0 := by
  by_cases h0 : k = 0
  · rw [if_pos h0, h0]
    rfl
  · by_cases h1 : k = 1023
    · rw [if_neg h0, if_pos h1, h1]
      rfl
    · rw [if_neg h0, if_neg h1]
      refine get32_eq_zero ?_
      intro i hi
      unfold identityMemory
      simp (disch := omega) only [if_neg]

theorem identity_table {j : ℕ} (hj : j < 1024) :
    entry identityMemory 0x2000 j = j * 4096 + 3 := by
  have hbyte : ∀ i < 4, identityMemory (0x2000 + 4 * j + i) =
      UInt8.ofNat ((j * 4096 + 3) / 256 ^ i) := by
    intro i hi
    have hdiv : (0x2000 + 4 * j + i - 0x2000) / 4 = j := by omega
    have hmod : (0x2000 + 4 * j + i) % 4 = i := by omega
    unfold identityMemory
    rw [if_neg (by omega), if_neg (by omega), if_neg (by omega), if_neg (by omega),
      if_pos (by omega), hdiv, hmod]
  have h0 := hbyte 0 (by omega)
  rw [Nat.add_zero] at h0
  rw [entry, get32, h0, hbyte 1 (by omega), hbyte 2 (by omega), hbyte 3 (by omega)]
  simp only [UInt8.toNat_ofNat']
  omega

/-- Below the entry that points back, the directory has one table. -/
theorem HasIdentity.present_directory (h : HasIdentity m) {k : ℕ} (hk : k < 1023)
    (hp : present (entry m 0x1000 k)) : k = 0 := by
  by_contra h0
  have hentry : entry m 0x1000 k = 0 := by
    rw [h.directory (by omega), identity_directory (by omega), if_neg h0, if_neg (by omega)]
  rw [hentry] at hp
  exact absurd hp (by decide)

/-- The bytes of the tables. -/
theorem HasIdentity.inTables (h : HasIdentity m) {pa : ℕ} (hpa : InTables m 0x1000 pa) :
    0x1000 ≤ pa ∧ pa < 0x3000 := by
  rcases hpa with hdir | ⟨k, hk, hp, hin⟩
  · omega
  · rw [h.directory hk, identity_directory hk] at hp hin
    by_cases h0 : k = 0
    · rw [if_pos h0] at hin
      have hframe : frameOf 0x2003 = 0x2000 := rfl
      omega
    · by_cases h1 : k = 1023
      · rw [if_neg h0, if_pos h1] at hin
        have hframe : frameOf 0x1003 = 0x1000 := rfl
        omega
      · rw [if_neg h0, if_neg h1] at hp
        exact absurd hp (by decide)

theorem HasIdentity.translate (h : HasIdentity m) {va : ℕ} (hva : va < 2 ^ 22) :
    X86Paging.translate m 0x1000 va = some va := by
  have hdir : entry m 0x1000 0 = 0x2003 := (h.directory (by omega)).trans (identity_directory (by omega))
  have htable : entry m 0x2000 (va / 4096 % 1024) = va / 4096 % 1024 * 4096 + 3 :=
    (entry_congr (by omega) fun o ho => h _ (by omega) (by omega)).trans (identity_table (by omega))
  have hframe : frameOf 0x2003 = 0x2000 := rfl
  rw [translate_eq_some, show va / 2 ^ 22 = 0 by omega, hdir, hframe, htable]
  refine ⟨by decide, by unfold present; omega, ?_⟩
  unfold frameOf
  omega

end MyOS
