import MyOS.Lib.ByteMemory

/-! Two-level x86 paging with 4 KiB pages: the walk the processor makes through a page
directory and a page table, and the window a directory opens on its own tables when its
last entry points back at it. -/

namespace X86Paging

open ByteMemory

/-- Bit 0 of an entry. -/
def present (e : ℕ) : Prop := e % 2 = 1

instance (e : ℕ) : Decidable (present e) := inferInstanceAs (Decidable (e % 2 = 1))

/-- Bit 2 of an entry: ring 3 may use it. -/
def user (e : ℕ) : Prop := e / 4 % 2 = 1

instance (e : ℕ) : Decidable (user e) := inferInstanceAs (Decidable (e / 4 % 2 = 1))

/-- The address part of an entry: its low 12 bits cleared. -/
def frameOf (e : ℕ) : ℕ := e - e % 4096

/-- Entry `i` of the directory or table in the frame at `frame`. -/
def entry (m : ByteMemory) (frame i : ℕ) : ℕ := m.get32 (frame + 4 * i)

/-- The physical address behind `va`, for the directory at `dir`. -/
def translate (m : ByteMemory) (dir va : ℕ) : Option ℕ :=
  let pde := entry m dir (va / 2 ^ 22)
  if present pde then
    let pte := entry m (frameOf pde) (va / 4096 % 1024)
    if present pte then some (frameOf pte + va % 4096) else none
  else none

/-- Both entries on the way to `va` are present and open to ring 3. -/
def userAccessible (m : ByteMemory) (dir va : ℕ) : Prop :=
  let pde := entry m dir (va / 2 ^ 22)
  let pte := entry m (frameOf pde) (va / 4096 % 1024)
  present pde ∧ user pde ∧ present pte ∧ user pte

/-! ## Entries -/

theorem frameOf_mod (e : ℕ) : frameOf e % 4096 = 0 := by
  unfold frameOf
  omega

theorem frameOf_le (e : ℕ) : frameOf e ≤ e := by
  unfold frameOf
  omega

theorem frameOf_add {a f : ℕ} (ha : a % 4096 = 0) (hf : f < 4096) : frameOf (a + f) = a := by
  unfold frameOf
  omega

theorem or_eq_add {a f : ℕ} (ha : a % 4096 = 0) (hf : f < 4096) : a ||| f = a + f := by
  obtain ⟨q, rfl⟩ := Nat.dvd_of_mod_eq_zero ha
  exact (Nat.two_pow_add_eq_or_of_lt (i := 12) hf q).symm

theorem entry_lt (m : ByteMemory) (frame i : ℕ) : entry m frame i < 2 ^ 32 := get32_lt m _

theorem entry_set32_same (m : ByteMemory) (frame i v : ℕ) :
    entry (m.set32 (frame + 4 * i) v) frame i = v % 2 ^ 32 := get32_set32_same m _ v

theorem entry_set32_index {i j : ℕ} (m : ByteMemory) (frame v : ℕ) (h : j ≠ i) :
    entry (m.set32 (frame + 4 * i) v) frame j = entry m frame j :=
  get32_set32_of_disjoint m v (by omega)

/-- Writing an entry of one frame leaves the entries of every other frame. -/
theorem entry_set32_frame {frame frame' i j : ℕ} (m : ByteMemory) (v : ℕ)
    (hf : frame % 4096 = 0) (hf' : frame' % 4096 = 0) (hi : i < 1024) (hj : j < 1024)
    (h : frame' ≠ frame) :
    entry (m.set32 (frame + 4 * i) v) frame' j = entry m frame' j :=
  get32_set32_of_disjoint m v (by omega)

/-- Entries are read from the bytes of their frame. -/
theorem entry_congr {m m' : ByteMemory} {frame i : ℕ} (hi : i < 1024)
    (h : ∀ o < 4096, m' (frame + o) = m (frame + o)) : entry m' frame i = entry m frame i := by
  apply get32_congr
  intro k hk
  rw [Nat.add_assoc]
  exact h (4 * i + k) (by omega)

/-! ## The walk -/

theorem translate_eq_some {m : ByteMemory} {dir va pa : ℕ} :
    translate m dir va = some pa ↔
      present (entry m dir (va / 2 ^ 22)) ∧
      present (entry m (frameOf (entry m dir (va / 2 ^ 22))) (va / 4096 % 1024)) ∧
      pa = frameOf (entry m (frameOf (entry m dir (va / 2 ^ 22))) (va / 4096 % 1024)) +
        va % 4096 := by
  unfold translate
  simp only
  split
  · rename_i hd
    split
    · rename_i ht
      simp only [hd, ht, Option.some.injEq, true_and]
      exact eq_comm
    · rename_i ht
      simp only [reduceCtorEq, ht, false_and, and_false]
  · rename_i hd
    simp only [reduceCtorEq, hd, false_and]

/-- The walk depends on two entries only. -/
theorem translate_congr {m m' : ByteMemory} {dir va : ℕ}
    (hd : entry m' dir (va / 2 ^ 22) = entry m dir (va / 2 ^ 22))
    (ht : entry m' (frameOf (entry m dir (va / 2 ^ 22))) (va / 4096 % 1024) =
      entry m (frameOf (entry m dir (va / 2 ^ 22))) (va / 4096 % 1024)) :
    translate m' dir va = translate m dir va := by
  simp only [translate, hd, ht]

theorem userAccessible_congr {m m' : ByteMemory} {dir va : ℕ}
    (hd : entry m' dir (va / 2 ^ 22) = entry m dir (va / 2 ^ 22))
    (ht : entry m' (frameOf (entry m dir (va / 2 ^ 22))) (va / 4096 % 1024) =
      entry m (frameOf (entry m dir (va / 2 ^ 22))) (va / 4096 % 1024)) :
    userAccessible m' dir va ↔ userAccessible m dir va := by
  simp only [userAccessible, hd, ht]

/-- Without one of its two entries the walk gets nowhere. -/
theorem translate_cleared {m : ByteMemory} {dir va x w : ℕ} (hdir : dir % 4 = 0)
    (hx : x = dir + 4 * (va / 2 ^ 22) ∨
      x = frameOf (entry m dir (va / 2 ^ 22)) + 4 * (va / 4096 % 1024))
    (hw : ¬present (w % 2 ^ 32)) : translate (m.set32 x w) dir va = none := by
  have htable := frameOf_mod (entry m dir (va / 2 ^ 22))
  cases htr : translate (m.set32 x w) dir va with
  | none => rfl
  | some pa =>
      obtain ⟨hp, hp', -⟩ := translate_eq_some.mp htr
      by_cases hfirst : x = dir + 4 * (va / 2 ^ 22)
      · rw [hfirst, entry_set32_same] at hp
        exact absurd hp hw
      · have hd : entry (m.set32 x w) dir (va / 2 ^ 22) = entry m dir (va / 2 ^ 22) :=
          get32_set32_of_disjoint m w (by omega)
        rw [hd, hx.resolve_left hfirst, entry_set32_same] at hp'
        exact absurd hp' hw

/-- An entry for the page completes the walk. -/
theorem translate_filled {m : ByteMemory} {dir va x w : ℕ} (hdir : dir % 4 = 0)
    (hp : present (entry m dir (va / 2 ^ 22)))
    (hx : x = frameOf (entry m dir (va / 2 ^ 22)) + 4 * (va / 4096 % 1024))
    (hne : ¬present (m.get32 x)) (hw : present (w % 2 ^ 32)) :
    ∃ pa, translate (m.set32 x w) dir va = some pa := by
  have htable := frameOf_mod (entry m dir (va / 2 ^ 22))
  have hfirst : x ≠ dir + 4 * (va / 2 ^ 22) := by
    rintro rfl
    exact hne hp
  have hd : entry (m.set32 x w) dir (va / 2 ^ 22) = entry m dir (va / 2 ^ 22) :=
    get32_set32_of_disjoint m w (by omega)
  refine ⟨_, translate_eq_some.mpr ⟨by rw [hd]; exact hp, ?_, rfl⟩⟩
  rw [hd, hx, entry_set32_same]
  exact hw

/-- The bytes of the directory and of the tables behind its present entries. -/
def InTables (m : ByteMemory) (dir pa : ℕ) : Prop :=
  (dir ≤ pa ∧ pa < dir + 4096) ∨
  ∃ i < 1024, present (entry m dir i) ∧
    frameOf (entry m dir i) ≤ pa ∧ pa < frameOf (entry m dir i) + 4096

/-- The walk reads the tables only. -/
theorem translate_of_tables {m m' : ByteMemory} {dir va : ℕ} (hva : va < 2 ^ 32)
    (h : ∀ pa, InTables m dir pa → m' pa = m pa) : translate m' dir va = translate m dir va := by
  have hi : va / 2 ^ 22 < 1024 := by omega
  have hd : entry m' dir (va / 2 ^ 22) = entry m dir (va / 2 ^ 22) := by
    refine entry_congr hi ?_
    intro o ho
    exact h _ (.inl (by omega))
  by_cases hp : present (entry m dir (va / 2 ^ 22))
  · refine translate_congr hd (entry_congr (Nat.mod_lt _ (by omega)) ?_)
    intro o ho
    exact h _ (.inr ⟨_, hi, hp, by omega⟩)
  · simp only [translate, hd, if_neg hp]

theorem userAccessible_of_tables {m m' : ByteMemory} {dir va : ℕ} (hva : va < 2 ^ 32)
    (h : ∀ pa, InTables m dir pa → m' pa = m pa) (hacc : userAccessible m dir va) :
    userAccessible m' dir va := by
  have hd : entry m' dir (va / 2 ^ 22) = entry m dir (va / 2 ^ 22) := by
    refine entry_congr (by omega) ?_
    intro o ho
    exact h _ (.inl (by omega))
  refine (userAccessible_congr hd (entry_congr (Nat.mod_lt _ (by omega)) ?_)).mpr hacc
  intro o ho
  exact h _ (.inr ⟨_, by omega, hacc.1, by omega⟩)

theorem inTables_congr {m m' : ByteMemory} {dir pa : ℕ}
    (h : ∀ pa, InTables m dir pa → m' pa = m pa) (hpa : InTables m' dir pa) :
    InTables m dir pa := by
  rcases hpa with hdir | ⟨i, hi, hp, hin⟩
  · exact .inl hdir
  · have he : entry m' dir i = entry m dir i := by
      refine entry_congr hi ?_
      intro o ho
      exact h _ (.inl (by omega))
    rw [he] at hp hin
    exact .inr ⟨i, hi, hp, hin⟩

/-! ## What ring 3 sees -/

/-- Ring 3 may use `va`, and gets to `pa`. -/
def Opens (m : ByteMemory) (dir va pa : ℕ) : Prop :=
  va < 2 ^ 32 ∧ userAccessible m dir va ∧ translate m dir va = some pa

theorem opens_of_tables {m m' : ByteMemory} {dir va pa : ℕ}
    (h : ∀ pa, InTables m dir pa → m' pa = m pa) : Opens m' dir va pa ↔ Opens m dir va pa := by
  constructor
  · rintro ⟨hva, hacc, htr⟩
    refine ⟨hva, ?_, (translate_of_tables hva h).symm.trans htr⟩
    exact userAccessible_of_tables hva (fun x hx => (h x (inTables_congr h hx)).symm) hacc
  · rintro ⟨hva, hacc, htr⟩
    exact ⟨hva, userAccessible_of_tables hva h hacc, (translate_of_tables hva h).trans htr⟩

/-- An entry that is not open to ring 3 plays no part in what ring 3 may use. -/
theorem Opens.of_closed {m m' : ByteMemory} {dir va pa x : ℕ} (hdir : dir % 4 = 0) (hx : x % 4 = 0)
    (hout : ∀ y, y < x ∨ x + 4 ≤ y → m' y = m y)
    (hclosed : ¬(present (m.get32 x) ∧ user (m.get32 x))) (h : Opens m dir va pa) :
    Opens m' dir va pa := by
  obtain ⟨hva, hacc, htr⟩ := h
  have hkept : ∀ frame i, frame % 4 = 0 → present (entry m frame i) → user (entry m frame i) →
      entry m' frame i = entry m frame i := by
    intro frame i hframe hp hu
    have hne : frame + 4 * i ≠ x := by
      rintro rfl
      exact hclosed ⟨hp, hu⟩
    apply get32_congr
    intro k hk
    exact hout _ (by omega)
  obtain ⟨hp, hu, hp', hu'⟩ := hacc
  have htable := frameOf_mod (entry m dir (va / 2 ^ 22))
  have hd := hkept _ _ hdir hp hu
  have ht := hkept _ _ (by omega) hp' hu'
  exact ⟨hva, (userAccessible_congr hd ht).mpr ⟨hp, hu, hp', hu'⟩,
    (translate_congr hd ht).trans htr⟩

/-! ## The recursive window -/

/-- The last entry of the directory points back at the directory. -/
structure SelfMapped (m : ByteMemory) (dir : ℕ) : Prop where
  aligned : dir % 4096 = 0
  present : present (entry m dir 1023)
  self : frameOf (entry m dir 1023) = dir

/-- Page `k` of the top 4 MiB is the table behind directory entry `k`. -/
theorem SelfMapped.translate_window {m : ByteMemory} {dir k o : ℕ} (h : SelfMapped m dir)
    (hk : k < 1024) (ho : o < 4096) (hp : X86Paging.present (entry m dir k)) :
    translate m dir (0xFFC00000 + 4096 * k + o) = some (frameOf (entry m dir k) + o) := by
  have hd : (0xFFC00000 + 4096 * k + o) / 2 ^ 22 = 1023 := by omega
  have ht : (0xFFC00000 + 4096 * k + o) / 4096 % 1024 = k := by omega
  have hm : (0xFFC00000 + 4096 * k + o) % 4096 = o := by omega
  rw [translate_eq_some, hd, ht, hm, h.self]
  exact ⟨h.present, hp, rfl⟩

/-- The last page of the address space is the directory itself. -/
theorem SelfMapped.translate_directory {m : ByteMemory} {dir o : ℕ} (h : SelfMapped m dir)
    (ho : o < 4096) : translate m dir (0xFFFFF000 + o) = some (dir + o) := by
  have hw := h.translate_window (k := 1023) (by omega) ho h.present
  rw [h.self] at hw
  exact hw

theorem SelfMapped.congr {m m' : ByteMemory} {dir : ℕ} (h : SelfMapped m dir)
    (he : entry m' dir 1023 = entry m dir 1023) : SelfMapped m' dir :=
  ⟨h.aligned, by rw [he]; exact h.present, by rw [he]; exact h.self⟩

end X86Paging
