import MyOS.Verification.Process.System

/-! Interrupt frames: what the pushes leave at each offset of `registers_t`, what `schedule`
reads there, and what `task_switch` writes. -/

namespace MyOS

/-! ## Pushes -/

theorem below_below {addr n : ℕ} (hn : n + 4 ≤ 2 ^ 32) :
    below (below addr 4) n = below addr (n + 4) := by
  unfold below
  omega

theorem below_ne {addr m n : ℕ} (hm : m < 2 ^ 32) (hn : n < 2 ^ 32) (h : m ≠ n) :
    below addr m ≠ below addr n := by
  unfold below
  omega

theorem field_below {addr n off : ℕ} (hn : n ≤ 2 ^ 32) (hoff : off ≤ n) :
    field (below addr n) off = below addr (n - off) := by
  unfold field below
  omega

/-- Pushes leave every address but those they go to. -/
theorem pushWords_outside (words : List ℕ) (stack : ℕ → ℕ) (addr x : ℕ)
    (hlen : 4 * words.length < 2 ^ 32)
    (h : ∀ k < words.length, x ≠ below addr (4 * (k + 1))) :
    pushWords stack addr words x = stack x := by
  induction words generalizing stack addr with
  | nil => rfl
  | cons v vs ih =>
      rw [List.length_cons] at hlen h
      have h0 : x ≠ below addr 4 := h 0 (by omega)
      rw [pushWords, ih _ _ (by omega), Function.update_of_ne h0]
      intro k hk
      rw [below_below (by omega)]
      exact h (k + 1) (by omega)

/-- Word number `k` lies `4 * (k + 1)` bytes below the start. -/
theorem pushWords_word (words : List ℕ) (stack : ℕ → ℕ) (addr k : ℕ)
    (hlen : 4 * words.length < 2 ^ 32) (hk : k < words.length) :
    pushWords stack addr words (below addr (4 * (k + 1))) = words.getD k 0 := by
  induction words generalizing stack addr k with
  | nil => exact absurd hk (Nat.not_lt_zero k)
  | cons v vs ih =>
      rw [List.length_cons] at hlen hk
      rw [pushWords]
      cases k with
      | zero =>
          rw [pushWords_outside vs _ _ _ (by omega)]
          · simp
          · intro j hj
            rw [below_below (by omega)]
            exact below_ne (by omega) (by omega) (by omega)
      | succ k =>
          have hword := ih (Function.update stack (below addr 4) v) (below addr 4) k (by omega)
            (by omega)
          rw [below_below (by omega)] at hword
          exact hword

/-! ## The frame of an interrupt -/

theorem irqWords_length (c : Context) (base : ℕ) :
    (irqWords c base).length = if c.cs % 4 = 3 then 19 else 17 := by
  unfold irqWords
  by_cases h : c.cs % 4 = 3
  · simp [h]
  · simp [h]

/-- The dword at offset `4 * m` of the frame is the word pushed `m` from the last. -/
theorem irqEntry_word (c : Context) (s : Machine) {m : ℕ}
    (hm : m < (irqWords c (irqBase c s)).length) :
    (irqEntry c s).2.stack (field (irqEntry c s).1 (4 * m)) =
      (irqWords c (irqBase c s)).getD ((irqWords c (irqBase c s)).length - 1 - m) 0 := by
  have hlen : (irqWords c (irqBase c s)).length ≤ 19 := by
    rw [irqWords_length]
    split <;> omega
  change pushWords s.stack (irqBase c s) (irqWords c (irqBase c s))
    (field (below (irqBase c s) (4 * (irqWords c (irqBase c s)).length)) (4 * m)) = _
  rw [field_below (by omega) (by omega), ← pushWords_word _ s.stack (irqBase c s) _ (by omega)
    (by omega)]
  congr 2
  omega

/-- The registers of an interrupted user task as `schedule` stores them. -/
def Context.userState (c : Context) (pageDirectory : ℕ) : CpuState where
  edi := c.edi
  esi := c.esi
  ebp := c.ebp
  ebx := c.ebx
  edx := c.edx
  ecx := c.ecx
  eax := c.eax
  eip := c.eip
  cs := c.cs
  eflags := c.eflags
  esp := c.esp
  ss := c.ss
  cr3 := pageDirectory

theorem irqEntry_word_user {c : Context} (hcs : c.cs % 4 = 3) (s : Machine) {m : ℕ} (hm : m < 19) :
    (irqEntry c s).2.stack (field (irqEntry c s).1 (4 * m)) =
      [c.ss, c.esp, c.eflags, c.cs, c.eip, 0, 32, c.eax, c.ecx, c.edx, c.ebx,
        below s.esp0 28, c.ebp, c.esi, c.edi, c.ds, c.es, c.fs, c.gs].getD (18 - m) 0 := by
  have hlen := irqWords_length c (irqBase c s)
  rw [if_pos hcs] at hlen
  rw [irqEntry_word c s (by omega), hlen]
  simp [irqWords, irqBase, hcs]

theorem irqEntry_word_kernel {c : Context} (hcs : c.cs % 4 ≠ 3) (s : Machine) {m : ℕ}
    (hm : m < 17) :
    (irqEntry c s).2.stack (field (irqEntry c s).1 (4 * m)) =
      [c.eflags, c.cs, c.eip, 0, 32, c.eax, c.ecx, c.edx, c.ebx,
        below c.esp 20, c.ebp, c.esi, c.edi, c.ds, c.es, c.fs, c.gs].getD (16 - m) 0 := by
  have hlen := irqWords_length c (irqBase c s)
  rw [if_neg hcs] at hlen
  rw [irqEntry_word c s (by omega), hlen]
  simp [irqWords, irqBase, hcs]

/-- For a task interrupted in ring 3, saving by field name finds each register where the
pushes put it. -/
theorem savedState_user {c : Context} (hcs : c.cs = 0x1B) (s : Machine) (pageDirectory : ℕ) :
    savedState (irqEntry c s).2.stack (irqEntry c s).1 pageDirectory =
      c.userState pageDirectory := by
  have hring : c.cs % 4 = 3 := by rw [hcs]
  have hedi := irqEntry_word_user hring s (m := 4) (by decide)
  have hesi := irqEntry_word_user hring s (m := 5) (by decide)
  have hebp := irqEntry_word_user hring s (m := 6) (by decide)
  have hebx := irqEntry_word_user hring s (m := 8) (by decide)
  have hedx := irqEntry_word_user hring s (m := 9) (by decide)
  have hecx := irqEntry_word_user hring s (m := 10) (by decide)
  have heax := irqEntry_word_user hring s (m := 11) (by decide)
  have heip := irqEntry_word_user hring s (m := 14) (by decide)
  have hcode := irqEntry_word_user hring s (m := 15) (by decide)
  have hflags := irqEntry_word_user hring s (m := 16) (by decide)
  have huser := irqEntry_word_user hring s (m := 17) (by decide)
  have hss := irqEntry_word_user hring s (m := 18) (by decide)
  generalize (irqEntry c s).2.stack = stack at *
  generalize (irqEntry c s).1 = r at *
  simp only [Nat.reduceMul, Nat.reduceSub, List.getD_cons_succ, List.getD_cons_zero] at *
  simp only [savedState, regsEdi, regsEsi, regsEbp, regsEbx, regsEdx, regsEcx, regsEax, regsEip,
    regsCs, regsEflags, regsUseresp, regsSs, hedi, hesi, hebp, hebx, hedx, hecx, heax, heip, hcode,
    hflags, huser, hss, hcs, if_true, Context.userState]

/-- For a task interrupted in ring 0, the stack pointer saved is the one `pusha` stored, five
words below the one at the interrupt. -/
theorem savedState_kernel {c : Context} (hcs : c.cs = 0x08) (s : Machine) (pageDirectory : ℕ) :
    let cpu := savedState (irqEntry c s).2.stack (irqEntry c s).1 pageDirectory
    cpu.cs = 0x08 ∧ cpu.esp = below c.esp 20 ∧ cpu.ss = 0x10 := by
  have hring : c.cs % 4 ≠ 3 := by rw [hcs]; decide
  have hcode := irqEntry_word_kernel hring s (m := 15) (by decide)
  have hesp := irqEntry_word_kernel hring s (m := 7) (by decide)
  generalize (irqEntry c s).2.stack = stack at *
  generalize (irqEntry c s).1 = r at *
  simp only [Nat.reduceMul, Nat.reduceSub, List.getD_cons_succ, List.getD_cons_zero, hcs] at *
  simp only [savedState, regsCs, regsEsp, hcode, hesp]
  exact ⟨trivial, if_neg (by decide), if_neg (by decide)⟩

/-! ## The frame `task_switch` leaves -/

/-- The frame at `r` holds a saved state and CR3 is that of the state. -/
structure FrameHolds (s : Machine) (r : ℕ) (c : CpuState) : Prop where
  edi : s.stack (field r regsEdi) = c.edi
  esi : s.stack (field r regsEsi) = c.esi
  ebp : s.stack (field r regsEbp) = c.ebp
  ebx : s.stack (field r regsEbx) = c.ebx
  edx : s.stack (field r regsEdx) = c.edx
  ecx : s.stack (field r regsEcx) = c.ecx
  eax : s.stack (field r regsEax) = c.eax
  eip : s.stack (field r regsEip) = c.eip
  cs : s.stack (field r regsCs) = c.cs
  eflags : s.stack (field r regsEflags) = c.eflags
  useresp : s.stack (field r regsUseresp) = c.esp
  ss : s.stack (field r regsSs) = c.ss
  cr3 : s.cr3 = c.cr3

theorem field_eq_iff (r : ℕ) {a b : ℕ} (ha : a < 76) (hb : b < 76) :
    field r a = field r b ↔ a = b := by
  unfold field
  omega

/-- The moves by byte offset put every saved register at the offset of its own name. -/
theorem loadFrame_word (c : CpuState) (r : ℕ) (stack : ℕ → ℕ) {src dst : ℕ}
    (h : (src, dst) ∈ switchMoves) : loadFrame c r stack (field r dst) = c.word src := by
  simp only [switchMoves, List.mem_cons, Prod.mk.injEq, List.not_mem_nil, or_false] at h
  rcases h with ⟨rfl, rfl⟩ | ⟨rfl, rfl⟩ | ⟨rfl, rfl⟩ | ⟨rfl, rfl⟩ | ⟨rfl, rfl⟩ | ⟨rfl, rfl⟩ |
    ⟨rfl, rfl⟩ | ⟨rfl, rfl⟩ | ⟨rfl, rfl⟩ | ⟨rfl, rfl⟩ | ⟨rfl, rfl⟩ | ⟨rfl, rfl⟩ <;>
  simp [loadFrame, switchMoves, field_eq_iff]

theorem taskSwitch_frame (r : ℕ) (s : Machine) :
    FrameHolds (taskSwitch r s) r
      ((taskSwitch r s).processTable (taskSwitch r s).currentTask).cpuState := by
  have hword : ∀ {src dst : ℕ}, (src, dst) ∈ switchMoves →
      (taskSwitch r s).stack (field r dst) =
        ((taskSwitch r s).processTable (taskSwitch r s).currentTask).cpuState.word src :=
    fun h => loadFrame_word _ r _ h
  exact ⟨@hword 0 _ (by decide), @hword 4 _ (by decide), @hword 8 _ (by decide),
    @hword 12 _ (by decide), @hword 16 _ (by decide), @hword 20 _ (by decide),
    @hword 24 _ (by decide), @hword 28 _ (by decide), @hword 32 _ (by decide),
    @hword 36 _ (by decide), @hword 40 _ (by decide), @hword 44 _ (by decide),
    rfl⟩

end MyOS
