import MyOS.Verification.Loader.Segments

/-! The user stack of a new program: its pages, and the arguments at its upper end. -/

namespace MyOS

open Effect X86Paging ByteMemory PageTables Ownership

variable {l : Load} {s t : Machine} {ps : List ℕ} {E : ℕ → Option UInt8} {sp : Space}
  {loose : ℕ → Prop}

/-! ## Stack pages -/

/-- Pages of the stack from page `i` on, `n` of them, downwards. -/
def stackPagesFrom (i n : ℕ) : List ℕ :=
  (List.range' i n).map fun k => (userStackTop - (k + 1) * pmmFrameSize) / 4096

def stackPages : List ℕ := stackPagesFrom 0 userStackPages

theorem stackPagesFrom_succ (i n : ℕ) :
    stackPagesFrom i (n + 1) =
      (userStackTop - (i + 1) * pmmFrameSize) / 4096 :: stackPagesFrom (i + 1) n := by
  unfold stackPagesFrom
  rw [List.range'_succ, List.map_cons]

theorem mem_stackPages {p : ℕ} : p ∈ stackPages ↔ 0xBFFFC ≤ p ∧ p < 0xC0000 := by
  have heq : stackPages = [0xBFFFF, 0xBFFFE, 0xBFFFD, 0xBFFFC] := by decide
  rw [heq]
  simp only [List.mem_cons, List.not_mem_nil, or_false]
  omega

theorem Loaded.mapStackPages (dir n : ℕ) :
    ∀ i ps E s sp loose, Loaded l ps E s sp loose → i + n ≤ userStackPages →
      (stackPagesFrom i n).reverse ++ ps <:+ l.pages →
      Loads l (MyOS.mapStackPages dir n i) s fun ok t =>
        if ok then ∃ sp' loose', Loaded l ((stackPagesFrom i n).reverse ++ ps)
          (forget E (stackPagesFrom i n)) t sp' loose'
        else Short l t := by
  induction n with
  | zero =>
      intro i ps E s sp loose h _ _
      have hnil : stackPagesFrom i 0 = [] := rfl
      rw [hnil, forget_nil]
      exact loads_of_ok rfl ⟨sp, loose, h⟩
  | succ n ih =>
      intro i ps E s sp loose h hn hsuffix
      have hva : userStackTop - (i + 1) * pmmFrameSize = 0xC0000000 - 4096 * (i + 1) := by
        unfold userStackTop pmmFrameSize
        omega
      have hi : i < 4 := by
        unfold userStackPages at hn
        omega
      rw [stackPagesFrom_succ, List.reverse_cons, List.append_assoc,
        List.singleton_append] at hsuffix ⊢
      unfold MyOS.mapStackPages
      refine h.next_page (by rw [hva]; omega) (by rw [hva]; omega) ?_ dir
        (processBlind_trace.mapStackPages _ _ _) ?_ ?_
      · exact (List.suffix_append _ _).trans hsuffix
      · intro t ht
        exact ht
      · intro t sp' loose' ht
        rw [← forget_forget]
        exact ih (i + 1) _ _ t sp' loose' ht (by omega) hsuffix

/-! ## Words -/

/-- Byte `i` of a little-endian word. -/
def wordByte (v i : ℕ) : UInt8 := UInt8.ofNat (v / 256 ^ i)

theorem set32_byte (m : ByteMemory) (a v : ℕ) {i : ℕ} (hi : i < 4) :
    m.set32 a v (a + i) = wordByte v i := by
  have hcases : i = 0 ∨ i = 1 ∨ i = 2 ∨ i = 3 := by omega
  unfold wordByte
  rcases hcases with rfl | rfl | rfl | rfl <;> simp [ByteMemory.set32, set8_apply]

/-- An aligned word stored into one of the program's pages. -/
theorem Loaded.store32 (h : Loaded l ps E s sp loose) {va : ℕ} (hlow : 2 ^ 22 ≤ va)
    (hhigh : va < 1022 * 2 ^ 22) (haligned : va % 4 = 0) (v : ℕ) :
    Loads l (MyOS.store32 va v) s fun _ t =>
      Loaded l ps (overlay E va 4 fun i => some (wordByte v i)) t sp loose := by
  have htranslate := h.translate_user hlow hhigh
  cases hf : sp.page (va / 2 ^ 22) (va / 4096 % 1024) with
  | none =>
      rw [hf, Option.map_none] at htranslate
      refine loads_of_error (e := .pageFault va) ?_ (h.halted rfl)
      rw [MyOS.store32, htranslate]
  | some f =>
      rw [hf, Option.map_some] at htranslate
      refine loads_of_ok (store32_eq v htranslate) (h.write hf ?_ ?_)
      · intro x hx
        exact set32_of_outside s.mem v (by omega)
      · intro x c hc
        by_cases hin : va ≤ x ∧ x < va + 4
        · have hbyte := set32_byte s.mem (f + va % 4096) v (show x - va < 4 by omega)
          have haddr : f + va % 4096 + (x - va) = f + x % 4096 := by omega
          unfold overlay at hc
          rw [if_pos hin] at hc
          rw [if_pos (by omega), ← haddr, hbyte]
          exact Option.some.inj hc
        · unfold overlay at hc
          rw [if_neg hin] at hc
          split
          · rename_i hpage
            obtain ⟨f', hf', hold⟩ := h.bytes x c hc
            rw [hpage.1, hpage.2, hf] at hf'
            obtain rfl : f = f' := Option.some.inj hf'
            rw [set32_of_outside s.mem v (by omega)]
            exact hold
          · exact hc

/-! ## Arguments -/

/-- Bytes the strings take with their terminators. -/
def stringBytes (argv : List (List UInt8)) : ℕ := (argv.map (·.length + 1)).sum

theorem stringBytes_cons (str : List UInt8) (rest : List (List UInt8)) :
    stringBytes (str :: rest) = stringBytes rest + (str.length + 1) := by
  unfold stringBytes
  rw [List.map_cons, List.sum_cons]
  omega

/-- Where the strings begin, the first one lowest. -/
def stringAddrs : List (List UInt8) → List ℕ
  | [] => []
  | str :: rest => (userStackTop - stringBytes (str :: rest)) :: stringAddrs rest

/-- The bytes known after the strings were copied. -/
def withStrings (E : ℕ → Option UInt8) : List (List UInt8) → ℕ → Option UInt8
  | [] => E
  | str :: rest => overlay (withStrings E rest) (userStackTop - stringBytes (str :: rest))
      (str.length + 1) fun i => some (str.getD i 0)

theorem Loaded.pushStrings (h : Loaded l ps E s sp loose) (argv : List (List UInt8))
    (hfits : stringBytes argv ≤ 0x4000) :
    Loads l (MyOS.pushStrings argv userStackTop) s fun r t =>
      r = (userStackTop - stringBytes argv, stringAddrs argv) ∧
        Loaded l ps (withStrings E argv) t sp loose := by
  induction argv with
  | nil => exact loads_of_ok rfl ⟨rfl, h⟩
  | cons str rest ih =>
      have hcons := stringBytes_cons str rest
      refine (ih (by omega)).bind ?_ ?_
      · intro r
        exact processBlind_trace.bind (processBlind_trace.memcpyFrom _ _ _)
          fun _ => processBlind_trace.pure _
      · intro r t ht
        obtain ⟨rfl, ht⟩ := ht
        have hdest : (userStackTop - stringBytes rest + 2 ^ 32 - (str.length + 1)) % 2 ^ 32 =
            userStackTop - stringBytes (str :: rest) := by
          unfold userStackTop
          rw [hcons]
          omega
        simp only [hdest]
        have hlow : 2 ^ 22 ≤ userStackTop - stringBytes (str :: rest) := by
          unfold userStackTop
          omega
        refine Loads.bind (ht.memcpyFrom hlow (by unfold userStackTop; omega) _ _)
          (fun _ => processBlind_trace.pure _) ?_
        intro _ u hu
        exact loads_of_ok rfl ⟨rfl, hu⟩

/-- Where the array of pointers to the strings lies. -/
def argvArray (argv : List (List UInt8)) : ℕ :=
  (userStackTop - stringBytes argv) / 4 * 4 - 4 * (argv.length + 1)

/-- The stack pointer of the new program: `argc` lies there, and the pointer to the array behind
it. -/
def argsPtr (argv : List (List UInt8)) : ℕ := argvArray argv - 8

/-- Strings, array and both words fit in the pages of the stack. -/
def ArgsFit (argv : List (List UInt8)) : Prop :=
  (stringBytes argv + 3) / 4 * 4 + 4 * (argv.length + 3) ≤ 0x4000

/-- The bytes known after the first `n` pointers of the array were stored. -/
def withPointers (E : ℕ → Option UInt8) (argv : List (List UInt8)) (n : ℕ) : ℕ → Option UInt8 :=
  overlay E (argvArray argv) (4 * n) fun k =>
    some (wordByte ((stringAddrs argv).getD (k / 4) 0) (k % 4))

/-- The bytes known after the arguments were set up. -/
def withArguments (E : ℕ → Option UInt8) (argv : List (List UInt8)) : ℕ → Option UInt8 :=
  overlay (overlay (overlay (withPointers (withStrings E argv) argv argv.length)
    (argvArray argv + 4 * argv.length) 4 fun i => some (wordByte 0 i))
    (argvArray argv - 4) 4 fun i => some (wordByte (argvArray argv) i))
    (argsPtr argv) 4 fun i => some (wordByte argv.length i)

theorem ArgsFit.bounds {argv : List (List UInt8)} (h : ArgsFit argv) :
    0xBFFFC008 ≤ argvArray argv ∧ argvArray argv % 4 = 0 ∧
      argvArray argv + 4 * (argv.length + 1) ≤ userStackTop ∧ stringBytes argv ≤ 0x4000 := by
  unfold ArgsFit at h
  unfold argvArray userStackTop
  omega

theorem withPointers_succ (E : ℕ → Option UInt8) (argv : List (List UInt8)) (n : ℕ) :
    overlay (withPointers E argv n) (argvArray argv + 4 * n) 4
        (fun i => some (wordByte ((stringAddrs argv).getD n 0) i)) =
      withPointers E argv (n + 1) := by
  funext va
  unfold withPointers overlay
  by_cases hnew : argvArray argv + 4 * n ≤ va ∧ va < argvArray argv + 4 * n + 4
  · have hdiv : (va - argvArray argv) / 4 = n := by omega
    have hmod : (va - argvArray argv) % 4 = va - (argvArray argv + 4 * n) := by omega
    rw [if_pos hnew, if_pos (by omega)]
    simp only [hdiv, hmod]
  · rw [if_neg hnew]
    by_cases hold : argvArray argv ≤ va ∧ va < argvArray argv + 4 * n
    · rw [if_pos hold, if_pos (by omega)]
    · rw [if_neg hold, if_neg (by omega)]

theorem Loaded.pushPointers (h : Loaded l ps E s sp loose) {argv : List (List UInt8)}
    (hfits : ArgsFit argv) :
    Loads l (forRange argv.length fun i =>
        MyOS.store32 (argvArray argv + 4 * i) ((stringAddrs argv).getD i 0)) s fun _ t =>
      Loaded l ps (withPointers E argv argv.length) t sp loose := by
  obtain ⟨hlow, haligned, hhigh, -⟩ := hfits.bounds
  unfold userStackTop at hhigh
  let inv : ℕ → Machine → Prop := fun i t => Loaded l ps (withPointers E argv i) t sp loose
  have hstart : inv 0 s := by
    have hzero : withPointers E argv 0 = E := overlay_zero E _ _
    change Loaded l ps (withPointers E argv 0) s sp loose
    rw [hzero]
    exact h
  refine loads_forRange inv (fun i => processBlind_trace.store32 _ _) ?_ hstart
  intro i t hi ht
  have hva : 2 ^ 22 ≤ argvArray argv + 4 * i := by omega
  refine (Loaded.store32 ht hva (by omega) (by omega) _).mono ?_
  intro _ u hu
  rw [withPointers_succ] at hu
  exact hu

theorem Loaded.setupArguments (h : Loaded l ps E s sp loose) {argv : List (List UInt8)}
    (hfits : ArgsFit argv) :
    Loads l (MyOS.setupArguments argv) s fun r t =>
      r = argsPtr argv ∧ Loaded l ps (withArguments E argv) t sp loose := by
  obtain ⟨hlow, haligned, hhigh, hstrings⟩ := hfits.bounds
  have htop : userStackTop = 0xC0000000 := rfl
  have hgrows := processBlind_trace
  have harray : ((userStackTop - stringBytes argv) / 4 * 4 + 2 ^ 32 - 4 * (argv.length + 1)) %
      2 ^ 32 = argvArray argv := by
    unfold argvArray at hlow hhigh ⊢
    omega
  have hslot : (argvArray argv + 2 ^ 32 - 4) % 2 ^ 32 = argvArray argv - 4 := by omega
  have hargc : (argvArray argv - 4 + 2 ^ 32 - 4) % 2 ^ 32 = argsPtr argv := by
    unfold argsPtr
    omega
  have hptr : argsPtr argv = argvArray argv - 8 := rfl
  unfold MyOS.setupArguments
  refine (h.pushStrings argv hstrings).bind ?_ ?_
  · intro r
    exact hgrows.bind (hgrows.forRange (fun _ => hgrows.store32 _ _) _) fun _ =>
      hgrows.bind (hgrows.store32 _ _) fun _ => hgrows.bind (hgrows.store32 _ _) fun _ =>
        hgrows.bind (hgrows.store32 _ _) fun _ => hgrows.pure _
  · intro r t ht
    obtain ⟨rfl, ht⟩ := ht
    simp only [harray, hslot, hargc]
    refine (ht.pushPointers hfits).bind ?_ ?_
    · intro _
      exact hgrows.bind (hgrows.store32 _ _) fun _ => hgrows.bind (hgrows.store32 _ _) fun _ =>
        hgrows.bind (hgrows.store32 _ _) fun _ => hgrows.pure _
    · intro _ t₁ ht₁
      refine (ht₁.store32 (show 2 ^ 22 ≤ argvArray argv + 4 * argv.length by omega) (by omega)
        (by omega) 0).bind ?_ ?_
      · intro _
        exact hgrows.bind (hgrows.store32 _ _) fun _ =>
          hgrows.bind (hgrows.store32 _ _) fun _ => hgrows.pure _
      · intro _ t₂ ht₂
        refine (ht₂.store32 (show 2 ^ 22 ≤ argvArray argv - 4 by omega) (by omega) (by omega) _).bind
          (fun _ => hgrows.bind (hgrows.store32 _ _) fun _ => hgrows.pure _) ?_
        intro _ t₃ ht₃
        refine (ht₃.store32 (show 2 ^ 22 ≤ argsPtr argv by omega) (by omega) (by omega) _).bind
          (fun _ => hgrows.pure _) ?_
        intro _ t₄ ht₄
        exact loads_of_ok rfl ⟨rfl, ht₄⟩

end MyOS
