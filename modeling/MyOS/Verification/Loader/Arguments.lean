import MyOS.Verification.Loader.StrayImage
import MyOS.Verification.Process.System
import MyOS.Verification.Shell.CommandLine

/-! The arguments of a new program: what it finds on its stack is what `exec_program` was called
with. -/

namespace MyOS

open Effect X86Paging ByteMemory PageTables Ownership BlockHeap

/-! ## Known bytes -/

section Known

variable {E : ℕ → Option UInt8} {dest n va : ℕ} {src : ℕ → Option UInt8}

theorem overlay_inside (hlow : dest ≤ va) (hhigh : va < dest + n) :
    overlay E dest n src va = src (va - dest) :=
  if_pos ⟨hlow, hhigh⟩

theorem overlay_outside (h : va < dest ∨ dest + n ≤ va) : overlay E dest n src va = E va :=
  if_neg (by omega)

end Known

/-- A word is known when its bytes are. -/
theorem get32_of_bytes {m : ByteMemory} {a v : ℕ} (hv : v < 2 ^ 32)
    (h : ∀ i < 4, m (a + i) = wordByte v i) : m.get32 a = v := by
  have hsame : m.get32 a = (m.set32 a v).get32 a := by
    refine get32_congr ?_
    intro i hi
    rw [h i hi, set32_byte m a v hi]
  rw [hsame, get32_set32_same, Nat.mod_eq_of_lt hv]

/-! ## The strings -/

variable {E : ℕ → Option UInt8} {argv : List (List UInt8)}

/-- Where string `i` begins. -/
def stringAddr (argv : List (List UInt8)) (i : ℕ) : ℕ := userStackTop - stringBytes (argv.drop i)

theorem getD_stringAddrs {i : ℕ} (hi : i < argv.length) :
    (stringAddrs argv).getD i 0 = stringAddr argv i := by
  induction argv generalizing i with
  | nil => simp at hi
  | cons str rest ih =>
      cases i with
      | zero => rfl
      | succ i => exact ih (by simpa using hi)

theorem stringBytes_drop {i : ℕ} {str : List UInt8} (h : argv[i]? = some str) :
    stringBytes (argv.drop i) = stringBytes (argv.drop (i + 1)) + (str.length + 1) := by
  obtain ⟨hi, hstr⟩ := List.getElem?_eq_some_iff.mp h
  rw [List.drop_eq_getElem_cons hi, hstr, stringBytes_cons]

theorem stringBytes_drop_le (argv : List (List UInt8)) {i j : ℕ} (hij : i ≤ j) :
    stringBytes (argv.drop j) ≤ stringBytes (argv.drop i) := by
  induction j, hij using Nat.le_induction with
  | base => exact Nat.le_refl _
  | succ j _ ih =>
      cases h : argv[j]? with
      | none =>
          rw [List.getElem?_eq_none_iff] at h
          rw [List.drop_eq_nil_of_le (by omega)]
          exact Nat.zero_le _
      | some str =>
          have := stringBytes_drop h
          omega

/-- The bytes of string `i` and its terminator. -/
theorem withStrings_string {i : ℕ} {str : List UInt8} (h : argv[i]? = some str)
    (hfits : stringBytes argv ≤ userStackTop) {k : ℕ} (hk : k ≤ str.length) :
    withStrings E argv (stringAddr argv i + k) = some (str.getD k 0) := by
  induction argv generalizing i with
  | nil => simp at h
  | cons first rest ih =>
      have hcons := stringBytes_cons first rest
      cases i with
      | zero =>
          obtain rfl : first = str := by simpa using h
          refine (overlay_inside (Nat.le_add_right _ k) ?_).trans ?_
          · omega
          · rw [Nat.add_sub_cancel_left]
      | succ i =>
          have hle := stringBytes_drop_le rest (Nat.zero_le i)
          rw [List.drop_zero] at hle
          have haddr : stringAddr (first :: rest) (i + 1) = stringAddr rest i := rfl
          refine (overlay_outside (.inr ?_)).trans (ih (by simpa using h) (by omega))
          rw [haddr]
          unfold stringAddr
          omega

/-- The strings lie one behind the other, from the array on to the top of the stack. -/
theorem ArgsFit.string_bounds (h : ArgsFit argv) {i : ℕ} {str : List UInt8}
    (hstr : argv[i]? = some str) :
    argvArray argv + 4 * (argv.length + 1) ≤ stringAddr argv i ∧
      stringAddr argv i + (str.length + 1) = stringAddr argv (i + 1) ∧
      stringAddr argv (i + 1) ≤ userStackTop := by
  obtain ⟨hlow, -, hhigh, hstrings⟩ := h.bounds
  have htop : userStackTop = 0xC0000000 := rfl
  have hdrop := stringBytes_drop hstr
  have hle := stringBytes_drop_le argv (Nat.zero_le i)
  rw [List.drop_zero] at hle
  unfold argvArray at hlow hhigh ⊢
  unfold stringAddr
  omega

theorem stringAddr_mono (argv : List (List UInt8)) {i j : ℕ} (hij : i ≤ j) :
    stringAddr argv i ≤ stringAddr argv j := by
  have := stringBytes_drop_le argv hij
  unfold stringAddr
  omega

/-! ## The bytes of the arguments -/

theorem withArguments_string (h : ArgsFit argv) {i : ℕ} {str : List UInt8}
    (hstr : argv[i]? = some str) {k : ℕ} (hk : k ≤ str.length) :
    withArguments E argv (stringAddr argv i + k) = some (str.getD k 0) := by
  have hbounds := (h.string_bounds hstr).1
  have hstrings := h.bounds.2.2.2
  have hptr : argsPtr argv = argvArray argv - 8 := rfl
  have htop : userStackTop = 0xC0000000 := rfl
  calc withArguments E argv (stringAddr argv i + k)
      = overlay (overlay (withPointers (withStrings E argv) argv argv.length)
          (argvArray argv + 4 * argv.length) 4 fun i => some (wordByte 0 i))
          (argvArray argv - 4) 4 (fun i => some (wordByte (argvArray argv) i))
          (stringAddr argv i + k) := overlay_outside (by omega)
    _ = overlay (withPointers (withStrings E argv) argv argv.length)
          (argvArray argv + 4 * argv.length) 4 (fun i => some (wordByte 0 i))
          (stringAddr argv i + k) := overlay_outside (by omega)
    _ = withPointers (withStrings E argv) argv argv.length (stringAddr argv i + k) :=
        overlay_outside (by omega)
    _ = withStrings E argv (stringAddr argv i + k) := overlay_outside (by omega)
    _ = some (str.getD k 0) := withStrings_string hstr (by omega) hk

/-- The array: a pointer to each string, and the one that ends it. -/
theorem withArguments_array (h : ArgsFit argv) {i k : ℕ} (hi : i ≤ argv.length) (hk : k < 4) :
    withArguments E argv (argvArray argv + 4 * i + k) =
      some (wordByte (if i < argv.length then stringAddr argv i else 0) k) := by
  have hlow := h.bounds.1
  have hptr : argsPtr argv = argvArray argv - 8 := rfl
  unfold withArguments
  rw [overlay_outside (by omega), overlay_outside (by omega)]
  by_cases hlast : i < argv.length
  · have hdiv : (argvArray argv + 4 * i + k - argvArray argv) / 4 = i := by omega
    have hmod : (argvArray argv + 4 * i + k - argvArray argv) % 4 = k := by omega
    unfold withPointers
    rw [if_pos hlast, overlay_outside (by omega), overlay_inside (by omega) (by omega), hdiv, hmod,
      getD_stringAddrs hlast]
  · have hsub : argvArray argv + 4 * i + k - (argvArray argv + 4 * argv.length) = k := by omega
    rw [if_neg hlast, overlay_inside (by omega) (by omega), hsub]

/-- The two words on top. -/
theorem withArguments_words (h : ArgsFit argv) {k : ℕ} (hk : k < 4) :
    withArguments E argv (argsPtr argv + k) = some (wordByte argv.length k) ∧
      withArguments E argv (argsPtr argv + 4 + k) = some (wordByte (argvArray argv) k) := by
  have hlow := h.bounds.1
  have hptr : argsPtr argv = argvArray argv - 8 := rfl
  have hargc : argsPtr argv + k - argsPtr argv = k := by omega
  have harray : argsPtr argv + 4 + k - (argvArray argv - 4) = k := by omega
  unfold withArguments
  constructor
  · rw [overlay_inside (by omega) (by omega), hargc]
  · rw [overlay_outside (by omega), overlay_inside (by omega) (by omega), harray]

/-! ## Decoding -/

/-- Address and size of what lies on the stack: the two words, the array, and the strings it
points to. -/
def argumentRanges (m : ByteMemory) (esp : ℕ) (argv : List (List UInt8)) : List (ℕ × ℕ) :=
  let array := (startUserProgram m esp).2
  (esp, 4) :: (esp + 4, 4) :: (array, 4 * (argv.length + 1)) ::
    (List.range argv.length).map fun i => (m.get32 (array + 4 * i), (argv.getD i []).length + 1)

/-- The program that starts with this stack pointer gets the arguments `argv`. -/
structure PassesArguments (m : ByteMemory) (esp : ℕ) (argv : List (List UInt8)) : Prop where
  aligned : esp % 4 = 0
  argc : (startUserProgram m esp).1 = argv.length
  strings : ∀ i str, argv[i]? = some str →
    CString.Holds (fun k => m (m.get32 ((startUserProgram m esp).2 + 4 * i) + k)) str
  null : m.get32 ((startUserProgram m esp).2 + 4 * argv.length) = 0
  disjoint : (argumentRanges m esp argv).Pairwise fun x y => x.1 + x.2 ≤ y.1 ∨ y.1 + y.2 ≤ x.1
  inside : ∀ x ∈ argumentRanges m esp argv,
    userStackTop - userStackPages * pmmFrameSize ≤ x.1 ∧ x.1 + x.2 ≤ userStackTop

section Decoding

variable {m : ByteMemory} (hfit : ArgsFit argv)
  (hm : ∀ va b, 0xBFFFC000 ≤ va → va < userStackTop → withArguments E argv va = some b → m va = b)
include hfit hm

theorem startUserProgram_eq :
    startUserProgram m (argsPtr argv) = (argv.length, argvArray argv) := by
  obtain ⟨hlow, -, hhigh, -⟩ := hfit.bounds
  have htop : userStackTop = 0xC0000000 := rfl
  have hptr : argsPtr argv = argvArray argv - 8 := rfl
  have hargc : m.get32 (argsPtr argv) = argv.length :=
    get32_of_bytes (by omega) fun i hi =>
      hm _ _ (by omega) (by omega) (withArguments_words hfit hi).1
  have harray : m.get32 (argsPtr argv + 4) = argvArray argv :=
    get32_of_bytes (by omega) fun i hi =>
      hm _ _ (by omega) (by omega) (withArguments_words hfit hi).2
  unfold startUserProgram
  rw [hargc, harray]

theorem get32_argvArray {i : ℕ} (hi : i ≤ argv.length) :
    m.get32 (argvArray argv + 4 * i) = if i < argv.length then stringAddr argv i else 0 := by
  obtain ⟨hlow, -, hhigh, -⟩ := hfit.bounds
  have htop : userStackTop = 0xC0000000 := rfl
  refine get32_of_bytes ?_ fun k hk =>
    hm _ _ (by omega) (by omega) (withArguments_array hfit hi hk)
  unfold stringAddr
  split
  · omega
  · exact Nat.two_pow_pos 32

theorem argumentRanges_eq :
    argumentRanges m (argsPtr argv) argv =
      (argsPtr argv, 4) :: (argsPtr argv + 4, 4) :: (argvArray argv, 4 * (argv.length + 1)) ::
        (List.range argv.length).map fun i => (stringAddr argv i, (argv.getD i []).length + 1) := by
  unfold argumentRanges
  rw [startUserProgram_eq hfit hm]
  simp only [List.cons.injEq, true_and]
  refine List.map_congr_left ?_
  intro i hi
  rw [List.mem_range] at hi
  rw [get32_argvArray hfit hm (by omega), if_pos hi]

omit hm in
/-- The ranges lie one behind the other. -/
theorem ranges_sorted :
    ((argsPtr argv, 4) :: (argsPtr argv + 4, 4) :: (argvArray argv, 4 * (argv.length + 1)) ::
      (List.range argv.length).map fun i =>
        (stringAddr argv i, (argv.getD i []).length + 1)).Pairwise fun x y => x.1 + x.2 ≤ y.1 := by
  have hlow := hfit.bounds.1
  have hptr : argsPtr argv = argvArray argv - 8 := rfl
  have hstring : ∀ x ∈ (List.range argv.length).map fun i =>
      (stringAddr argv i, (argv.getD i []).length + 1),
      argvArray argv + 4 * (argv.length + 1) ≤ x.1 := by
    intro x hx
    obtain ⟨i, hi, rfl⟩ := List.mem_map.mp hx
    rw [List.mem_range] at hi
    exact (hfit.string_bounds (List.getElem?_eq_getElem hi)).1
  have hsorted : ((List.range argv.length).map fun i =>
      (stringAddr argv i, (argv.getD i []).length + 1)).Pairwise fun x y => x.1 + x.2 ≤ y.1 := by
    rw [List.pairwise_map]
    refine List.pairwise_lt_range.imp_of_mem ?_
    intro i j hi hj hij
    rw [List.mem_range] at hi
    have hnext := (hfit.string_bounds (List.getElem?_eq_getElem hi)).2.1
    have hmono := stringAddr_mono argv (show i + 1 ≤ j from hij)
    rw [List.getD_eq_getElem _ _ hi]
    omega
  refine List.pairwise_cons.mpr ⟨?_, List.pairwise_cons.mpr ⟨?_, List.pairwise_cons.mpr
    ⟨hstring, hsorted⟩⟩⟩
  · simp only [List.mem_cons, forall_eq_or_imp]
    refine ⟨Nat.le_refl _, by omega, ?_⟩
    intro x hx
    have := hstring x hx
    omega
  · simp only [List.mem_cons, forall_eq_or_imp]
    refine ⟨by omega, ?_⟩
    intro x hx
    have := hstring x hx
    omega

/-- The bytes that are known make up the arguments. -/
theorem passesArguments_of_bytes (hnul : ∀ str ∈ argv, 0 ∉ str) :
    PassesArguments m (argsPtr argv) argv := by
  obtain ⟨hlow, haligned, hhigh, -⟩ := hfit.bounds
  have hptr : argsPtr argv = argvArray argv - 8 := rfl
  have htop : userStackTop = 0xC0000000 := rfl
  have hstart := startUserProgram_eq hfit hm
  refine ⟨by omega, ?_, ?_, ?_, ?_, ?_⟩
  · rw [hstart]
  · intro i str hstr
    obtain ⟨hi, -⟩ := List.getElem?_eq_some_iff.mp hstr
    obtain ⟨hbelow, hnext, habove⟩ := hfit.string_bounds hstr
    have hbyte : ∀ k ≤ str.length, m (stringAddr argv i + k) = str.getD k 0 := fun k hk =>
      hm _ _ (by omega) (by omega) (withArguments_string hfit hstr hk)
    simp only [hstart]
    rw [get32_argvArray hfit hm (by omega), if_pos hi]
    refine ⟨?_, ?_, ?_⟩
    · intro k x hx
      obtain ⟨hk, hxk⟩ := List.getElem?_eq_some_iff.mp hx
      exact (hbyte k (by omega)).trans ((List.getD_eq_getElem _ _ hk).trans hxk)
    · intro x hx hzero
      rw [hzero] at hx
      exact hnul str (List.mem_of_getElem? hstr) hx
    · exact (hbyte _ (Nat.le_refl _)).trans (List.getD_eq_default _ _ (Nat.le_refl _))
  · rw [hstart]
    rw [get32_argvArray hfit hm (Nat.le_refl _), if_neg (Nat.lt_irrefl _)]
  · rw [argumentRanges_eq hfit hm]
    exact (ranges_sorted hfit).imp fun h => .inl h
  · rw [argumentRanges_eq hfit hm]
    have hbottom : userStackTop - userStackPages * pmmFrameSize = 0xBFFFC000 := rfl
    rw [hbottom]
    intro x hx
    simp only [List.mem_cons, List.mem_map, List.mem_range] at hx
    rcases hx with rfl | rfl | rfl | ⟨i, hi, rfl⟩
    · exact ⟨by omega, by omega⟩
    · exact ⟨by omega, by omega⟩
    · exact ⟨by omega, by omega⟩
    · have hstring := hfit.string_bounds (List.getElem?_eq_getElem hi)
      rw [List.getD_eq_getElem _ _ hi]
      exact ⟨by omega, by omega⟩

end Decoding

/-! ## The shell's line -/

theorem stringBytes_splitOn (xs : List UInt8) : stringBytes (xs.splitOn 32) = xs.length + 1 := by
  induction xs with
  | nil => rfl
  | cons x xs ih =>
      rw [List.splitOn_cons_eq_if_modifyHead]
      split
      · rw [stringBytes_cons, ih]
        rfl
      · cases hsplit : xs.splitOn 32 with
        | nil => exact absurd hsplit (List.splitOn_ne_nil _ _)
        | cons w ws =>
            rw [hsplit, stringBytes_cons] at ih
            rw [List.modifyHead_cons, stringBytes_cons, List.length_cons, List.length_cons]
            omega

theorem stringBytes_sublist {xs ys : List (List UInt8)} (h : xs.Sublist ys) :
    stringBytes xs ≤ stringBytes ys :=
  List.Sublist.sum_le_sum (h.map _) fun _ _ => Nat.zero_le _

/-- Words of a line of 255 characters fit on the stack. -/
theorem argsFit_words {line : List UInt8} (hline : line.length ≤ 255)
    (hwords : argv.Sublist (words line)) (hargc : argv.length ≤ maxArgs) : ArgsFit argv := by
  have hle := stringBytes_sublist (hwords.trans List.filter_sublist)
  rw [stringBytes_splitOn] at hle
  unfold maxArgs at hargc
  unfold ArgsFit
  omega

/-! ## The new task -/

variable {s s' : Machine} {g : Layout} {v : HeapView} {pid : ℕ}

/-- The machine when a task runs: its own directory is active. -/
def Machine.asTask (s : Machine) (pid : ℕ) : Machine :=
  { s with cr3 := (s.processTable pid).cpuState.cr3 }

/-- From the finished stack on, memory changes in the block of the file only. -/
theorem installTask_mem {filename : List UInt8} {a n newDir userStackPtr : ℕ}
    (h : KernelHeap s g v) (ha : (a, n) ∈ v.live)
    (hrun : installTask filename (a + 8) newDir userStackPtr s = .ok (some pid) s') :
    ∃ head, s'.mem = s.mem.set32 (g.phys (a + 4)) head ∧ s'.paging = true ∧
      (s'.processTable pid).cpuState.cr3 = newDir ∧
      (s'.processTable pid).cpuState.esp = userStackPtr := by
  obtain ⟨-, kernelStack, t, entry, wakeupTime, halloc, -, hfree⟩ := installTask_some hrun
  cases halloc
  unfold free at hfree
  rw [if_neg (by omega), bind_of_ok (get_apply _)] at hfree
  obtain ⟨_, u, hstore, hmodify⟩ := bind_eq_ok.mp hfree
  cases hmodify
  obtain ⟨pa, hpa, rfl⟩ := store32_ok hstore
  obtain ⟨k, hk, -⟩ := h.heap.heap.fits _ ha
  have hheap := (h.heap.block_bounds hk).2.1
  have hreach : s.translate (a + 4) = some (g.phys (a + 4)) :=
    h.space.translate_phys (.inl h.cr3) (h.space.inHeap_lt hheap)
  have hsame : some pa = some (g.phys (a + 4)) := hpa.symm.trans hreach
  obtain rfl : pa = g.phys (a + 4) := Option.some.inj hsame
  refine ⟨_, rfl, h.space.paging, ?_, ?_⟩
  · change (Function.update s.processTable pid _ pid).cpuState.cr3 = newDir
    rw [Function.update_self]
    rfl
  · change (Function.update s.processTable pid _ pid).cpuState.esp = userStackPtr
    rw [Function.update_self]
    rfl

/-- The program's pages as the new task sees them. -/
theorem Execution.Ready.view {x : Execution} {l : Load} {sp : Space} {loose : ℕ → Prop} {a n : ℕ}
    (h : x.Ready l sp loose v argv a n) (hrun : x.Runs argv s pid s') {va : ℕ}
    (hlow : 2 ^ 22 ≤ va) (hhigh : va < userStackTop) :
    (s'.processTable pid).cpuState.esp = argsPtr argv ∧
      (s'.asTask pid).translate va =
        (sp.page (va / 2 ^ 22) (va / 4096 % 1024)).map (· + va % 4096) ∧
      ∀ f, sp.page (va / 2 ^ 22) (va / 4096 % 1024) = some f →
        s'.mem (f + va % 4096) = x.ready.mem (f + va % 4096) := by
  have hinstalls := hrun.installs
  rw [h.buf] at hinstalls
  obtain ⟨head, hmem, hpaging, hcr3, hesp⟩ := installTask_mem h.left h.live hinstalls
  have htop : userStackTop = 0xC0000000 := rfl
  obtain ⟨k, hk, -⟩ := h.left.heap.heap.fits _ h.live
  obtain ⟨-, hheap, haligned, -⟩ := h.left.heap.block_bounds hk
  have hspace := h.left.space.of_heap_bytes (heapOnly_set32 hheap (by omega) x.left.mem head)
  refine ⟨hesp.trans h.userStackPtr, ?_, ?_⟩
  · have hdir : (s'.processTable pid).cpuState.cr3 = sp.dir := by
      rw [hcr3, h.dir]
    unfold Machine.translate Machine.asTask
    rw [hpaging, if_pos rfl, hdir, hmem, Nat.mod_eq_of_lt (by omega)]
    exact hspace.translate_space h.loaded.space_eq (by omega) (by omega)
  · intro f hf
    rw [hmem]
    obtain ⟨b, hb, -, hphys⟩ := h.left.space.phys_heap hheap
    refine h.loaded.bytes_kept hb (fun _ _ hne => by cases hne) ?_ hf (Nat.mod_lt _ (by decide))
    intro y hy
    refine set32_of_outside _ _ ?_
    rw [hphys]
    omega

/-- What a task finds on its stack. -/
structure GetsArguments (s : Machine) (pid : ℕ) (argv : List (List UInt8)) : Prop where
  passes : PassesArguments (s.asTask pid).view (s.processTable pid).cpuState.esp argv
  mapped : ∀ va, userStackTop - userStackPages * pmmFrameSize ≤ va → va < userStackTop →
    ∃ pa, (s.asTask pid).translate va = some pa

theorem Execution.Ready.getsArguments {x : Execution} {l : Load} {sp : Space} {loose : ℕ → Prop}
    {a n : ℕ} (h : x.Ready l sp loose v argv a n) (hrun : x.Runs argv s pid s')
    (hfit : ArgsFit argv) (hnul : ∀ str ∈ argv, 0 ∉ str) : GetsArguments s' pid argv := by
  have htop : userStackTop = 0xC0000000 := rfl
  have hpages : userStackPages * pmmFrameSize = 0x4000 := rfl
  have hesp := (h.view hrun (show 2 ^ 22 ≤ 0xBFFFC000 by decide) (by decide)).1
  constructor
  · have hbytes : ∀ va b, 0xBFFFC000 ≤ va → va < userStackTop → l.bytes x.buf argv va = some b →
        (s'.asTask pid).view va = b := by
      intro va b hlow hhigh hb
      obtain ⟨f, hf, hbyte⟩ := h.loaded.bytes va b hb
      obtain ⟨-, htranslate, hsame⟩ := h.view hrun (show 2 ^ 22 ≤ va by omega) hhigh
      unfold Machine.view
      rw [htranslate, hf]
      exact (hsame f hf).trans hbyte
    rw [hesp]
    exact passesArguments_of_bytes hfit hbytes hnul
  · intro va hlow hhigh
    obtain ⟨-, htranslate, -⟩ := h.view hrun (show 2 ^ 22 ≤ va by omega) hhigh
    obtain ⟨f, hf⟩ := h.whole.mapped (va / 4096) (h.stack _ (mem_stackPages.mpr (by omega)))
    rw [htranslate]
    have hdiv : va / 4096 / 1024 = va / 2 ^ 22 := by omega
    rw [hdiv] at hf
    exact ⟨_, by rw [hf]; rfl⟩

/-- Argument passing round-trips. Words of a line of the shell always fit. A program that was
started finds its arguments: the decoder of `user_entry.asm` gets `argc` and an array of pointers
to copies of the strings, closed by `NULL`, all of it in ranges of the mapped stack that do not
meet. -/
theorem exec_program_arguments :
    (∀ (line : List UInt8) (argv : List (List UInt8)), line.length ≤ 255 →
      argv.Sublist (words line) → argv.length ≤ maxArgs → ArgsFit argv) ∧
    ∀ (s s' : Machine) (g : Layout) (v : HeapView) (argv : List (List UInt8)) (pid : ℕ),
      KernelHeap s g v → (∀ i, (s.processTable i).state = .unused → g.space i = none) →
      argv.length ≤ maxArgs → (∀ str ∈ argv, 0 ∉ str) → ArgsFit argv →
      ReadsFile ProgramImage argv s → execProgram argv s = .ok (some pid) s' →
      Clean s'.trace → GetsArguments s' pid argv := by
  refine ⟨fun line argv => argsFit_words, ?_⟩
  intro s s' g v argv pid h hslots _ hnul hfit hfile hrun hclean
  obtain ⟨x, hx⟩ := execProgram_stages hrun
  obtain ⟨hslot, -⟩ := installTask_some hx.installs
  rw [hx.table] at hslot
  have hspace := hslots pid (findFreeSlot_eq_some hslot).2
  obtain ⟨frames, t, sp, loose, v', a, size, -, -, hready⟩ :=
    h.ready hx hclean hspace hfile (fun _ _ _ hQ => hQ) hfit
  exact hready.getsArguments hx hfit hnul

theorem exec_program_arguments_prog :
    ArgsFit [text "prog.bin", text "-v"] ∧ ∃ s s' : Machine,
      execProgram [text "prog.bin", text "-v"] s = .ok (some 2) s' ∧
        GetsArguments s' 2 [text "prog.bin", text "-v"] := by
  have hargv : [text "prog.bin", text "-v"] = words (text "prog.bin -v") := by decide +kernel
  have hfit : ArgsFit [text "prog.bin", text "-v"] :=
    exec_program_arguments.1 (text "prog.bin -v") [text "prog.bin", text "-v"]
      (by decide +kernel) (by rw [hargv]) (by decide)
  obtain ⟨s, hfile⟩ := exists_fileMachine programFile
  have hs := hfile.toFileVolume.imageMachine
  obtain ⟨s', hrun, hclean, -⟩ := hs.execProgram hfile.clean hfile.freeSlot hfit
  refine ⟨hfit, s, s', hrun, ?_⟩
  exact exec_program_arguments.2 s s' (fsLayout 33 4) (fsView 33) _ 2 hs.kernelHeap
    (fun i _ => hs.spaces i) (by decide) (by decide +kernel) hfit
    ((hs.readsFile hfile.clean [text "-v"]).mono fun _ _ _ himage => himage.toProgramImage) hrun
    hclean

/-- What the new task of such a call sees in the first page of its stack. -/
theorem StrayCall.view {c old : UInt8} {s s' ready left : Machine} {g : Layout} {v : HeapView}
    {a : ℕ} (h : StrayCall c old s ready left s' g v a) (va : ℕ) (hlow : 0xBFFFF000 ≤ va)
    (hhigh : va < 0xC0000000) :
    (s'.processTable 2).cpuState.esp = 0xBFFFFFE0 ∧
      (s'.asTask 2).view va = ready.mem (va - 0xBFFD1000) := by
  obtain ⟨base, hready⟩ := h.redirected
  obtain ⟨head, hmem, hpaging, hcr3, hesp⟩ := installTask_mem h.heap h.live h.installs
  obtain ⟨k, hk, -⟩ := h.heap.heap.heap.fits _ h.live
  obtain ⟨-, hheap, haligned, -⟩ := h.heap.heap.block_bounds hk
  have honly : HeapOnly g ready.mem s'.mem := by
    rw [hmem, h.same]
    exact heapOnly_set32 hheap (by omega) _ head
  obtain ⟨hreach, hbyte⟩ := hready.seen honly hlow hhigh
  refine ⟨hesp, ?_⟩
  have htranslate : (s'.asTask 2).translate va = some (va - 0xBFFD1000) := by
    unfold Machine.translate Machine.asTask
    rw [hpaging, if_pos rfl, hcr3, Nat.mod_eq_of_lt (by omega)]
    exact hreach
  unfold Machine.view
  rw [htranslate]
  exact hbyte

/-- Without a program in the file the task may find something else: its last string begins with
a byte that was in the frame before. -/
theorem exec_program_arguments_stray :
    ∃ (s s' : Machine) (g : Layout) (v : HeapView) (argv : List (List UInt8)) (pid : ℕ),
      KernelHeap s g v ∧ (∀ i, (s.processTable i).state = .unused → g.space i = none) ∧
      argv.length ≤ maxArgs ∧ (∀ str ∈ argv, 0 ∉ str) ∧ ArgsFit argv ∧ Clean s'.trace ∧
      execProgram argv s = .ok (some pid) s' ∧ ¬GetsArguments s' pid argv := by
  obtain ⟨s, hfile⟩ := exists_fileMachine (imageFile strayImage)
  obtain ⟨c, old, ready, left, s', g, v, a, h⟩ := hfile.stray
  have hs := hfile.toFileVolume.imageMachine
  obtain ⟨hne, hnul⟩ := h.fresh
  refine ⟨s, s', fsLayout 33 4, fsView 33, strayArgs c, 2, hs.kernelHeap, fun i _ => hs.spaces i,
    (by decide : 2 ≤ maxArgs), ?_, ?_, h.clean, h.run, ?_⟩
  · intro str hstr
    rcases List.mem_cons.mp hstr with rfl | hstr
    · decide +kernel
    · obtain rfl := List.mem_singleton.mp hstr
      simp [hnul.symm]
  · have hlength : (text "prog.bin").length = 8 := by decide +kernel
    unfold ArgsFit strayArgs
    rw [stringBytes_cons, stringBytes_cons, hlength]
    exact (by decide : (0 + (2 + 1) + (8 + 1) + 3) / 4 * 4 + 4 * (2 + 3) ≤ 0x4000)
  · intro hgets
    have hword : ∀ va, 0xBFFFF000 ≤ va → va + 4 ≤ 0xC0000000 →
        (s'.asTask 2).view.get32 va = ready.mem.get32 (va - 0xBFFD1000) := by
      intro va hlow hhigh
      have hbyte : ∀ k < 4, (s'.asTask 2).view (va + k) = ready.mem (va - 0xBFFD1000 + k) := by
        intro k hk
        have hpa : va + k - 0xBFFD1000 = va - 0xBFFD1000 + k := by omega
        rw [(h.view (va + k) (by omega) (by omega)).2, hpa]
      unfold get32
      rw [← hbyte 1 (by omega), ← hbyte 2 (by omega), ← hbyte 3 (by omega)]
      have hfirst := hbyte 0 (by omega)
      rw [Nat.add_zero, Nat.add_zero] at hfirst
      rw [hfirst]
    have harray : (s'.asTask 2).view.get32 (0xBFFFFFE0 + 4) = 0xBFFFFFE8 :=
      (hword _ (by decide) (by decide)).trans h.array
    have hslot : (s'.asTask 2).view.get32 (0xBFFFFFE8 + 4 * 1) = 0xBFFFFFFD :=
      (hword _ (by decide) (by decide)).trans h.string
    obtain ⟨hesp, hbyte⟩ := h.view 0xBFFFFFFD (by decide) (by decide)
    have hstring := hgets.passes.strings 1 [c, 120] rfl
    unfold startUserProgram at hstring
    rw [hesp] at hstring
    simp only [harray, hslot] at hstring
    have hfirst : (s'.asTask 2).view 0xBFFFFFFD = c := hstring.begins 0 c rfl
    obtain ⟨base, hready⟩ := h.redirected
    exact hne (hfirst.symm.trans (hbyte.trans hready.old_eq))

end MyOS
