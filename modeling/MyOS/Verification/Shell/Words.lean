import MyOS.Model.Terminal
import MyOS.Verification.Shell.CommandLine
import MyOS.Verification.Shell.LineEditor

/-! The words of the line as the commands get them: `strcmp` and the pointers of `argv` against
lists. -/

namespace MyOS

open CString Effect

/-! ## Strings -/

theorem stringAt_eq {str : ℕ → UInt8} {xs : List UInt8} (h : Holds str xs)
    (hlen : xs.length < 2 ^ 32) : stringAt str = xs := by
  unfold stringAt
  rw [strlen_eq h hlen]
  exact h.begins.map_range

/-- Behind a common start `strcmp` tells whether the rests are equal. -/
theorem strcmpFrom_eq_zero_iff {a b : ℕ → UInt8} {xs ys : List UInt8} (fuel : ℕ) :
    ∀ i, Holds (fun k => a (i + k)) xs → Holds (fun k => b (i + k)) ys → xs.length < fuel →
      (strcmpFrom a b fuel i = 0 ↔ xs = ys) := by
  induction fuel generalizing xs ys with
  | zero => exact fun i _ _ hfuel => absurd hfuel (Nat.not_lt_zero _)
  | succ fuel ih =>
      intro i ha hb hfuel
      have hsub : ∀ x y : UInt8, ((x.toNat : ℤ) - y.toNat = 0) ↔ x = y := by
        intro x y
        rw [Int.sub_eq_zero, Int.ofNat_inj]
        exact ⟨UInt8.toNat.inj, congrArg _⟩
      rw [strcmpFrom]
      cases xs with
      | nil =>
          have hend : a i = 0 := ha.terminated
          rw [if_neg (by simp [hend]), hsub, hend]
          cases ys with
          | nil => simpa using hb.terminated.symm
          | cons y ys =>
              have hy : b i ≠ 0 := hb.ne_zero (Nat.zero_lt_succ _)
              simpa using hy.symm
      | cons x xs =>
          have hx : a i = x := ha.begins 0 x rfl
          have hne : a i ≠ 0 := ha.ne_zero (Nat.zero_lt_succ _)
          cases ys with
          | nil =>
              have hend : b i = 0 := hb.terminated
              rw [if_neg fun h => hne (h.2.trans hend), hsub, hend]
              simpa using hne
          | cons y ys =>
              have hy : b i = y := hb.begins 0 y rfl
              by_cases hxy : x = y
              · have htail : ∀ {c : ℕ → UInt8} {z : UInt8} {zs : List UInt8},
                    Holds (fun k => c (i + k)) (z :: zs) → Holds (fun k => c (i + 1 + k)) zs := by
                  intro c z zs hc
                  have hsplit : Holds (fun k => c (i + k)) ([z] ++ zs) := hc
                  refine hsplit.append_right.congr fun k _ => ?_
                  rw [Nat.add_assoc]
                  rfl
                rw [if_pos ⟨hne, by rw [hx, hy, hxy]⟩,
                  ih (i + 1) (htail ha) (htail hb) (by simpa using hfuel), hxy]
                simp
              · rw [if_neg fun h => hxy (by rw [← hx, h.2, hy]), hsub, hx, hy]
                simp [hxy]

/-- `strcmp` finds two strings equal exactly if they are. -/
theorem strcmp_eq_zero_iff {a b : ℕ → UInt8} {xs ys : List UInt8} (ha : Holds a xs)
    (hb : Holds b ys) (hlen : xs.length < 2 ^ 32) : strcmp a b = 0 ↔ xs = ys := by
  refine strcmpFrom_eq_zero_iff _ 0 (ha.congr fun k _ => ?_) (hb.congr fun k _ => ?_) hlen
  · exact congrArg a (Nat.zero_add k)
  · exact congrArg b (Nat.zero_add k)

theorem holds_literal {str : String} (h : ∀ c ∈ text str, c ≠ 0) :
    Holds (literal str) (text str) where
  begins i x hx := by
    unfold literal
    rw [List.getD_eq_getElem?_getD, hx]
    rfl
  nonzero := h
  terminated := List.getD_eq_default _ _ (Nat.le_refl _)

/-- A word is no longer than its line. -/
theorem length_le_of_mem_words {xs w : List UInt8} (hw : w ∈ words xs) : w.length ≤ xs.length := by
  induction hn : xs.length using Nat.strong_induction_on generalizing xs with
  | _ n ih =>
      have htrim := (xs.dropWhile_suffix (· = 32)).length_le
      rw [← words_dropWhile] at hw
      by_cases hblank : xs.dropWhile (· = 32) = []
      · rw [hblank, words_nil] at hw
        cases hw
      · obtain ⟨hwords, -⟩ | ⟨w', ys, hsplit, -, hwords⟩ :=
          word_cases hblank (head_dropWhile_space xs)
        · rw [hwords, List.mem_singleton] at hw
          rw [hw, ← hn]
          exact htrim
        · have hlength := congrArg List.length hsplit
          rw [List.length_append, List.length_cons] at hlength
          rw [hwords] at hw
          rcases List.mem_cons.mp hw with rfl | hw
          · omega
          · have hrest := ih ys.length (by omega) hw rfl
            omega

/-! ## The pointers -/

/-- The loop over the words leaves the pointers it finds, and the first one it sets is where it
starts. -/
theorem parseWords_argv {argc argc' : ℕ} {argv argv' : ℕ → Option ℕ} {i fuel : ℕ}
    {s t : CommandLine} (hrun : parseWords fuel argc argv i s = .ok (argc', argv') t) :
    argc ≤ argc' ∧ (∀ j < argc, argv' j = argv j) ∧ (argc < argc' → argv' argc = some i) := by
  induction fuel generalizing argc argv i s with
  | zero => cases hrun
  | succ fuel ih =>
      rw [parseWords] at hrun
      obtain ⟨c, s₁, -, hrun⟩ := bind_eq_ok.mp hrun
      by_cases hmore : c ≠ 0 ∧ argc < maxArgs
      · rw [if_pos hmore] at hrun
        obtain ⟨wordEnd, s₂, -, hrun⟩ := bind_eq_ok.mp hrun
        obtain ⟨d, s₃, -, hrun⟩ := bind_eq_ok.mp hrun
        have hset : ∀ j < argc, Function.update argv argc (some i) j = argv j :=
          fun j hj => Function.update_of_ne (Nat.ne_of_lt hj) _ _
        by_cases hspace : d = 32
        · rw [if_pos hspace] at hrun
          obtain ⟨-, s₄, -, hrun⟩ := bind_eq_ok.mp hrun
          obtain ⟨j, s₅, -, hrun⟩ := bind_eq_ok.mp hrun
          obtain ⟨hle, hkept, -⟩ := ih hrun
          refine ⟨by omega, fun j hj => (hkept j (by omega)).trans (hset j hj), fun _ => ?_⟩
          rw [hkept argc (Nat.lt_succ_self _)]
          exact Function.update_self ..
        · rw [if_neg hspace] at hrun
          cases hrun
          exact ⟨Nat.le_succ _, hset, fun _ => Function.update_self ..⟩
      · rw [if_neg hmore] at hrun
        cases hrun
        exact ⟨Nat.le_refl _, fun _ _ => rfl, fun h => absurd h (Nat.lt_irrefl _)⟩

/-- The parse of a line: as many arguments as words, up to 16, each pointing to its word, and the
first within the line. -/
structure Parsed (xs : List UInt8) (argc : ℕ) (argv : ℕ → Option ℕ) (line : ℕ → UInt8) : Prop where
  argc_eq : argc = min maxArgs (words xs).length
  word : ∀ i w, (words xs)[i]? = some w → i < argc → Holds (argString line argv i) w
  first : 0 < argc → ∃ p ≤ xs.length, argv 0 = some p

theorem parseCommand_parsed {line : ℕ → UInt8} {xs : List UInt8} (hlen : xs.length < 2 ^ 32)
    (hline : Holds line xs) :
    ∃ argc argv t, parseCommand ⟨line, [], none⟩ = .ok (argc, argv) t ∧
      Parsed xs argc argv t.line := by
  obtain ⟨start, u, hparse, -, hargs, hend⟩ := parseCommand_eq hlen hline
  obtain ⟨argc, argv, v, hv, htok⟩ := @parseWords_spec _ (2 ^ 32) 0 _ (fun _ => none) u
    (by omega) (by omega) (Nat.zero_le _) (head_dropWhile_space xs) hargs
  refine ⟨argc, argv, v, by rw [hparse, hv], ?_, ?_, ?_⟩
  · rw [htok.argc_eq, words_dropWhile, Nat.zero_add]
  · intro i w hw hi
    obtain ⟨p, hp, hholds⟩ := htok.argv_word i w (by rw [words_dropWhile, hw]) (by omega)
    rw [Nat.zero_add] at hp
    unfold argString
    rw [hp]
    exact hholds
  · intro hpos
    exact ⟨start, by omega, (parseWords_argv hv).2.2 hpos⟩

/-- A command gets the words of the line, up to 16 of them. -/
theorem argStrings_eq {line : ℕ → UInt8} {xs : List UInt8} (hlen : xs.length < 2 ^ 32)
    (hline : Holds line xs) : argStrings line = (words xs).take maxArgs := by
  obtain ⟨argc, argv, t, hrun, hparsed⟩ := parseCommand_parsed hlen hline
  have hargc := hparsed.argc_eq
  unfold argStrings
  rw [hrun]
  refine List.ext_getElem (by simp [hargc]) ?_
  intro i hi hi'
  rw [List.length_map, List.length_range] at hi
  have hword : i < (words xs).length := by omega
  have hholds := hparsed.word i _ (List.getElem?_eq_getElem hword) hi
  have hshort := length_le_of_mem_words (List.getElem_mem hword)
  rw [List.getElem_map, List.getElem_range, List.getElem_take]
  exact stringAt_eq hholds (by omega)

end MyOS
