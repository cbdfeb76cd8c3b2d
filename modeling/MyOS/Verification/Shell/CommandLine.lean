import Mathlib.Data.List.TakeWhile
import Mathlib.Tactic.Common
import MyOS.Lib.CString
import MyOS.Model.CommandLine

/-! The command line is cut into its words, in place and within the line. -/

namespace MyOS

open CString Effect

/-! ## Words -/

/-- The maximal runs of characters other than spaces, in their order. -/
def words (xs : List UInt8) : List (List UInt8) := (xs.splitOn 32).filter fun w => w ≠ []

theorem words_nil : words [] = [] := by
  simp [words]

theorem words_space (xs : List UInt8) : words (32 :: xs) = words xs := by
  simp [words, List.splitOn_cons_eq_if_modifyHead]

theorem words_dropWhile (xs : List UInt8) : words (xs.dropWhile (· = 32)) = words xs := by
  induction xs with
  | nil => rfl
  | cons x xs ih =>
    by_cases hx : x = 32
    · rw [hx, words_space, ← ih]
      rfl
    · rw [List.dropWhile_cons_of_neg (by simpa using hx)]

theorem head_dropWhile_space (xs : List UInt8) : (xs.dropWhile (· = 32)).head? ≠ some 32 := by
  intro h
  have := List.head?_dropWhile_not (fun c : UInt8 => decide (c = 32)) xs
  rw [h] at this
  simp at this

theorem words_word {w : List UInt8} (hw : w ≠ []) (h32 : (32 : UInt8) ∉ w) : words w = [w] := by
  simp [words, List.splitOn_eq_singleton h32, hw]

theorem words_append {w : List UInt8} (hw : w ≠ []) (h32 : (32 : UInt8) ∉ w) (xs : List UInt8) :
    words (w ++ 32 :: xs) = w :: words xs := by
  simp [words, List.splitOn_append_cons_self, List.splitOn_eq_singleton h32, hw]

/-! ## The scans -/

/-- Nothing was written, and only cells up to `e` were read. -/
structure OnlyRead (e : ℕ) (s t : CommandLine) : Prop where
  line : t.line = s.line
  accessed : ∀ c ∈ t.accessed, c ∈ s.accessed ∨ c ≤ e

theorem OnlyRead.trans {e : ℕ} {s t u : CommandLine} (h : OnlyRead e s t) (h' : OnlyRead e t u) :
    OnlyRead e s u where
  line := h'.line.trans h.line
  accessed c hc := by
    obtain hc | hc := h'.accessed c hc
    · exact h.accessed c hc
    · exact .inr hc

theorem OnlyRead.mono {e e' : ℕ} {s t : CommandLine} (h : OnlyRead e s t) (he : e ≤ e') :
    OnlyRead e' s t where
  line := h.line
  accessed c hc := by
    obtain hc | hc := h.accessed c hc
    · exact .inl hc
    · exact .inr (hc.trans he)

theorem readChar_spec (s : CommandLine) {i e : ℕ} (hi : i ≤ e) :
    ∃ t, readChar i s = .ok (s.line i) t ∧ OnlyRead e s t := by
  refine ⟨{ s with accessed := i :: s.accessed }, rfl, rfl, ?_⟩
  intro c hc
  obtain rfl | hc := List.mem_cons.mp hc
  · exact .inr hi
  · exact .inl hc

/-- The line holds the string `xs` from cell `i` on. -/
abbrev HoldsAt (s : CommandLine) (i : ℕ) (xs : List UInt8) : Prop :=
  Holds (fun k => s.line (i + k)) xs

theorem HoldsAt.tail {s t : CommandLine} {i : ℕ} {x : UInt8} {xs : List UInt8}
    (h : HoldsAt s i (x :: xs)) (hline : t.line = s.line) : HoldsAt t (i + 1) xs := by
  have h' : Holds (fun k => s.line (i + k)) ([x] ++ xs) := h
  apply h'.append_right.congr
  intro k _
  rw [hline, List.length_singleton, Nat.add_assoc]

theorem HoldsAt.head {s : CommandLine} {i : ℕ} {x : UInt8} {xs : List UInt8}
    (h : HoldsAt s i (x :: xs)) : s.line i = x :=
  h.begins 0 x rfl

theorem HoldsAt.nil {s : CommandLine} {i : ℕ} (h : HoldsAt s i []) : s.line i = 0 :=
  h.terminated

theorem skipSpaces_spec {xs : List UInt8} {fuel i : ℕ} {s : CommandLine}
    (hfuel : xs.length < fuel) (h : HoldsAt s i xs) :
    ∃ t, skipSpaces fuel i s = .ok (i + (xs.takeWhile (· = 32)).length) t ∧
      OnlyRead (i + xs.length) s t := by
  induction xs generalizing fuel i s with
  | nil =>
    obtain ⟨fuel, rfl⟩ := Nat.exists_eq_succ_of_ne_zero (Nat.ne_of_gt hfuel)
    obtain ⟨t, ht, hst⟩ := readChar_spec s (Nat.le_refl i)
    refine ⟨t, ?_, hst⟩
    rw [skipSpaces, bind_of_ok ht, h.nil]
    rfl
  | cons x xs ih =>
    obtain ⟨fuel, rfl⟩ := Nat.exists_eq_succ_of_ne_zero (Nat.ne_of_gt (Nat.zero_lt_of_lt hfuel))
    rw [List.length_cons] at hfuel ⊢
    obtain ⟨t, ht, hst⟩ := readChar_spec s (Nat.le_add_right i (xs.length + 1))
    rw [skipSpaces, bind_of_ok ht, h.head]
    by_cases hx : x = 32
    · obtain ⟨u, hu, htu⟩ := ih (Nat.lt_of_succ_lt_succ hfuel) (h.tail hst.line)
      refine ⟨u, ?_, hst.trans (htu.mono (by omega))⟩
      rw [if_pos hx, hu]
      simp [hx]
      omega
    · refine ⟨t, ?_, hst⟩
      rw [if_neg hx]
      simp [hx]

theorem findWordEnd_spec {xs : List UInt8} {fuel i : ℕ} {s : CommandLine}
    (hfuel : xs.length < fuel) (h : HoldsAt s i xs) :
    ∃ t, findWordEnd fuel i s = .ok (i + (xs.takeWhile (· ≠ 32)).length) t ∧
      OnlyRead (i + xs.length) s t := by
  induction xs generalizing fuel i s with
  | nil =>
    obtain ⟨fuel, rfl⟩ := Nat.exists_eq_succ_of_ne_zero (Nat.ne_of_gt hfuel)
    obtain ⟨t, ht, hst⟩ := readChar_spec s (Nat.le_refl i)
    refine ⟨t, ?_, hst⟩
    rw [findWordEnd, bind_of_ok ht, h.nil]
    rfl
  | cons x xs ih =>
    obtain ⟨fuel, rfl⟩ := Nat.exists_eq_succ_of_ne_zero (Nat.ne_of_gt (Nat.zero_lt_of_lt hfuel))
    rw [List.length_cons] at hfuel ⊢
    obtain ⟨t, ht, hst⟩ := readChar_spec s (Nat.le_add_right i (xs.length + 1))
    obtain ⟨u, hu, htu⟩ := readChar_spec t (Nat.le_add_right i (xs.length + 1))
    rw [findWordEnd, bind_of_ok ht, h.head, if_pos (h.nonzero x (by simp)), bind_of_ok hu,
      hst.line, h.head]
    by_cases hx : x = 32
    · refine ⟨u, ?_, hst.trans htu⟩
      rw [if_neg (not_not.mpr hx)]
      simp [hx]
    · obtain ⟨v, hv, huv⟩ := ih (Nat.lt_of_succ_lt_succ hfuel) (h.tail (htu.line.trans hst.line))
      refine ⟨v, ?_, hst.trans (htu.trans (huv.mono (by omega)))⟩
      rw [if_pos hx, hv]
      simp [hx]
      omega

theorem lengthFrom_spec {xs : List UInt8} {fuel start len : ℕ} {s : CommandLine}
    (hfuel : xs.length < fuel) (h : HoldsAt s (start + len) xs) :
    ∃ t, lengthFrom fuel start len s = .ok (len + xs.length) t ∧
      OnlyRead (start + len + xs.length) s t := by
  induction xs generalizing fuel len s with
  | nil =>
    obtain ⟨fuel, rfl⟩ := Nat.exists_eq_succ_of_ne_zero (Nat.ne_of_gt hfuel)
    obtain ⟨t, ht, hst⟩ := readChar_spec s (Nat.le_refl (start + len))
    refine ⟨t, ?_, hst⟩
    rw [lengthFrom, bind_of_ok ht, h.nil]
    rfl
  | cons x xs ih =>
    obtain ⟨fuel, rfl⟩ := Nat.exists_eq_succ_of_ne_zero (Nat.ne_of_gt (Nat.zero_lt_of_lt hfuel))
    rw [List.length_cons] at hfuel ⊢
    obtain ⟨t, ht, hst⟩ := readChar_spec s (Nat.le_add_right (start + len) (xs.length + 1))
    have htail : HoldsAt t (start + (len + 1)) xs := h.tail hst.line
    obtain ⟨u, hu, htu⟩ := ih (Nat.lt_of_succ_lt_succ hfuel) htail
    refine ⟨u, ?_, hst.trans (htu.mono (by omega))⟩
    rw [lengthFrom, bind_of_ok ht, h.head, if_pos (h.nonzero x (by simp)), hu]
    congr 1
    omega

/-- The row is what `strncpy` makes of the string. -/
theorem copyChars_spec {xs : List UInt8} {n i : ℕ} {s : CommandLine} (h : HoldsAt s i xs) :
    ∃ t, copyChars n i s = .ok (strncpy xs n) t ∧ OnlyRead (i + xs.length) s t := by
  induction n generalizing xs i s with
  | zero => exact ⟨s, by simp [copyChars, strncpy], rfl, fun _ hc => .inl hc⟩
  | succ n ih =>
    obtain ⟨t, ht, hst⟩ := readChar_spec s (Nat.le_add_right i xs.length)
    cases xs with
    | nil =>
      refine ⟨t, ?_, hst⟩
      rw [copyChars, bind_of_ok ht, h.nil]
      rfl
    | cons x xs =>
      obtain ⟨u, hu, htu⟩ := readChar_spec t (Nat.le_add_right i (x :: xs).length)
      obtain ⟨v, hv, huv⟩ := ih (h.tail (htu.line.trans hst.line))
      have hend : i + 1 + xs.length ≤ i + (x :: xs).length := by
        rw [List.length_cons]
        omega
      have hrow : strncpy (x :: xs) (n + 1) = x :: strncpy xs n := by simp [strncpy]
      refine ⟨v, ?_, hst.trans (htu.trans (huv.mono hend))⟩
      rw [copyChars, bind_of_ok ht, h.head, if_pos (h.nonzero x (by simp)), bind_of_ok hu,
        bind_of_ok hv, hrow, hst.line, h.head]
      rfl

theorem saveLine_spec {xs : List UInt8} {start : ℕ} {s : CommandLine}
    (hlen : xs.length < 2 ^ 32) (h : HoldsAt s start xs) :
    ∃ t, saveLine start s = .ok () t ∧ OnlyRead (start + xs.length) s t := by
  obtain ⟨t, ht, hst⟩ := @lengthFrom_spec xs _ start 0 s hlen h
  rw [saveLine, bind_of_ok ht]
  split
  · have ht' : HoldsAt t start xs := by
      rw [HoldsAt, hst.line]
      exact h
    obtain ⟨u, hu, htu⟩ := copyChars_spec (n := maxCmdLen) ht'
    refine ⟨{ u with saved := some (strncpy xs maxCmdLen) }, ?_, hst.trans ?_⟩
    · rw [bind_of_ok hu]
      rfl
    · exact ⟨htu.line, htu.accessed⟩
  · exact ⟨t, rfl, hst⟩

/-! ## The row that is stored -/

/-- The scans and the cut store nothing. -/
theorem chain_saved : Chain fun s t : CommandLine => t.saved = s.saved := chain_eq CommandLine.saved

theorem saved_readChar (i : ℕ) : Leads (fun s t : CommandLine => t.saved = s.saved) (readChar i) :=
  fun _ => rfl

theorem saved_skipSpaces (fuel i : ℕ) :
    Leads (fun s t : CommandLine => t.saved = s.saved) (skipSpaces fuel i) := by
  induction fuel generalizing i with
  | zero => exact chain_saved.throw _
  | succ fuel ih =>
    apply chain_saved.bind (saved_readChar i)
    intro c
    exact leads_ite (ih _) (chain_saved.pure _)

theorem saved_lengthFrom (fuel start len : ℕ) :
    Leads (fun s t : CommandLine => t.saved = s.saved) (lengthFrom fuel start len) := by
  induction fuel generalizing len with
  | zero => exact chain_saved.throw _
  | succ fuel ih =>
    apply chain_saved.bind (saved_readChar _)
    intro c
    exact leads_ite (ih _) (chain_saved.pure _)

theorem saved_findWordEnd (fuel i : ℕ) :
    Leads (fun s t : CommandLine => t.saved = s.saved) (findWordEnd fuel i) := by
  induction fuel generalizing i with
  | zero => exact chain_saved.throw _
  | succ fuel ih =>
    apply chain_saved.bind (saved_readChar i)
    intro c
    apply leads_ite _ (chain_saved.pure _)
    apply chain_saved.bind (saved_readChar i)
    intro c'
    exact leads_ite (ih _) (chain_saved.pure _)

theorem saved_parseWords (fuel argc : ℕ) (argv : ℕ → Option ℕ) (i : ℕ) :
    Leads (fun s t : CommandLine => t.saved = s.saved) (parseWords fuel argc argv i) := by
  induction fuel generalizing argc argv i with
  | zero => exact chain_saved.throw _
  | succ fuel ih =>
    apply chain_saved.bind (saved_readChar i)
    intro c
    apply leads_ite _ (chain_saved.pure _)
    apply chain_saved.bind (saved_findWordEnd _ _)
    intro wordEnd
    apply chain_saved.bind (saved_readChar _)
    intro c'
    apply leads_ite _ (chain_saved.pure _)
    apply chain_saved.bind (fun _ => rfl)
    intro _
    apply chain_saved.bind (saved_skipSpaces _ _)
    intro j
    exact ih _ _ _

theorem saveLine_saved {xs : List UInt8} {start : ℕ} {s t : CommandLine}
    (hlen : xs.length < 2 ^ 32) (h : HoldsAt s start xs) (ht : saveLine start s = .ok () t) :
    t.saved = if xs = [] then s.saved else some (strncpy xs maxCmdLen) := by
  obtain ⟨u, hu, hsu⟩ := @lengthFrom_spec xs _ start 0 s hlen h
  have hkept : u.saved = s.saved := (saved_lengthFrom _ _ _).ok hu
  rw [saveLine, bind_of_ok hu, Nat.zero_add] at ht
  by_cases hnil : xs = []
  · subst hnil
    rw [if_neg (by simp)] at ht
    cases ht
    rw [if_pos rfl, hkept]
  · have hu' : HoldsAt u start xs := by
      rw [HoldsAt, hsu.line]
      exact h
    obtain ⟨v, hv, -⟩ := copyChars_spec (n := maxCmdLen) hu'
    rw [if_pos (List.length_pos_iff.mpr hnil), bind_of_ok hv] at ht
    cases ht
    rw [if_neg hnil]

/-! ## The loop over the words -/

/-- A space behind a word becomes its terminator, and the rest of the line stays a string. -/
theorem writeChar_spec {w xs : List UInt8} {i : ℕ} {s : CommandLine}
    (h : HoldsAt s i (w ++ 32 :: xs)) :
    ∃ t, writeChar (i + w.length) 0 s = .ok () t ∧ HoldsAt t i w ∧
      HoldsAt t (i + w.length + 1) xs ∧ (∀ c < i, t.line c = s.line c) ∧
      ∀ c ∈ t.accessed, c ∈ s.accessed ∨ c ≤ i + (w ++ 32 :: xs).length := by
  have hother : ∀ c, c ≠ i + w.length → Function.update s.line (i + w.length) 0 c = s.line c := by
    intro c hc
    exact Function.update_of_ne hc _ _
  refine ⟨_, rfl, ?_, ?_, ?_, ?_⟩
  · constructor
    · intro k x hx
      have hk := (List.getElem?_eq_some_iff.mp hx).1
      apply (hother (i + k) (by omega)).trans
      apply h.begins k x
      rw [List.getElem?_append_left hk]
      exact hx
    · intro x hx
      exact h.nonzero x (by simp [hx])
    · simp
  · have hrest : HoldsAt s (i + w.length) (32 :: xs) := by
      apply h.append_right.congr
      intro k _
      rw [Nat.add_assoc]
    apply (hrest.tail rfl).congr
    intro k _
    exact hother _ (by omega)
  · intro c hc
    exact hother c (by omega)
  · intro c hc
    obtain rfl | hc := List.mem_cons.mp hc
    · exact .inr (by simp)
    · exact .inl hc

/-- What the loop makes of the string `xs` at cell `i`, from `argc` words and the pointers `argv`
to them. -/
structure Tokenized (argc : ℕ) (argv : ℕ → Option ℕ) (i : ℕ) (xs : List UInt8) (s : CommandLine)
    (argc' : ℕ) (argv' : ℕ → Option ℕ) (t : CommandLine) : Prop where
  argc_eq : argc' = min maxArgs (argc + (words xs).length)
  argv_word : ∀ k w, (words xs)[k]? = some w → argc + k < argc' →
    ∃ p, argv' (argc + k) = some p ∧ HoldsAt t p w
  argv_other : ∀ j, j < argc ∨ argc' ≤ j → argv' j = argv j
  line_below : ∀ c < i, t.line c = s.line c
  accessed : ∀ c ∈ t.accessed, c ∈ s.accessed ∨ c ≤ i + xs.length

/-- The loop stops before the first word. -/
theorem tokenized_stop {argc : ℕ} {argv : ℕ → Option ℕ} {i : ℕ} {xs : List UInt8}
    {s t : CommandLine} (hargc : argc ≤ maxArgs) (hstop : words xs = [] ∨ argc = maxArgs)
    (hst : OnlyRead (i + xs.length) s t) : Tokenized argc argv i xs s argc argv t where
  argc_eq := by
    obtain h | h := hstop
    · simp [h, hargc]
    · omega
  argv_word k w _ hk := by omega
  argv_other _ _ := rfl
  line_below c _ := by rw [hst.line]
  accessed := hst.accessed

/-- The word at the end of the line keeps the line's terminator. -/
theorem tokenized_last {argc : ℕ} {argv : ℕ → Option ℕ} {i : ℕ} {w : List UInt8}
    {s t : CommandLine} (hargc : argc < maxArgs) (hw : words w = [w]) (h : HoldsAt s i w)
    (hst : OnlyRead (i + w.length) s t) :
    Tokenized argc argv i w s (argc + 1) (Function.update argv argc (some i)) t where
  argc_eq := by
    rw [hw, List.length_singleton]
    omega
  argv_word k w' hk _ := by
    rw [hw] at hk
    obtain ⟨hk0, hk⟩ := List.getElem?_eq_some_iff.mp hk
    obtain rfl : k = 0 := by simpa using hk0
    refine ⟨i, by simp, ?_⟩
    rw [← hk, HoldsAt, hst.line]
    exact h
  argv_other j hj := Function.update_of_ne (by omega) _ _
  line_below c _ := by rw [hst.line]
  accessed := hst.accessed

/-- A word before a space, and what the loop makes of the rest: `j` is where the next word
starts. -/
theorem Tokenized.cons {argc argc' i j : ℕ} {argv argv' : ℕ → Option ℕ} {w xs ys : List UInt8}
    {s t u : CommandLine} (hargc : argc < maxArgs) (hwords : words ys = w :: words xs)
    (hnext : i + w.length < j) (hend : j + xs.length = i + ys.length) (h : HoldsAt t i w)
    (hline : ∀ c < i, t.line c = s.line c)
    (hacc : ∀ c ∈ t.accessed, c ∈ s.accessed ∨ c ≤ i + ys.length)
    (hrest : Tokenized (argc + 1) (Function.update argv argc (some i)) j xs t argc' argv' u) :
    Tokenized argc argv i ys s argc' argv' u where
  argc_eq := by
    rw [hrest.argc_eq, hwords, List.length_cons]
    omega
  argv_word k w' hk hlt := by
    rw [hwords] at hk
    cases k with
    | zero =>
      obtain rfl : w = w' := by simpa using hk
      refine ⟨i, ?_, h.congr ?_⟩
      · rw [Nat.add_zero, hrest.argv_other argc (.inl (by omega))]
        simp
      · intro k hk
        exact hrest.line_below _ (by omega)
    | succ k =>
      rw [← Nat.add_assoc, Nat.add_right_comm] at hlt ⊢
      exact hrest.argv_word k w' (by simpa using hk) hlt
  argv_other k hk := by
    have hle : argc + 1 ≤ argc' := by
      rw [hrest.argc_eq]
      omega
    rw [hrest.argv_other k (by omega)]
    exact Function.update_of_ne (by omega) _ _
  line_below c hc := by rw [hrest.line_below c (by omega), hline c hc]
  accessed c hc := by
    obtain hc | hc := hrest.accessed c hc
    · exact hacc c hc
    · exact .inr (by omega)

/-- A line that does not begin with a space is one word, or a word, a space and the rest. -/
theorem word_cases {xs : List UInt8} (hne : xs ≠ []) (hhead : xs.head? ≠ some 32) :
    words xs = [xs] ∧ xs.takeWhile (· ≠ 32) = xs ∨
      ∃ w ys, xs = w ++ 32 :: ys ∧ xs.takeWhile (· ≠ 32) = w ∧ words xs = w :: words ys := by
  have hsplit := List.takeWhile_append_dropWhile (p := (· ≠ 32)) (l := xs)
  have h32 : (32 : UInt8) ∉ xs.takeWhile (· ≠ 32) := by
    intro h
    simpa using List.mem_takeWhile_imp h
  have hw : xs.takeWhile (· ≠ 32) ≠ [] := by
    cases xs with
    | nil => exact absurd rfl hne
    | cons x xs =>
      have hx : x ≠ 32 := by simpa using hhead
      simp [hx]
  cases hdrop : xs.dropWhile (· ≠ 32) with
  | nil =>
    rw [hdrop, List.append_nil] at hsplit
    rw [hsplit] at h32 hw
    exact .inl ⟨words_word hw h32, hsplit⟩
  | cons x ys =>
    have hx : x = 32 := by
      by_contra hx
      have := List.head?_dropWhile_not (fun c : UInt8 => decide (c ≠ 32)) xs
      rw [hdrop] at this
      simp [hx] at this
    rw [hdrop, hx] at hsplit
    refine .inr ⟨_, ys, hsplit.symm, rfl, ?_⟩
    conv_lhs => rw [← hsplit]
    exact words_append hw h32 ys

theorem parseWords_spec {xs : List UInt8} {fuel argc i : ℕ} {argv : ℕ → Option ℕ}
    {s : CommandLine} (hlen : xs.length < 2 ^ 32) (hfuel : xs.length < fuel)
    (hargc : argc ≤ maxArgs) (hhead : xs.head? ≠ some 32) (h : HoldsAt s i xs) :
    ∃ argc' argv' t, parseWords fuel argc argv i s = .ok (argc', argv') t ∧
      Tokenized argc argv i xs s argc' argv' t := by
  induction fuel generalizing xs argc argv i s with
  | zero => omega
  | succ fuel ih =>
    obtain ⟨t, ht, hst⟩ := readChar_spec s (Nat.le_add_right i xs.length)
    by_cases hne : xs = []
    · subst hne
      refine ⟨argc, argv, t, ?_, tokenized_stop hargc (.inl words_nil) hst⟩
      rw [parseWords, bind_of_ok ht, h.nil]
      simp
    by_cases hfull : argc = maxArgs
    · refine ⟨argc, argv, t, ?_, tokenized_stop hargc (.inr hfull) hst⟩
      rw [parseWords, bind_of_ok ht, if_neg (by omega)]
      rfl
    have hi : s.line i ≠ 0 := by
      have := h.ne_zero (List.length_pos_iff.mpr hne)
      rwa [Nat.add_zero] at this
    have ht' : HoldsAt t i xs := by
      rw [HoldsAt, hst.line]
      exact h
    obtain ⟨u, hu, htu⟩ := findWordEnd_spec hlen ht'
    have hwlen := (xs.takeWhile_sublist fun c : UInt8 => decide (c ≠ 32)).length_le
    obtain ⟨v, hv, huv⟩ := readChar_spec u (e := i + xs.length)
      (i := i + (xs.takeWhile (· ≠ 32)).length) (by omega)
    have hsu := hst.trans htu
    have hsv := hsu.trans huv
    rw [parseWords, bind_of_ok ht, if_pos ⟨hi, by omega⟩, bind_of_ok hu, bind_of_ok hv, hsu.line]
    obtain ⟨hword, htake⟩ | ⟨w, ys, rfl, htake, hword⟩ := word_cases hne hhead
    · -- the word ends at the terminator
      refine ⟨argc + 1, _, v, ?_, tokenized_last (by omega) hword h hsv⟩
      rw [htake, h.terminated]
      rfl
    · -- the word ends at a space
      have hspace : s.line (i + w.length) = 32 := h.begins w.length 32 (by simp)
      have hv' : HoldsAt v i (w ++ 32 :: ys) := by
        rw [HoldsAt, hsv.line]
        exact h
      obtain ⟨x, hx, hword', hys, hbelow, hacc⟩ := writeChar_spec hv'
      rw [List.length_append, List.length_cons] at hlen hfuel
      have hys32 : ys.length < 2 ^ 32 := by omega
      obtain ⟨y, hy, hxy⟩ := skipSpaces_spec hys32 hys
      have hnext : HoldsAt y (i + w.length + 1 + (ys.takeWhile (· = 32)).length)
          (ys.dropWhile (· = 32)) := by
        have hsplit := List.takeWhile_append_dropWhile (p := (· = 32)) (l := ys)
        rw [← hsplit] at hys
        apply hys.append_right.congr
        intro k _
        rw [hxy.line, Nat.add_assoc (i + w.length + 1)]
      have hdrop : (ys.takeWhile (· = 32)).length + (ys.dropWhile (· = 32)).length = ys.length := by
        rw [← List.length_append, List.takeWhile_append_dropWhile]
      obtain ⟨argc', argv', z, hz, htok⟩ := @ih _ (argc + 1) _
        (Function.update argv argc (some i)) y (by omega) (by omega) (by omega)
        (head_dropWhile_space ys) hnext
      refine ⟨argc', argv', z, ?_, ?_⟩
      · rw [htake, hspace, if_pos rfl, bind_of_ok hx, bind_of_ok hy, hz]
      · refine Tokenized.cons (w := w) (by omega) ?_ ?_ ?_ ?_ ?_ ?_ htok
        · rw [hword, words_dropWhile]
        · omega
        · rw [List.length_append, List.length_cons]
          omega
        · rw [HoldsAt, hxy.line]
          exact hword'
        · intro c hc
          rw [hxy.line, hbelow c hc, hsv.line]
        · intro c hc
          obtain hc | hc := hxy.accessed c hc
          · obtain hc | hc := hacc c hc
            · exact hsv.accessed c hc
            · exact .inr hc
          · refine .inr ?_
            rw [List.length_append, List.length_cons]
            omega

/-! ## The whole parse -/

/-- Up to the loop over the words the parse only reads. -/
theorem parseCommand_eq {line : ℕ → UInt8} {xs : List UInt8} (hlen : xs.length < 2 ^ 32)
    (hline : Holds line xs) :
    ∃ start u, parseCommand ⟨line, [], none⟩ = parseWords (2 ^ 32) 0 (fun _ => none) start u ∧
      OnlyRead xs.length ⟨line, [], none⟩ u ∧ HoldsAt u start (xs.dropWhile (· = 32)) ∧
      start + (xs.dropWhile (· = 32)).length = xs.length := by
  have hstart : HoldsAt ⟨line, [], none⟩ 0 xs := by
    apply hline.congr
    intro k _
    simp only
    rw [Nat.zero_add]
  obtain ⟨t, ht, hst⟩ := skipSpaces_spec hlen hstart
  have hsplit := List.takeWhile_append_dropWhile (p := (· = 32)) (l := xs)
  have hlength := congrArg List.length hsplit
  rw [List.length_append] at hlength
  have htrim : HoldsAt t (0 + (xs.takeWhile (· = 32)).length) (xs.dropWhile (· = 32)) := by
    rw [← hsplit] at hstart
    apply hstart.append_right.congr
    intro k _
    rw [hst.line, Nat.add_assoc]
  obtain ⟨u, hu, htu⟩ := saveLine_spec (by omega) htrim
  refine ⟨0 + (xs.takeWhile (· = 32)).length, u, ?_, ?_, ?_, by omega⟩
  · rw [parseCommand, bind_of_ok ht, bind_of_ok hu]
  · exact (hst.trans (htu.mono (by omega))).mono (by omega)
  · rw [HoldsAt, htu.line]
    exact htrim

/-- What goes to the history is the line without its leading spaces, cut and padded to a row. -/
theorem parseCommand_saved {line : ℕ → UInt8} {xs : List UInt8} (hlen : xs.length < 2 ^ 32)
    (hline : Holds line xs) {r : ℕ × (ℕ → Option ℕ)} {t : CommandLine}
    (hrun : parseCommand ⟨line, [], none⟩ = .ok r t) :
    t.saved = if xs.dropWhile (· = 32) = [] then none
      else some (strncpy (xs.dropWhile (· = 32)) maxCmdLen) := by
  have hle : (xs.dropWhile (· = 32)).length ≤ xs.length := (List.dropWhile_suffix _).length_le
  have hstart : HoldsAt ⟨line, [], none⟩ 0 xs := by
    apply hline.congr
    intro k _
    simp only
    rw [Nat.zero_add]
  obtain ⟨start, u, hskip, htail⟩ := bind_eq_ok.mp hrun
  obtain ⟨⟨⟩, v, hsave, hwords⟩ := bind_eq_ok.mp htail
  obtain ⟨u', hu', hread⟩ := skipSpaces_spec hlen hstart
  obtain ⟨rfl, rfl⟩ : 0 + (xs.takeWhile (· = 32)).length = start ∧ u' = u := by
    have hsame := hu'.symm.trans hskip
    cases hsame
    exact ⟨rfl, rfl⟩
  have hsplit := List.takeWhile_append_dropWhile (p := (· = 32)) (l := xs)
  have htrim : HoldsAt u' (0 + (xs.takeWhile (· = 32)).length) (xs.dropWhile (· = 32)) := by
    rw [← hsplit] at hstart
    apply hstart.append_right.congr
    intro k _
    rw [hread.line, Nat.add_assoc]
  have hnone : u'.saved = none := (saved_skipSpaces _ _).ok hskip
  rw [(saved_parseWords _ _ _ _).ok hwords, saveLine_saved (by omega) htrim hsave, hnone]

/-- A line without words stays as it is. -/
theorem parseCommand_blank {line : ℕ → UInt8} {xs : List UInt8} (hlen : xs.length < 2 ^ 32)
    (hline : Holds line xs) (hblank : xs.dropWhile (· = 32) = []) :
    ∃ argv t, parseCommand ⟨line, [], none⟩ = .ok (0, argv) t ∧ t.line = line := by
  obtain ⟨start, u, hparse, hread, hholds, -⟩ := parseCommand_eq hlen hline
  rw [hblank] at hholds
  obtain ⟨t, ht, hut⟩ := readChar_spec u (Nat.le_refl start)
  refine ⟨fun _ => none, t, ?_, hut.line.trans hread.line⟩
  have hfuel : (2 : ℕ) ^ 32 = 4294967295 + 1 := by omega
  rw [hparse, hfuel, parseWords, bind_of_ok ht, hholds.nil]
  simp

/-- Any other line has a first word. -/
theorem parseCommand_first {line : ℕ → UInt8} {xs : List UInt8} (hlen : xs.length < 2 ^ 32)
    (hline : Holds line xs) (hword : xs.dropWhile (· = 32) ≠ []) :
    ∃ argc argv t, parseCommand ⟨line, [], none⟩ = .ok (argc, argv) t ∧ argc ≠ 0 := by
  obtain ⟨start, u, hparse, -, hholds, hend⟩ := parseCommand_eq hlen hline
  obtain ⟨argc, argv, t, hrun, htok⟩ := @parseWords_spec _ (2 ^ 32) 0 _ (fun _ => none) u
    (by omega) (by omega) (Nat.zero_le _) (head_dropWhile_space xs) hholds
  refine ⟨argc, argv, t, by rw [hparse, hrun], ?_⟩
  have hcount := htok.argc_eq
  have hmax : maxArgs = 16 := rfl
  have hpos : 0 < (words (xs.dropWhile (· = 32))).length := by
    obtain ⟨h, -⟩ | ⟨w, ys, -, -, h⟩ := word_cases hword (head_dropWhile_space xs)
    · rw [h]
      simp
    · rw [h]
      simp
  omega

/-- Every line is cut into its words: `argc` counts them, up to 16 words, each pointer below
`argc` points to its word and the others are `NULL`. The parse stays within the line and its
terminator. -/
theorem process_command_words {line : ℕ → UInt8} {xs : List UInt8} (hlen : xs.length ≤ 255)
    (hline : Holds line xs) :
    ∃ argc argv t, parseCommand ⟨line, [], none⟩ = .ok (argc, argv) t ∧
      argc = min 16 (words xs).length ∧
      (∀ i < argc, ∃ p w, argv i = some p ∧ (words xs)[i]? = some w ∧
        Holds (fun k => t.line (p + k)) w) ∧
      (∀ i ≥ argc, argv i = none) ∧
      ∀ c ∈ t.accessed, c ≤ xs.length := by
  obtain ⟨start, u, hparse, hread, hargs, hend⟩ := parseCommand_eq (by omega) hline
  obtain ⟨argc, argv, v, hv, htok⟩ := @parseWords_spec _ (2 ^ 32) 0 _ (fun _ => none) u
    (by omega) (by omega) (Nat.zero_le _) (head_dropWhile_space xs) hargs
  refine ⟨argc, argv, v, ?_, ?_, ?_, ?_, ?_⟩
  · rw [hparse, hv]
  · rw [htok.argc_eq, words_dropWhile, Nat.zero_add]
    rfl
  · intro i hi
    have hcount := htok.argc_eq
    rw [words_dropWhile, Nat.zero_add] at hcount
    have hw : (words xs)[i]? = some (words xs)[i] := List.getElem?_eq_getElem (by omega)
    obtain ⟨p, hp, hholds⟩ := htok.argv_word i (words xs)[i] (by rw [words_dropWhile, hw])
      (by omega)
    rw [Nat.zero_add] at hp
    exact ⟨p, _, hp, hw, hholds⟩
  · intro i hi
    exact htok.argv_other i (.inr hi)
  · intro c hc
    obtain hc | hc := htok.accessed c hc
    · obtain hc | hc := hread.accessed c hc
      · simp at hc
      · exact hc
    · omega

/-- The line `run  a`. -/
theorem process_command_words_run :
    ∃ argc argv t p q, parseCommand ⟨fun i => [114, 117, 110, 32, 32, 97].getD i 0, [], none⟩ =
        .ok (argc, argv) t ∧
      argc = 2 ∧ argv 0 = some p ∧ argv 1 = some q ∧ argv 2 = none ∧
      Holds (fun k => t.line (p + k)) [114, 117, 110] ∧ Holds (fun k => t.line (q + k)) [97] ∧
      ∀ c ∈ t.accessed, c ≤ 6 := by
  have hline : Holds (fun i => [114, 117, 110, 32, 32, 97].getD i 0)
      ([114, 117, 110, 32, 32, 97] : List UInt8) := by
    refine ⟨?_, by simp, rfl⟩
    intro i x hx
    simp [List.getD_eq_getElem?_getD, hx]
  have hwords : words [114, 117, 110, 32, 32, 97] = [[114, 117, 110], [97]] := by
    have hrun := words_append (w := [114, 117, 110]) (by simp) (by decide) [32, 97]
    have ha : words [97] = [[97]] := words_word (by simp) (by decide)
    rw [words_space, ha] at hrun
    exact hrun
  obtain ⟨argc, argv, t, hparse, hargc, hargv, hnull, hacc⟩ :=
    process_command_words (by decide) hline
  rw [hwords] at hargc hargv
  obtain rfl : argc = 2 := hargc
  obtain ⟨p, w, hp, hw, hpw⟩ := hargv 0 (by decide)
  obtain ⟨q, w', hq, hw', hqw⟩ := hargv 1 (by decide)
  obtain rfl := Option.some.inj hw
  obtain rfl := Option.some.inj hw'
  exact ⟨2, argv, t, p, q, hparse, rfl, hp, hq, hnull 2 (by decide), hpw, hqw, hacc⟩

end MyOS
