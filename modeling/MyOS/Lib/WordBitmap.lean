import Mathlib.Data.List.Basic
import Mathlib.Data.Finset.Card
import Mathlib.Tactic

/-! Bitmaps stored as words of a fixed width. A bit is addressed either by its index
or by a word number and a position inside the word; the lemmas move between the two. -/

namespace WordBitmap

variable {w : ℕ}

/-- The bit with index `i`, found in word `i / w` at position `i % w`. -/
def bit (bm : ℕ → BitVec w) (i : ℕ) : Bool := (bm (i / w)).getLsbD (i % w)

theorem bit_mul_add (hw : 0 < w) (bm : ℕ → BitVec w) (d b : ℕ) (hb : b < w) :
    bit bm (d * w + b) = (bm d).getLsbD b := by
  have hd : (d * w + b) / w = d := by
    rw [Nat.add_comm, Nat.add_mul_div_right _ _ hw, Nat.div_eq_of_lt hb, Nat.zero_add]
  have hm : (d * w + b) % w = b := by
    rw [Nat.add_comm, Nat.add_mul_mod_self_right, Nat.mod_eq_of_lt hb]
  rw [bit, hd, hm]

private theorem getLsbD_one_shiftLeft (i j : ℕ) (hi : i < w) :
    (1#w <<< i).getLsbD j = decide (j = i) := by
  rw [BitVec.getLsbD_shiftLeft, BitVec.getLsbD_one]
  by_cases h : j = i
  · subst j
    simp [hi, Nat.zero_lt_of_lt hi]
  · simp only [h, decide_false]
    simp only [Bool.and_eq_false_iff, Bool.not_eq_false', decide_eq_true_eq, decide_eq_false_iff_not]
    omega

/-- OR-ing one bit into its word sets exactly that bit. -/
theorem bit_update_or (hw : 0 < w) (bm : ℕ → BitVec w) (i j : ℕ) :
    bit (Function.update bm (i / w) (bm (i / w) ||| 1#w <<< (i % w))) j =
      (decide (j = i) || bit bm j) := by
  have hi : i % w < w := Nat.mod_lt _ hw
  unfold bit
  by_cases hd : j / w = i / w
  · rw [hd, Function.update_self, BitVec.getLsbD_or, getLsbD_one_shiftLeft _ _ hi, Bool.or_comm]
    have hij : j % w = i % w ↔ j = i := by
      constructor
      · intro hm
        rw [← Nat.div_add_mod j w, ← Nat.div_add_mod i w, hd, hm]
      · rintro rfl
        rfl
    simp only [hij]
  · have hne : j ≠ i := by
      rintro rfl
      exact hd rfl
    rw [Function.update_of_ne hd]
    simp [hne]

/-- AND-ing the complement of one bit into its word clears exactly that bit. -/
theorem bit_update_and_not (hw : 0 < w) (bm : ℕ → BitVec w) (i j : ℕ) :
    bit (Function.update bm (i / w) (bm (i / w) &&& ~~~(1#w <<< (i % w)))) j =
      (!decide (j = i) && bit bm j) := by
  have hi : i % w < w := Nat.mod_lt _ hw
  have hj : j % w < w := Nat.mod_lt _ hw
  unfold bit
  by_cases hd : j / w = i / w
  · rw [hd, Function.update_self, BitVec.getLsbD_and, BitVec.getLsbD_not,
      getLsbD_one_shiftLeft _ _ hi, Bool.and_comm]
    have hij : j % w = i % w ↔ j = i := by
      constructor
      · intro hm
        rw [← Nat.div_add_mod j w, ← Nat.div_add_mod i w, hd, hm]
      · rintro rfl
        rfl
    simp only [hij, hj, decide_true, Bool.true_and]
  · have hne : j ≠ i := by
      rintro rfl
      exact hd rfl
    rw [Function.update_of_ne hd]
    simp [hne]

/-- Masking one bit gives zero exactly when that bit is clear. -/
theorem and_one_shiftLeft_eq_zero_iff (x : BitVec w) (i : ℕ) (hi : i < w) :
    x &&& 1#w <<< i = 0#w ↔ x.getLsbD i = false := by
  constructor
  · intro h
    have hbit := congrArg (fun y => y.getLsbD i) h
    simpa [BitVec.getLsbD_and, getLsbD_one_shiftLeft i i hi] using hbit
  · intro h
    apply BitVec.eq_of_getLsbD_eq
    intro j _
    rw [BitVec.getLsbD_and, getLsbD_one_shiftLeft _ _ hi, BitVec.getLsbD_zero]
    by_cases hj : j = i
    · simp [hj, h]
    · simp [hj]

/-- A word of ones has no clear bit. -/
theorem eq_allOnes_iff (x : BitVec w) :
    x = BitVec.allOnes w ↔ ∀ i < w, x.getLsbD i = true := by
  constructor
  · rintro rfl i hi
    simpa using hi
  · intro h
    apply BitVec.eq_of_getLsbD_eq
    intro i hi
    simp [h i hi, hi]

/-! ## The first clear bit -/

/-- Position of the first clear bit of a word. -/
def firstClearBit (x : BitVec w) : Option ℕ :=
  (List.range w).find? fun b => x &&& 1#w <<< b = 0#w

/-- Index of the first clear bit of the first `n` words; full words are skipped whole. -/
def firstClear (bm : ℕ → BitVec w) (n : ℕ) : Option ℕ :=
  (List.range n).findSome? fun d =>
    if bm d ≠ BitVec.allOnes w then (firstClearBit (bm d)).map (d * w + ·) else none

theorem firstClearBit_eq_some {x : BitVec w} {b : ℕ} (h : firstClearBit x = some b) :
    b < w ∧ x.getLsbD b = false ∧ ∀ c < b, x.getLsbD c = true := by
  obtain ⟨hb, i, hi, hget, hbefore⟩ := List.find?_eq_some_iff_getElem.mp h
  simp only [List.length_range] at hi
  have hib : i = b := by simpa using hget
  subst hib
  have hclear : x.getLsbD i = false := by
    simpa [and_one_shiftLeft_eq_zero_iff x i hi] using hb
  refine ⟨hi, hclear, ?_⟩
  intro c hc
  have hcw : c < w := hc.trans hi
  have hset := hbefore c hc
  simpa [and_one_shiftLeft_eq_zero_iff x c hcw] using hset

theorem firstClearBit_eq_none {x : BitVec w} (h : firstClearBit x = none) :
    x = BitVec.allOnes w := by
  rw [eq_allOnes_iff]
  intro i hi
  have hset := List.find?_eq_none.mp h i (List.mem_range.mpr hi)
  simpa [and_one_shiftLeft_eq_zero_iff x i hi] using hset

/-- Every bit of the words searched is set exactly when the search fails. -/
theorem firstClear_eq_none_iff (hw : 0 < w) (bm : ℕ → BitVec w) (n : ℕ) :
    firstClear bm n = none ↔ ∀ i < n * w, bit bm i = true := by
  unfold firstClear
  rw [List.findSome?_eq_none_iff]
  constructor
  · intro h i hi
    have hd : i / w < n := Nat.div_lt_of_lt_mul (by rwa [Nat.mul_comm])
    have hword := h (i / w) (List.mem_range.mpr hd)
    have hones : bm (i / w) = BitVec.allOnes w := by
      by_contra hne
      rw [if_pos hne, Option.map_eq_none_iff] at hword
      exact hne (firstClearBit_eq_none hword)
    exact (eq_allOnes_iff _).mp hones _ (Nat.mod_lt _ hw)
  · intro h d hd
    have hones : bm d = BitVec.allOnes w := by
      rw [eq_allOnes_iff]
      intro b hb
      rw [← bit_mul_add hw bm d b hb]
      apply h
      have hdn := List.mem_range.mp hd
      calc
        d * w + b < d * w + w := by omega
        _ = (d + 1) * w := by rw [Nat.add_mul, Nat.one_mul]
        _ ≤ n * w := Nat.mul_le_mul_right _ hdn
    simp [hones]

/-- A successful search returns the lowest clear index. -/
theorem firstClear_eq_some (hw : 0 < w) {bm : ℕ → BitVec w} {n i : ℕ}
    (h : firstClear bm n = some i) :
    i < n * w ∧ bit bm i = false ∧ ∀ j < i, bit bm j = true := by
  unfold firstClear at h
  obtain ⟨before, d, after, hsplit, hd, hbefore⟩ := List.findSome?_eq_some_iff.mp h
  by_cases hne : bm d ≠ BitVec.allOnes w
  swap
  · simp [hne] at hd
  rw [if_pos hne, Option.map_eq_some_iff] at hd
  obtain ⟨b, hb, rfl⟩ := hd
  obtain ⟨hbw, hclear, hlow⟩ := firstClearBit_eq_some hb
  have hlen := congrArg List.length hsplit
  have hget : (List.range n)[before.length]? = some d := by simp [hsplit]
  have hdeq : before.length = d := by
    have hlt : before.length < n := by simp at hlen; omega
    rw [List.getElem?_range hlt] at hget
    exact Option.some.inj hget
  have hdn : d < n := by simp at hlen; omega
  refine ⟨?_, ?_, ?_⟩
  · calc
      d * w + b < d * w + w := by omega
      _ = (d + 1) * w := by rw [Nat.add_mul, Nat.one_mul]
      _ ≤ n * w := Nat.mul_le_mul_right _ hdn
  · rw [bit_mul_add hw bm d b hbw, hclear]
  · intro j hj
    by_cases hjd : j / w = d
    · have hjm : j % w < b := by
        have := Nat.div_add_mod j w
        rw [hjd, Nat.mul_comm] at this
        omega
      rw [bit, hjd]
      exact hlow _ hjm
    · have hjlt : j / w < d := by
        have hle : j / w ≤ d := by
          apply Nat.le_of_lt_succ
          apply Nat.div_lt_of_lt_mul
          have hbound : d * w + b < (d + 1) * w := by
            rw [Nat.add_mul, Nat.one_mul]
            omega
          rw [Nat.mul_comm]
          exact hj.trans hbound
        omega
      have hmem : j / w ∈ before := by
        have hgetj : (List.range n)[j / w]? = some (j / w) :=
          List.getElem?_range (by omega)
        rw [hsplit, List.getElem?_append_left (by omega)] at hgetj
        exact List.mem_of_getElem? hgetj
      have hones : bm (j / w) = BitVec.allOnes w := by
        by_contra hne'
        have hnone := hbefore _ hmem
        rw [if_pos hne', Option.map_eq_none_iff] at hnone
        exact hne' (firstClearBit_eq_none hnone)
      exact (eq_allOnes_iff _).mp hones _ (Nat.mod_lt _ hw)

/-! ## Counting clear bits -/

/-- Number of clear bits of a word. -/
def clearBits (x : BitVec w) : ℕ := (List.range w).countP fun b => x &&& 1#w <<< b = 0#w

/-- Number of clear bits of the first `n` words; full words are skipped whole. -/
def clearCount (bm : ℕ → BitVec w) (n : ℕ) : ℕ :=
  ((List.range n).map fun d => if bm d ≠ BitVec.allOnes w then clearBits (bm d) else 0).sum

theorem clearCount_succ (bm : ℕ → BitVec w) (n : ℕ) :
    clearCount bm (n + 1) =
      clearCount bm n + if bm n ≠ BitVec.allOnes w then clearBits (bm n) else 0 := by
  simp [clearCount, List.range_succ]

/-- Skipping full words does not change the count: it is the number of clear indices. -/
theorem clearCount_eq (hw : 0 < w) (bm : ℕ → BitVec w) (n : ℕ) :
    clearCount bm n = (List.range (n * w)).countP fun i => !bit bm i := by
  induction n with
  | zero => simp [clearCount]
  | succ n ih =>
      have hword : (if bm n ≠ BitVec.allOnes w then clearBits (bm n) else 0) =
          (List.range w).countP fun b => !bit bm (n * w + b) := by
        have hcount : ((List.range w).countP fun b => !bit bm (n * w + b)) = clearBits (bm n) := by
          unfold clearBits
          apply List.countP_congr
          intro b hb
          rw [bit_mul_add hw bm n b (List.mem_range.mp hb)]
          simp [and_one_shiftLeft_eq_zero_iff _ b (List.mem_range.mp hb)]
        rw [hcount]
        split
        · rfl
        · rename_i hones
          have hall := (eq_allOnes_iff _).mp (not_not.mp hones)
          symm
          unfold clearBits
          rw [List.countP_eq_zero]
          intro b hb
          simp [and_one_shiftLeft_eq_zero_iff _ b (List.mem_range.mp hb),
            hall b (List.mem_range.mp hb)]
      rw [clearCount_succ, ih, hword, Nat.add_mul, Nat.one_mul, List.range_add, List.countP_append,
        List.countP_map]
      rfl

end WordBitmap
