import MyOS.Lib.X86Paging

/-! Page tables in memory by role: a plan says in which frame the table of each role lies and
what its entries are. Writes to other frames keep the plan; a write to an entry changes the
plan at that entry. -/

namespace PageTables

open ByteMemory X86Paging

variable {R : Type}

/-- Where tables lie and what they hold. An entry that the plan leaves open may hold
anything. -/
structure Plan (R : Type) where
  frame : R → Option ℕ
  value : R → ℕ → Option ℕ

/-- The memory holds the tables of the plan. -/
def Holds (m : ByteMemory) (p : Plan R) : Prop :=
  ∀ r f i v, p.frame r = some f → i < 1024 → p.value r i = some v → entry m f i = v

/-- Tables lie in whole frames and no two share one. -/
structure Separate (p : Plan R) : Prop where
  aligned : ∀ r f, p.frame r = some f → f % 4096 = 0
  apart : ∀ r r' f, p.frame r = some f → p.frame r' = some f → r = r'

variable {m m' : ByteMemory} {p p' : Plan R}

/-- Only the bytes of the tables matter. -/
theorem Holds.of_bytes (h : Holds m p)
    (hbytes : ∀ r f, p.frame r = some f → ∀ o < 4096, m' (f + o) = m (f + o)) : Holds m' p := by
  intro r f i v hf hi hv
  rw [entry_congr hi (hbytes r f hf)]
  exact h r f i v hf hi hv

/-- A plan that asks for no more than another holds with it. -/
theorem Holds.of_plan (h : Holds m p) (hframe : ∀ r f, p'.frame r = some f → p.frame r = some f)
    (hvalue : ∀ r f i v, p'.frame r = some f → i < 1024 → p'.value r i = some v →
      p.value r i = some v) : Holds m p' := by
  intro r f i v hf hi hv
  exact h r f i v (hframe r f hf) hi (hvalue r f i v hf hi hv)

/-- Writing an entry gives the plan with that entry changed. -/
theorem Holds.write (h : Holds m p) (hsep : Separate p) {r : R} {f i v : ℕ}
    (hf : p.frame r = some f) (hi : i < 1024) (hframe : ∀ r', p'.frame r' = p.frame r')
    (hvalue : ∀ r' j w, p'.value r' j = some w →
      (r' = r ∧ j = i ∧ w = v % 2 ^ 32) ∨ ((r' ≠ r ∨ j ≠ i) ∧ p.value r' j = some w)) :
    Holds (m.set32 (f + 4 * i) v) p' := by
  intro r' f' j w hf' hj hw
  rw [hframe] at hf'
  rcases hvalue r' j w hw with ⟨rfl, rfl, rfl⟩ | ⟨hne, hold⟩
  · obtain rfl : f = f' := Option.some.inj (hf.symm.trans hf')
    exact entry_set32_same m f j v
  · have hkept : entry (m.set32 (f + 4 * i) v) f' j = entry m f' j := by
      by_cases hff : f' = f
      · rw [hff] at hf' ⊢
        have hr : r' = r := hsep.apart r' r f hf' hf
        rcases hne with hne | hne
        · exact absurd hr hne
        · exact entry_set32_index m f v hne
      · exact entry_set32_frame m v (hsep.aligned r f hf) (hsep.aligned r' f' hf') hi hj hff
    rw [hkept]
    exact h r' f' j w hf' hj hold

/-- The plan with one entry changed. -/
def Plan.set [DecidableEq R] (p : Plan R) (r : R) (i v : ℕ) : Plan R where
  frame := p.frame
  value := fun r' j => if r' = r ∧ j = i then some v else p.value r' j

theorem Plan.set_value_same [DecidableEq R] (p : Plan R) (r : R) (i v : ℕ) :
    (p.set r i v).value r i = some v := by
  simp [Plan.set]

theorem Plan.set_value_of_ne [DecidableEq R] (p : Plan R) {r r' : R} {i j : ℕ} (v : ℕ)
    (h : r' ≠ r ∨ j ≠ i) : (p.set r i v).value r' j = p.value r' j := by
  refine if_neg ?_
  intro hrj
  rcases h with h | h
  · exact h hrj.1
  · exact h hrj.2

theorem Holds.set [DecidableEq R] (h : Holds m p) (hsep : Separate p) {r : R} {f i v : ℕ}
    (hf : p.frame r = some f) (hi : i < 1024) (hv : v < 2 ^ 32) :
    Holds (m.set32 (f + 4 * i) v) (p.set r i v) := by
  refine h.write hsep hf hi (fun _ => rfl) ?_
  intro r' j w hw
  by_cases hrj : r' ≠ r ∨ j ≠ i
  · rw [p.set_value_of_ne v hrj] at hw
    exact .inr ⟨hrj, hw⟩
  · obtain ⟨rfl, rfl⟩ : r' = r ∧ j = i := by
      simpa only [not_or, ne_eq, Decidable.not_not] using hrj
    rw [p.set_value_same] at hw
    refine .inl ⟨rfl, rfl, ?_⟩
    rw [Nat.mod_eq_of_lt hv]
    exact (Option.some.inj hw).symm

/-- Filling a frame with zeros gives a table whose entries are all zero. -/
theorem entry_fill_zero {f i : ℕ} (m : ByteMemory) (hi : i < 1024) :
    entry (m.fill f 4096 fun _ => 0) f i = 0 := by
  refine get32_eq_zero ?_
  intro k hk
  rw [Nat.add_assoc]
  exact fill_inside m _ (by omega)

/-- Filling a frame that holds no table leaves the tables. -/
theorem Holds.fill_outside (h : Holds m p) {a n : ℕ} {g : ℕ → UInt8}
    (hout : ∀ r f, p.frame r = some f → a + n ≤ f ∨ f + 4096 ≤ a) : Holds (m.fill a n g) p := by
  refine h.of_bytes ?_
  intro r f hf o ho
  have := hout r f hf
  exact ByteMemory.fill_outside m g (by omega)

/-- A new role takes a frame whose entries are as the plan asks. -/
theorem Holds.add (h : Holds m p) {r : R} {f : ℕ}
    (hframe : ∀ r' f', p'.frame r' = some f' → r' = r ∧ f' = f ∨ r' ≠ r ∧ p.frame r' = some f')
    (hvalue : ∀ r' j w, r' ≠ r → p'.value r' j = some w → p.value r' j = some w)
    (hnew : ∀ i w, i < 1024 → p'.value r i = some w → entry m f i = w) : Holds m p' := by
  intro r' f' i w hf' hi hw
  rcases hframe r' f' hf' with ⟨rfl, rfl⟩ | ⟨hne, hf⟩
  · exact hnew i w hi hw
  · exact h r' f' i w hf hi (hvalue r' i w hne hw)

end PageTables
