import Mathlib.Algebra.Group.Nat.Defs
import Mathlib.Data.Nat.Notation
import Mathlib.Data.List.GetD
import Mathlib.Logic.Function.Basic
import Mathlib.Tactic.Common

/-! A queue in a ring of `n` cells, of which one always stays unused: the cells from the read
index up to the write index hold the queue. -/

namespace RingBuffer

variable {α : Type} {n r w : ℕ} {buf : ℕ → α} {xs : List α}

/-- The ring with the indices `r` and `w` holds the queue `xs`. -/
structure Ring (n : ℕ) (buf : ℕ → α) (r w : ℕ) (xs : List α) : Prop where
  read_lt : r < n
  length_lt : xs.length < n
  write_eq : w = (r + xs.length) % n
  cell : ∀ i x, xs[i]? = some x → buf ((r + i) % n) = x

theorem ring_empty (buf : ℕ → α) (h : r < n) : Ring n buf r r [] where
  read_lt := h
  length_lt := by simp only [List.length_nil]; omega
  write_eq := by simp [Nat.mod_eq_of_lt h]
  cell := by simp

namespace Ring

theorem write_lt (h : Ring n buf r w xs) : w < n := by
  rw [h.write_eq]
  exact Nat.mod_lt _ (Nat.lt_of_le_of_lt (Nat.zero_le r) h.read_lt)

/-- The sum of an index and an offset below `n` wraps at most once. -/
private theorem wrap (h : r < n) {i : ℕ} (hi : i < n) :
    (r + i) % n = if r + i < n then r + i else r + i - n := by
  by_cases hlt : r + i < n
  · rw [if_pos hlt, Nat.mod_eq_of_lt hlt]
  · rw [if_neg hlt, Nat.mod_eq_sub_mod (by omega), Nat.mod_eq_of_lt (by omega)]

theorem empty_iff (h : Ring n buf r w xs) : r = w ↔ xs = [] := by
  have hr := h.read_lt
  have hl := h.length_lt
  rw [h.write_eq, wrap hr hl, ← List.length_eq_zero_iff]
  split <;> omega

/-- The test of the writer: the index behind `w` is `r` when `n - 1` cells are taken. -/
theorem full_iff (h : Ring n buf r w xs) : (w + 1) % n = r ↔ xs.length + 1 = n := by
  have hr := h.read_lt
  have hl := h.length_lt
  have hw := h.write_lt
  have hsum : (w + 1) % n = (r + (xs.length + 1)) % n := by
    rw [h.write_eq, Nat.mod_add_mod, Nat.add_assoc]
  rw [hsum]
  by_cases hfull : xs.length + 1 = n
  · simp [hfull, Nat.mod_eq_of_lt hr]
  · rw [wrap hr (by omega)]
    split <;> omega

theorem push (h : Ring n buf r w xs) (hroom : xs.length + 1 ≠ n) (x : α) :
    Ring n (Function.update buf w x) r ((w + 1) % n) (xs ++ [x]) where
  read_lt := h.read_lt
  length_lt := by
    have hl := h.length_lt
    simp only [List.length_append, List.length_singleton]
    omega
  write_eq := by
    rw [h.write_eq, Nat.mod_add_mod, List.length_append, List.length_singleton, Nat.add_assoc]
  cell := by
    intro i y hy
    have hr := h.read_lt
    have hl := h.length_lt
    by_cases hi : i < xs.length
    · rw [List.getElem?_append_left hi] at hy
      have hne : (r + i) % n ≠ w := by
        rw [h.write_eq, wrap hr (by omega), wrap hr hl]
        split <;> split <;> omega
      rw [Function.update_of_ne hne]
      exact h.cell i y hy
    · have hlast : i = xs.length := by
        by_contra hne
        rw [List.getElem?_eq_none (by simp; omega)] at hy
        cases hy
      rw [hlast, List.getElem?_concat_length] at hy
      rw [hlast, ← h.write_eq, Function.update_self]
      exact Option.some.inj hy

/-- Cells at the front are given up by moving the read index. -/
theorem drop (h : Ring n buf r w xs) {k : ℕ} (hk : k ≤ xs.length) :
    Ring n buf ((r + k) % n) w (xs.drop k) where
  read_lt := Nat.mod_lt _ (Nat.lt_of_le_of_lt (Nat.zero_le r) h.read_lt)
  length_lt := by
    have hl := h.length_lt
    rw [List.length_drop]
    omega
  write_eq := by
    rw [h.write_eq, Nat.mod_add_mod, List.length_drop, Nat.add_assoc, Nat.add_sub_cancel' hk]
  cell := by
    intro i x hx
    rw [List.getElem?_drop] at hx
    rw [Nat.mod_add_mod, Nat.add_assoc]
    exact h.cell (k + i) x hx

theorem head (h : Ring n buf r w xs) {x : α} (hx : xs.head? = some x) : buf r = x := by
  have hcell := h.cell 0 x (by rw [← hx, List.head?_eq_getElem?])
  rwa [Nat.add_zero, Nat.mod_eq_of_lt h.read_lt] at hcell

end Ring

end RingBuffer
