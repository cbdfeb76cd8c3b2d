import Mathlib.Data.List.GetD
import Mathlib.Data.Nat.Notation
import Mathlib.Data.UInt
import Mathlib.Logic.Function.Basic
import Mathlib.Tactic.Common

/-! Arrays that begin with a list, and strings that end with a terminator. -/

namespace CString

variable {α : Type} {a b : ℕ → α} {xs ys : List α}

/-- The first cells of the array hold the list. -/
def Begins (a : ℕ → α) (xs : List α) : Prop := ∀ i x, xs[i]? = some x → a i = x

theorem begins_nil (a : ℕ → α) : Begins a [] := by
  intro i x h
  simp at h

theorem Begins.congr (h : Begins a xs) (hab : ∀ i < xs.length, b i = a i) : Begins b xs := by
  intro i x hx
  rw [hab i (List.getElem?_eq_some_iff.mp hx).1]
  exact h i x hx

/-- Only the list itself begins the array at its length. -/
theorem Begins.eq (h : Begins a xs) (h' : Begins a ys) (hlen : xs.length = ys.length) :
    xs = ys := by
  refine List.ext_getElem hlen ?_
  intro i hi hi'
  rw [← h i _ (List.getElem?_eq_getElem hi), ← h' i _ (List.getElem?_eq_getElem hi')]

theorem begins_range (a : ℕ → α) (n : ℕ) : Begins a ((List.range n).map a) := by
  intro i x hx
  rw [List.getElem?_map, Option.map_eq_some_iff] at hx
  obtain ⟨j, hj, rfl⟩ := hx
  rw [List.getElem?_eq_some_iff] at hj
  obtain ⟨hi, hj⟩ := hj
  rw [List.getElem_range] at hj
  rw [hj]

theorem Begins.map_range (h : Begins a xs) : (List.range xs.length).map a = xs :=
  (begins_range a xs.length).eq h (by simp)

/-- Cells from `k` on move one up and a cell is written in between. -/
theorem Begins.insert (h : Begins a xs) {k : ℕ} (hk : k ≤ xs.length) {x : α}
    (hlow : ∀ i < k, b i = a i) (hx : b k = x)
    (hhigh : ∀ i, k < i → i ≤ xs.length → b i = a (i - 1)) :
    Begins b (xs.take k ++ x :: xs.drop k) := by
  intro i y hy
  have hlen : (xs.take k).length = k := by simp [hk]
  by_cases hi : i < k
  · rw [List.getElem?_append_left (by omega), List.getElem?_take, if_pos hi] at hy
    rw [hlow i hi]
    exact h i y hy
  · rw [List.getElem?_append_right (by omega), hlen] at hy
    by_cases heq : i = k
    · rw [heq, Nat.sub_self, List.getElem?_cons_zero] at hy
      rw [heq, hx]
      exact Option.some.inj hy
    · obtain ⟨j, hj⟩ : ∃ j, i - k = j + 1 := ⟨i - k - 1, by omega⟩
      have hji : k + j = i - 1 := by omega
      rw [hj, List.getElem?_cons_succ, List.getElem?_drop, hji] at hy
      have hbound := (List.getElem?_eq_some_iff.mp hy).1
      rw [hhigh i (by omega) (by omega)]
      exact h (i - 1) y hy

/-- Cells from `k + 1` on move one down. -/
theorem Begins.erase (h : Begins a xs) {k : ℕ} (hlow : ∀ i < k, b i = a i)
    (hhigh : ∀ i, k ≤ i → i + 1 < xs.length → b i = a (i + 1)) :
    Begins b (xs.take k ++ xs.drop (k + 1)) := by
  rw [← List.eraseIdx_eq_take_drop_succ]
  intro i y hy
  rw [List.getElem?_eraseIdx] at hy
  by_cases hi : i < k
  · rw [if_pos hi] at hy
    rw [hlow i hi]
    exact h i y hy
  · rw [if_neg hi] at hy
    rw [hhigh i (by omega) (List.getElem?_eq_some_iff.mp hy).1]
    exact h (i + 1) y hy

variable [Zero α]

/-- The array holds the string `xs`: the list, without terminators in it, and a terminator. -/
structure Holds (a : ℕ → α) (xs : List α) : Prop where
  begins : Begins a xs
  nonzero : ∀ x ∈ xs, x ≠ 0
  terminated : a xs.length = 0

theorem Holds.ne_zero (h : Holds a xs) {i : ℕ} (hi : i < xs.length) : a i ≠ 0 := by
  rw [h.begins i _ (List.getElem?_eq_getElem hi)]
  exact h.nonzero _ (List.getElem_mem hi)

theorem Holds.congr (h : Holds a xs) (hab : ∀ i ≤ xs.length, b i = a i) : Holds b xs where
  begins := h.begins.congr fun i hi => hab i (by omega)
  nonzero := h.nonzero
  terminated := (hab _ (by omega)).trans h.terminated

/-- The rest of a string is a string. -/
theorem Holds.append_right (h : Holds a (xs ++ ys)) : Holds (fun i => a (xs.length + i)) ys where
  begins i x hx := h.begins (xs.length + i) x (by
    rw [List.getElem?_append_right (by omega), Nat.add_sub_cancel_left]
    exact hx)
  nonzero x hx := h.nonzero x (by simp [hx])
  terminated := by simpa using h.terminated

end CString
