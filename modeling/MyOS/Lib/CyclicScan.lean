import Mathlib.Algebra.Group.Nat.Defs
import Mathlib.Data.Nat.Notation
import Mathlib.Data.List.Basic
import Mathlib.Tactic.Common

/-! The scan of a ring of `n` positions for the first eligible one behind a start, and why
repeating it starves nobody: each pick of another position brings the scan nearer. -/

namespace CyclicScan

/-- First eligible position after `start`, which itself is looked at last. -/
def scan (n : ℕ) (p : ℕ → Prop) [DecidablePred p] (start : ℕ) : Option ℕ :=
  (List.range n).findSome? fun i =>
    let k := (start + (i + 1)) % n
    if p k then some k else none

/-- Positions the scan passes between `start` and `k`. -/
def distance (n start k : ℕ) : ℕ := if start < k then k - start - 1 else n + k - start - 1

theorem distance_lt {n start k : ℕ} (hs : start < n) (hk : k < n) : distance n start k < n := by
  unfold distance
  split <;> omega

theorem position_distance {n start k : ℕ} (hs : start < n) (hk : k < n) :
    (start + (distance n start k + 1)) % n = k := by
  unfold distance
  split
  · rw [show start + (k - start - 1 + 1) = k by omega]
    exact Nat.mod_eq_of_lt hk
  · rw [show start + (n + k - start - 1 + 1) = k + n by omega, Nat.add_mod_right]
    exact Nat.mod_eq_of_lt hk

theorem distance_position {n start i : ℕ} (hs : start < n) (hi : i < n) :
    distance n start ((start + (i + 1)) % n) = i := by
  by_cases h : start + (i + 1) < n
  · rw [Nat.mod_eq_of_lt h, distance, if_pos (by omega)]
    omega
  · have hk : (start + (i + 1)) % n = start + (i + 1) - n := by
      rw [Nat.mod_eq_sub_mod (by omega)]
      exact Nat.mod_eq_of_lt (by omega)
    rw [hk, distance, if_neg (by omega)]
    omega

variable {n start : ℕ} {p : ℕ → Prop} [DecidablePred p]

theorem scan_mod (n : ℕ) (p : ℕ → Prop) [DecidablePred p] (start : ℕ) :
    scan n p (start % n) = scan n p start := by
  simp only [scan, Nat.mod_add_mod]

theorem scan_eq_none (hs : start < n) : scan n p start = none ↔ ∀ q < n, ¬p q := by
  unfold scan
  simp only [List.findSome?_eq_none_iff, List.mem_range]
  refine ⟨?_, ?_⟩
  · intro h q hq hp
    have hd := h (distance n start q) (distance_lt hs hq)
    rw [position_distance hs hq, if_pos hp] at hd
    exact Option.some_ne_none q hd
  · intro h i hi
    exact if_neg (h _ (Nat.mod_lt _ (by omega)))

/-- The position found is eligible and no eligible one is nearer. -/
theorem scan_eq_some {k : ℕ} (hs : start < n) (h : scan n p start = some k) :
    k < n ∧ p k ∧ ∀ q < n, p q → distance n start k ≤ distance n start q := by
  unfold scan at h
  rw [List.findSome?_eq_some_iff] at h
  obtain ⟨pre, i, post, hrange, hi, hpre⟩ := h
  have hlen : pre.length = i := by
    have hget : (List.range n)[pre.length]? = some i := by simp [hrange]
    rw [List.getElem?_eq_some_iff] at hget
    obtain ⟨hlt, hget⟩ := hget
    simpa using hget
  have hin : i < n := by
    have hmem : i ∈ List.range n := by simp [hrange]
    exact List.mem_range.mp hmem
  have hbefore : ∀ j < i, ¬p ((start + (j + 1)) % n) := by
    intro j hj hp
    have hmem : j ∈ pre := by
      have hget : (List.range n)[j]? = some j := List.getElem?_range (by omega)
      rw [hrange, List.getElem?_append_left (by omega)] at hget
      exact List.mem_of_getElem? hget
    have hnone := hpre j hmem
    simp [hp] at hnone
  dsimp only at hi
  split at hi
  · rename_i hp
    obtain rfl : (start + (i + 1)) % n = k := Option.some.inj hi
    refine ⟨Nat.mod_lt _ (by omega), hp, ?_⟩
    intro q hq hpq
    rw [distance_position hs hin]
    by_contra hlt
    have hnear := hbefore (distance n start q) (by omega)
    rw [position_distance hs hq] at hnear
    exact hnear hpq
  · exact absurd hi (Option.some_ne_none k).symm

/-- A pick of another position brings the scan nearer to every eligible one. -/
theorem distance_decreases {k q : ℕ} (hs : start < n) (h : scan n p start = some k) (hq : q < n)
    (hp : p q) (hne : k ≠ q) : distance n k q < distance n start q := by
  obtain ⟨hk, -, hmin⟩ := scan_eq_some hs h
  have hle := hmin q hq hp
  unfold distance at hle ⊢
  split at hle <;> split at hle <;> split <;> omega

/-- Of `n` scans in a row, each starting where the last one ended, one picks `q` if `q` is
eligible every time, whatever else is. -/
theorem picked_of_eligible (pos : ℕ → ℕ) (p : ℕ → ℕ → Prop) [∀ t, DecidablePred (p t)] {q : ℕ}
    (hstart : pos 0 < n) (hq : q < n) (hp : ∀ t < n, p t q)
    (hscan : ∀ t < n, scan n (p t) (pos t) = some (pos (t + 1))) :
    ∃ t < n, pos (t + 1) = q := by
  by_contra hnever
  have hnear : ∀ t ≤ n, pos t < n ∧ distance n (pos t) q + t < n := by
    intro t ht
    induction t with
    | zero => exact ⟨hstart, distance_lt hstart hq⟩
    | succ t ih =>
        obtain ⟨hpos, hd⟩ := ih (by omega)
        have hne : pos (t + 1) ≠ q := fun h => hnever ⟨t, by omega, h⟩
        have hcloser := distance_decreases hpos (hscan t (by omega)) hq (hp t (by omega)) hne
        exact ⟨(scan_eq_some hpos (hscan t (by omega))).1, by omega⟩
  have hend := (hnear n (Nat.le_refl n)).2
  omega

end CyclicScan
