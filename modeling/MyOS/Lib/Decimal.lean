import Mathlib.Algebra.Group.Nat.Defs
import Mathlib.Data.Nat.Notation
import Mathlib.Tactic.Common
import Mathlib.Tactic.Linarith

/-! Numbers in base ten, as strings of ASCII digits. -/

namespace Decimal

def IsDigit (c : UInt8) : Prop := 48 ≤ c.toNat ∧ c.toNat ≤ 57

instance (c : UInt8) : Decidable (IsDigit c) := inferInstanceAs (Decidable (_ ∧ _))

/-- One digit behind a number. -/
def push (v : ℕ) (c : UInt8) : ℕ := 10 * v + (c.toNat - 48)

/-- The value of a string of digits. -/
def value (xs : List UInt8) : ℕ := xs.foldl push 0

/-- Digits only, and at least one. -/
structure Numeral (xs : List UInt8) : Prop where
  ne_nil : xs ≠ []
  digits : ∀ c ∈ xs, IsDigit c

instance (xs : List UInt8) : Decidable (Numeral xs) :=
  have : Decidable (∀ c ∈ xs, IsDigit c) := List.decidableBAll IsDigit xs
  decidable_of_iff (xs ≠ [] ∧ ∀ c ∈ xs, IsDigit c) ⟨fun h => ⟨h.1, h.2⟩, fun h => ⟨h.1, h.2⟩⟩

/-- The digits of `n` are `xs`, without a leading zero unless `n` is zero. -/
structure Writes (n : ℕ) (xs : List UInt8) : Prop extends Numeral xs where
  value : value xs = n
  head : xs.head? = some 48 → n = 0 ∧ xs = [48]

/-- The digit of `d`. -/
def digit (d : ℕ) : UInt8 := UInt8.ofNat (d + 48)

theorem digit_toNat {d : ℕ} (hd : d < 10) : (digit d).toNat = d + 48 := by
  unfold digit
  rw [UInt8.toNat_ofNat']
  exact Nat.mod_eq_of_lt (by omega)

theorem isDigit_digit {d : ℕ} (hd : d < 10) : IsDigit (digit d) := by
  unfold IsDigit
  rw [digit_toNat hd]
  omega

theorem value_append (xs : List UInt8) (c : UInt8) : value (xs ++ [c]) = push (value xs) c := by
  simp [value]

theorem push_digit (v : ℕ) {d : ℕ} (hd : d < 10) : push v (digit d) = 10 * v + d := by
  rw [push, digit_toNat hd]
  omega

theorem writes_digit {d : ℕ} (hd : d < 10) : Writes d [digit d] where
  ne_nil := by simp
  digits := by
    intro c hc
    obtain rfl := List.mem_singleton.mp hc
    exact isDigit_digit hd
  value := by
    have hpush := push_digit 0 hd
    rw [Nat.mul_zero, Nat.zero_add] at hpush
    exact hpush
  head := by
    intro hhead
    have heq : digit d = 48 := by simpa using hhead
    have hvalue := congrArg UInt8.toNat heq
    rw [digit_toNat hd] at hvalue
    have hzero : d = 0 := by
      have : (48 : UInt8).toNat = 48 := rfl
      omega
    rw [hzero]
    exact ⟨rfl, rfl⟩

/-- The digits of a number are those of a tenth of it and one more. -/
theorem Writes.push {n d : ℕ} {xs : List UInt8} (h : Writes n xs) (hn : 0 < n) (hd : d < 10) :
    Writes (10 * n + d) (xs ++ [digit d]) where
  ne_nil := by simp
  digits := by
    intro c hc
    rcases List.mem_append.mp hc with hc | hc
    · exact h.digits c hc
    · obtain rfl := List.mem_singleton.mp hc
      exact isDigit_digit hd
  value := by
    rw [value_append, h.value, push_digit n hd]
  head := by
    intro hhead
    obtain ⟨x, rest, hxs⟩ := List.exists_cons_of_ne_nil h.ne_nil
    rw [hxs, List.cons_append, List.head?_cons] at hhead
    have hzero : n = 0 := (h.head (by rw [hxs, List.head?_cons]; exact hhead)).1
    omega

end Decimal
