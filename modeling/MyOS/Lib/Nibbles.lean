import Mathlib.Algebra.Group.Nat.Defs
import Mathlib.Tactic.Ring
import Mathlib.Data.Nat.Notation

/-! Byte sequences as sequences of half bytes, low half first, and 12-bit values packed into
them, two values to three bytes. -/

namespace Nibbles

/-- The half byte at position `k`. -/
def nibble (bytes : ℕ → UInt8) (k : ℕ) : ℕ :=
  if k % 2 = 0 then (bytes (k / 2)).toNat % 16 else (bytes (k / 2)).toNat / 16

/-- The value of the half bytes `3 n`, `3 n + 1` and `3 n + 2`. -/
def triple (bytes : ℕ → UInt8) (n : ℕ) : ℕ :=
  nibble bytes (3 * n) + 16 * nibble bytes (3 * n + 1) + 256 * nibble bytes (3 * n + 2)

theorem nibble_two_mul (bytes : ℕ → UInt8) (k : ℕ) :
    nibble bytes (2 * k) = (bytes k).toNat % 16 := by
  rw [nibble, if_pos (by omega), show 2 * k / 2 = k by omega]

theorem nibble_two_mul_add_one (bytes : ℕ → UInt8) (k : ℕ) :
    nibble bytes (2 * k + 1) = (bytes k).toNat / 16 := by
  rw [nibble, if_neg (by omega), show (2 * k + 1) / 2 = k by omega]

/-- An even value: a byte and the low half of the next one. -/
theorem triple_two_mul (bytes : ℕ → UInt8) (k : ℕ) :
    triple bytes (2 * k) =
      (bytes (3 * k)).toNat + 256 * ((bytes (3 * k + 1)).toNat % 16) := by
  rw [triple, show 3 * (2 * k) = 2 * (3 * k) by ring, nibble_two_mul, nibble_two_mul_add_one,
    show 2 * (3 * k) + 2 = 2 * (3 * k + 1) by ring, nibble_two_mul]
  omega

/-- An odd value: the high half of a byte and the next byte. -/
theorem triple_two_mul_add_one (bytes : ℕ → UInt8) (k : ℕ) :
    triple bytes (2 * k + 1) =
      (bytes (3 * k + 1)).toNat / 16 + 16 * (bytes (3 * k + 2)).toNat := by
  rw [triple, show 3 * (2 * k + 1) = 2 * (3 * k + 1) + 1 by ring, nibble_two_mul_add_one,
    show 2 * (3 * k + 1) + 1 + 1 = 2 * (3 * k + 2) by ring, nibble_two_mul,
    show 2 * (3 * k + 1) + 1 + 2 = 2 * (3 * k + 2) + 1 by ring, nibble_two_mul_add_one]
  omega

/-! ## Packing -/

/-- Two values to three bytes; a single value at the end takes two. -/
def pack12 : List ℕ → List UInt8
  | [] => []
  | [a] => [UInt8.ofNat a, UInt8.ofNat (a / 256)]
  | a :: b :: rest =>
      UInt8.ofNat a :: UInt8.ofNat (a / 256 + b % 16 * 16) :: UInt8.ofNat (b / 16) :: pack12 rest

theorem length_pack12 (values : List ℕ) :
    (pack12 values).length = (3 * values.length + 1) / 2 := by
  induction values using pack12.induct with
  | case1 => rfl
  | case2 a => simp [pack12]
  | case3 a b rest ih =>
      simp only [pack12, List.length_cons, ih]
      omega

theorem triple_congr {bytes bytes' : ℕ → UInt8} (n m : ℕ) (hparity : n % 2 = m % 2)
    (h : ∀ k < 2, bytes (n * 3 / 2 + k) = bytes' (m * 3 / 2 + k)) :
    triple bytes n = triple bytes' m := by
  have h0 := h 0 (by omega)
  have h1 := h 1 (by omega)
  rcases Nat.even_or_odd' n with ⟨a, rfl | rfl⟩
  · obtain ⟨b, rfl⟩ : ∃ b, m = 2 * b := ⟨m / 2, by omega⟩
    rw [show 2 * a * 3 / 2 = 3 * a by omega, show 2 * b * 3 / 2 = 3 * b by omega] at h0 h1
    rw [triple_two_mul, triple_two_mul, ← h1]
    simp only [Nat.add_zero] at h0
    rw [h0]
  · obtain ⟨b, rfl⟩ : ∃ b, m = 2 * b + 1 := ⟨m / 2, by omega⟩
    rw [show (2 * a + 1) * 3 / 2 = 3 * a + 1 by omega,
      show (2 * b + 1) * 3 / 2 = 3 * b + 1 by omega] at h0 h1
    rw [triple_two_mul_add_one, triple_two_mul_add_one, ← h1]
    simp only [Nat.add_zero] at h0
    rw [h0]

/-- What has been packed is read back. -/
theorem triple_pack12 (values : List ℕ) (hsmall : ∀ v ∈ values, v < 4096) (i v : ℕ)
    (hi : values[i]? = some v) (bytes : ℕ → UInt8)
    (hbytes : ∀ k b, (pack12 values)[k]? = some b → bytes k = b) : triple bytes i = v := by
  induction values using pack12.induct generalizing i bytes with
  | case1 => simp at hi
  | case2 a =>
      obtain ⟨rfl, rfl⟩ : i = 0 ∧ a = v := by
        cases i with
        | zero => simpa using hi
        | succ i => simp at hi
      have ha : a < 4096 := hsmall a (by simp)
      have h0 := hbytes 0 _ rfl
      have h1 := hbytes 1 _ rfl
      have hvalue := triple_two_mul bytes 0
      simp only [Nat.mul_zero, Nat.zero_add, h0, h1, UInt8.toNat_ofNat'] at hvalue
      omega
  | case3 a b rest ih =>
      have ha : a < 4096 := hsmall a (by simp)
      have hb : b < 4096 := hsmall b (by simp)
      have h0 := hbytes 0 _ rfl
      have h1 := hbytes 1 _ rfl
      have h2 := hbytes 2 _ rfl
      match i with
      | 0 =>
          obtain rfl : a = v := by simpa using hi
          have hvalue := triple_two_mul bytes 0
          simp only [Nat.mul_zero, Nat.zero_add, h0, h1, UInt8.toNat_ofNat'] at hvalue
          omega
      | 1 =>
          obtain rfl : b = v := by simpa using hi
          have hvalue := triple_two_mul_add_one bytes 0
          simp only [Nat.mul_zero, Nat.zero_add, h1, h2, UInt8.toNat_ofNat'] at hvalue
          omega
      | i + 2 =>
          have hrest := ih (fun w hw => hsmall w (by simp [hw])) i (by simpa using hi)
            (fun k => bytes (k + 3)) (fun k c hk => hbytes (k + 3) c (by simpa [pack12] using hk))
          rw [← hrest]
          refine triple_congr _ _ (by omega) ?_
          intro k hk
          rw [show (i + 2) * 3 / 2 + k = i * 3 / 2 + k + 3 by omega]

end Nibbles
