import Mathlib.Algebra.Group.Nat.Defs
import Mathlib.Data.Nat.Notation
import Mathlib.Logic.Function.Basic
import Mathlib.Tactic.Common

/-! Byte-addressed memory with little-endian 32-bit words. -/

/-- A memory gives a byte for every address. -/
abbrev ByteMemory := ℕ → UInt8

namespace ByteMemory

def get16 (m : ByteMemory) (a : ℕ) : ℕ := (m a).toNat + 256 * (m (a + 1)).toNat

def get32 (m : ByteMemory) (a : ℕ) : ℕ :=
  (m a).toNat + 256 * (m (a + 1)).toNat + 65536 * (m (a + 2)).toNat +
    16777216 * (m (a + 3)).toNat

def set8 (m : ByteMemory) (a : ℕ) (b : UInt8) : ByteMemory := Function.update m a b

def set32 (m : ByteMemory) (a v : ℕ) : ByteMemory :=
  (((m.set8 a (UInt8.ofNat v)).set8 (a + 1) (UInt8.ofNat (v / 256))).set8 (a + 2)
    (UInt8.ofNat (v / 65536))).set8 (a + 3) (UInt8.ofNat (v / 16777216))

def set16 (m : ByteMemory) (a v : ℕ) : ByteMemory :=
  (m.set8 a (UInt8.ofNat v)).set8 (a + 1) (UInt8.ofNat (v / 256))

theorem set8_apply (m : ByteMemory) (a x : ℕ) (b : UInt8) :
    m.set8 a b x = if x = a then b else m x := by
  simp [set8, Function.update_apply]

@[simp] theorem set8_same (m : ByteMemory) (a : ℕ) (b : UInt8) : m.set8 a b a = b := by
  simp [set8_apply]

theorem set8_of_ne {a x : ℕ} (m : ByteMemory) (b : UInt8) (h : x ≠ a) : m.set8 a b x = m x := by
  simp [set8_apply, h]

/-- A word write changes the four bytes of the word only. -/
theorem set32_of_outside {a x : ℕ} (m : ByteMemory) (v : ℕ) (h : x < a ∨ a + 4 ≤ x) :
    m.set32 a v x = m x := by
  unfold set32
  rw [set8_of_ne _ _ (by omega), set8_of_ne _ _ (by omega), set8_of_ne _ _ (by omega),
    set8_of_ne _ _ (by omega)]

theorem get32_lt (m : ByteMemory) (a : ℕ) : m.get32 a < 2 ^ 32 := by
  have h0 := (m a).toNat_lt
  have h1 := (m (a + 1)).toNat_lt
  have h2 := (m (a + 2)).toNat_lt
  have h3 := (m (a + 3)).toNat_lt
  unfold get32
  omega

theorem get16_lt (m : ByteMemory) (a : ℕ) : m.get16 a < 2 ^ 16 := by
  have h0 := (m a).toNat_lt
  have h1 := (m (a + 1)).toNat_lt
  unfold get16
  omega

theorem get32_set32_same (m : ByteMemory) (a v : ℕ) : (m.set32 a v).get32 a = v % 2 ^ 32 := by
  have h0 : m.set32 a v a = UInt8.ofNat v := by simp [set32, set8_apply]
  have h1 : m.set32 a v (a + 1) = UInt8.ofNat (v / 256) := by simp [set32, set8_apply]
  have h2 : m.set32 a v (a + 2) = UInt8.ofNat (v / 65536) := by simp [set32, set8_apply]
  have h3 : m.set32 a v (a + 3) = UInt8.ofNat (v / 16777216) := by simp [set32]
  unfold get32
  rw [h0, h1, h2, h3]
  simp only [UInt8.toNat_ofNat']
  omega

/-- A store of two bytes changes these bytes only. -/
theorem set16_of_outside {a x : ℕ} (m : ByteMemory) (v : ℕ) (h : x < a ∨ a + 2 ≤ x) :
    m.set16 a v x = m x := by
  unfold set16
  rw [set8_of_ne _ _ (by omega), set8_of_ne _ _ (by omega)]

theorem get16_set16_same (m : ByteMemory) (a v : ℕ) : (m.set16 a v).get16 a = v % 2 ^ 16 := by
  have h0 : m.set16 a v a = UInt8.ofNat v := by simp [set16, set8_apply]
  have h1 : m.set16 a v (a + 1) = UInt8.ofNat (v / 256) := by simp [set16]
  unfold get16
  rw [h0, h1]
  simp only [UInt8.toNat_ofNat']
  omega

/-- A word is read from its four bytes. -/
theorem get32_congr {m m' : ByteMemory} {a : ℕ} (h : ∀ i < 4, m' (a + i) = m (a + i)) :
    m'.get32 a = m.get32 a := by
  have h0 := h 0 (by omega)
  rw [Nat.add_zero] at h0
  rw [get32, get32, h0, h 1 (by omega), h 2 (by omega), h 3 (by omega)]

theorem get16_congr {m m' : ByteMemory} {a : ℕ} (h : ∀ i < 2, m' (a + i) = m (a + i)) :
    m'.get16 a = m.get16 a := by
  have h0 := h 0 (by omega)
  rw [Nat.add_zero] at h0
  rw [get16, get16, h0, h 1 (by omega)]

theorem get32_set32_of_disjoint {a b : ℕ} (m : ByteMemory) (v : ℕ) (h : b + 4 ≤ a ∨ a + 4 ≤ b) :
    (m.set32 a v).get32 b = m.get32 b := by
  apply get32_congr
  intro i hi
  exact set32_of_outside m v (by omega)

theorem get16_set16_of_disjoint {a b : ℕ} (m : ByteMemory) (v : ℕ) (h : b + 2 ≤ a ∨ a + 2 ≤ b) :
    (m.set16 a v).get16 b = m.get16 b := by
  apply get16_congr
  intro i hi
  exact set16_of_outside m v (by omega)

theorem get16_set32_of_disjoint {a b : ℕ} (m : ByteMemory) (v : ℕ) (h : b + 2 ≤ a ∨ a + 4 ≤ b) :
    (m.set32 a v).get16 b = m.get16 b := by
  apply get16_congr
  intro i hi
  exact set32_of_outside m v (by omega)

theorem get32_set16_of_disjoint {a b : ℕ} (m : ByteMemory) (v : ℕ) (h : b + 4 ≤ a ∨ a + 2 ≤ b) :
    (m.set16 a v).get32 b = m.get32 b := by
  apply get32_congr
  intro i hi
  exact set16_of_outside m v (by omega)

theorem get32_eq_zero {m : ByteMemory} {a : ℕ} (h : ∀ i < 4, m (a + i) = 0) : m.get32 a = 0 := by
  have h0 := h 0 (by omega)
  rw [Nat.add_zero] at h0
  rw [get32, h0, h 1 (by omega), h 2 (by omega), h 3 (by omega)]
  rfl

/-- The memory with `n` bytes from `a` on replaced. -/
def fill (m : ByteMemory) (a n : ℕ) (f : ℕ → UInt8) : ByteMemory :=
  fun x => if a ≤ x ∧ x < a + n then f (x - a) else m x

theorem fill_inside {a n k : ℕ} (m : ByteMemory) (f : ℕ → UInt8) (h : k < n) :
    m.fill a n f (a + k) = f k := by
  have hk : a + k - a = k := by omega
  rw [fill, if_pos (by omega), hk]

theorem fill_outside {a n x : ℕ} (m : ByteMemory) (f : ℕ → UInt8) (h : x < a ∨ a + n ≤ x) :
    m.fill a n f x = m x := by
  rw [fill, if_neg (by omega)]

theorem fill_zero (m : ByteMemory) (a : ℕ) (f : ℕ → UInt8) : m.fill a 0 f = m := by
  funext x
  exact fill_outside m f (by omega)

/-- Filling one byte more is a store behind the bytes filled. -/
theorem fill_succ (m : ByteMemory) (a n : ℕ) (f : ℕ → UInt8) :
    m.fill a (n + 1) f = (m.fill a n f).set8 (a + n) (f n) := by
  funext x
  rw [set8_apply]
  by_cases hx : x = a + n
  · rw [if_pos hx, hx]
    exact fill_inside m f (by omega)
  · rw [if_neg hx]
    by_cases hin : a ≤ x ∧ x < a + n
    · rw [fill, fill, if_pos (by omega), if_pos hin]
    · rw [fill_outside m f (by omega), fill_outside m f (by omega)]

end ByteMemory
