import Mathlib.Data.List.Induction
import MyOS.Lib.Decimal
import MyOS.Model.Decimal
import MyOS.Model.Shell

/-! Numbers on the screen, on the debug port and on the command line: the two printers agree, and
`atoi` reads what they print. -/

namespace MyOS

open Decimal

/-! ## Printing -/

theorem printDec_of_lt {n : ℕ} (h : n < 10) : printDec n = [digit n] := by
  unfold printDec
  split
  · rename_i hzero
    rw [hzero]
    rfl
  · rw [if_neg (by omega), Nat.mod_eq_of_lt h]
    rfl

theorem printDec_of_le {n : ℕ} (h : 10 ≤ n) :
    printDec n = printDec (n / 10) ++ [digit (n % 10)] := by
  rw [printDec, if_neg (by omega), if_pos h]
  rfl

/-- The number on the screen is written as usual. -/
theorem writes_printDec (n : ℕ) : Writes n (printDec n) := by
  induction n using Nat.strong_induction_on with
  | _ n ih =>
      by_cases h : n < 10
      · rw [printDec_of_lt h]
        exact writes_digit h
      · rw [printDec_of_le (by omega)]
        have hpush := (ih (n / 10) (by omega)).push (show 0 < n / 10 by omega)
          (Nat.mod_lt n (by decide : 0 < 10))
        rwa [Nat.div_add_mod] at hpush

/-- Only the first `i` cells are sent. -/
theorem emitDigits_congr {buf buf' : ℕ → UInt8} {i : ℕ} (h : ∀ j < i, buf' j = buf j) :
    emitDigits buf' i = emitDigits buf i := by
  induction i with
  | zero => rfl
  | succ i ih =>
      rw [emitDigits, emitDigits, h i (Nat.lt_succ_self i), ih fun j hj => h j (by omega)]

theorem emitDigits_push (b : DigitBuffer) (c : UInt8) :
    emitDigits (b.push c).buf (b.push c).i = c :: emitDigits b.buf b.i := by
  change Function.update b.buf b.i c b.i :: emitDigits (Function.update b.buf b.i c) b.i = _
  rw [Function.update_self]
  congr 1
  apply emitDigits_congr
  intro j hj
  exact Function.update_of_ne (by omega) _ _

/-- The digits of `n` were put behind those in `b`, and no cell behind them was written. -/
structure Collected (n : ℕ) (b b' : DigitBuffer) : Prop where
  emitted : emitDigits b'.buf b'.i = printDec n ++ emitDigits b.buf b.i
  written : ∀ j ∈ b'.written, j ∈ b.written ∨ j < b'.i
  grows : b.i ≤ b'.i
  count : 10 ^ (b'.i - b.i) ≤ 10 * n

theorem collectDigits_collected {n : ℕ} (hn : 0 < n) :
    ∀ b, Collected n b (collectDigits n b) := by
  induction n using Nat.strong_induction_on with
  | _ n ih =>
      intro b
      rw [collectDigits, if_pos hn]
      by_cases h : n < 10
      · rw [Nat.div_eq_of_lt h, collectDigits, if_neg (by omega), Nat.mod_eq_of_lt h]
        refine ⟨?_, ?_, Nat.le_succ _, ?_⟩
        · rw [emitDigits_push, printDec_of_lt h]
          rfl
        · intro j hj
          rcases List.mem_cons.mp hj with rfl | hj
          · exact .inr (Nat.lt_succ_self _)
          · exact .inl hj
        · change 10 ^ (b.i + 1 - b.i) ≤ 10 * n
          rw [Nat.add_sub_cancel_left, pow_one]
          omega
      · have hrest := ih (n / 10) (by omega) (by omega) (b.push (UInt8.ofNat (n % 10 + 48)))
        have hgrows : b.i + 1 ≤ _ := hrest.grows
        refine ⟨?_, ?_, by omega, ?_⟩
        · rw [hrest.emitted, emitDigits_push, printDec_of_le (by omega : 10 ≤ n), List.append_assoc]
          rfl
        · intro j hj
          rcases hrest.written j hj with hj | hj
          · rcases List.mem_cons.mp hj with rfl | hj
            · exact .inr (by omega)
            · exact .inl hj
          · exact .inr hj
        · have hcount := hrest.count
          have hstep : ∀ k, b.i + 1 ≤ k → 10 ^ (k - b.i) = 10 * 10 ^ (k - (b.i + 1)) := by
            intro k hk
            rw [← pow_succ']
            congr 1
            omega
          rw [hstep _ hgrows]
          change 10 ^ (_ - (b.i + 1)) ≤ _ at hcount
          omega

/-- The debug port gets what the screen shows, and the buffer is large enough. -/
theorem qemuDebugDec_spec (buf : ℕ → UInt8) (n : ℕ) :
    (qemuDebugDec buf n).1 = printDec n ∧
      (n < 2 ^ 32 → (qemuDebugDec buf n).2.i < 12 ∧
        ∀ j ∈ (qemuDebugDec buf n).2.written, j < 12) := by
  unfold qemuDebugDec
  by_cases hn : n = 0
  · rw [if_pos hn, hn, printDec]
    simp
  · rw [if_neg hn]
    have h := collectDigits_collected (Nat.pos_of_ne_zero hn) ⟨buf, 0, []⟩
    refine ⟨?_, ?_⟩
    · have hemitted := h.emitted
      rwa [show emitDigits buf 0 = [] from rfl, List.append_nil] at hemitted
    · intro hlt
      have hcount : 10 ^ ((collectDigits n ⟨buf, 0, []⟩).i - 0) ≤ 10 * n := h.count
      have hpow : 10 ^ ((collectDigits n ⟨buf, 0, []⟩).i - 0) < 10 ^ 11 := by omega
      have hsize := (Nat.pow_lt_pow_iff_right (by decide : 1 < 10)).mp hpow
      refine ⟨by change (collectDigits n ⟨buf, 0, []⟩).i < 12; omega, ?_⟩
      intro j hj
      rcases h.written j hj with hj | hj
      · cases hj
      · omega

/-! ## Parsing -/

/-- What `atoi` would return with unbounded integers: each character counts its distance to
`'0'`. -/
def charSum (str : List UInt8) : ℤ :=
  str.foldl (fun res c => res * 10 + (c.toInt8.toInt - 48)) 0

theorem charSum_append (str : List UInt8) (c : UInt8) :
    charSum (str ++ [c]) = charSum str * 10 + (c.toInt8.toInt - 48) := by
  simp [charSum]

/-- `atoi` wraps once for all. -/
theorem atoi_eq_bmod (str : List UInt8) : atoi str = (charSum str).bmod (2 ^ 32) := by
  induction str using List.reverseRecOn with
  | nil => rfl
  | append_singleton str c ih =>
      have hstep : atoi (str ++ [c]) =
          (atoi str * 10 + c.toInt8.toInt - 48).bmod (2 ^ 32) := by
        simp [atoi]
      rw [hstep, ih, charSum_append, add_sub_assoc, ← Int.bmod_add_bmod, Int.bmod_mul_bmod,
        Int.bmod_add_bmod]

theorem toInt8_of_isDigit {c : UInt8} (h : IsDigit c) : c.toInt8.toInt = c.toNat := by
  have hlow := h.1
  have hhigh := h.2
  change c.toBitVec.toInt = _
  apply BitVec.toInt_eq_toNat_of_lt
  change 2 * c.toNat < 2 ^ 8
  omega

/-- Digits count as usual. -/
theorem charSum_of_digits {str : List UInt8} (h : ∀ c ∈ str, IsDigit c) :
    charSum str = value str := by
  induction str using List.reverseRecOn with
  | nil => rfl
  | append_singleton str c ih =>
      have hc := h c (by simp)
      have hstr := ih fun d hd => h d (by simp [hd])
      rw [charSum_append, hstr, value_append, push, toInt8_of_isDigit hc]
      have := hc.1
      omega

/-- `atoi` reads numerals up to the largest `int`. -/
theorem atoi_of_digits {str : List UInt8} (h : ∀ c ∈ str, IsDigit c) (hlt : value str < 2 ^ 31) :
    atoi str = value str := by
  rw [atoi_eq_bmod, charSum_of_digits h]
  exact Int.bmod_eq_of_le (by omega) (by omega)

/-- Decimal printing and parsing agree: the screen and the debug port get the usual digits of a
number, which fit the buffer, and `atoi` reads them. -/
theorem print_dec_round_trip (buf : ℕ → UInt8) (n : ℕ) (hn : n < 2 ^ 32) :
    printDec n = (qemuDebugDec buf n).1 ∧ Writes n (printDec n) ∧
      ((qemuDebugDec buf n).2.i < 12 ∧ ∀ j ∈ (qemuDebugDec buf n).2.written, j < 12) ∧
      (n < 2 ^ 31 → atoi (printDec n) = n) := by
  obtain ⟨hsame, hfits⟩ := qemuDebugDec_spec buf n
  have hwrites := writes_printDec n
  refine ⟨hsame.symm, hwrites, hfits hn, ?_⟩
  intro hlt
  have hvalue := hwrites.value
  rw [atoi_of_digits hwrites.digits (by omega), hvalue]

theorem print_dec_round_trip_largest :
    printDec 2147483647 = (qemuDebugDec (fun _ => 0) 2147483647).1 ∧
      atoi (printDec 2147483647) = 2147483647 := by
  have h := print_dec_round_trip (fun _ => 0) 2147483647 (by decide)
  exact ⟨h.1, h.2.2.2 (by decide)⟩

end MyOS
