import MyOS.Verification.Pmm.Correctness

/-! The frame allocator on a memory whose frame count is not a multiple of 32. The division by
8 rounds the bitmap down and the alignment rounds it up, so the bitmap has a bit for less or for
more frames than there are. -/

namespace MyOS

open WordBitmap

variable {stale : ℕ → BitVec 32} {memSizeBytes kernelEnd : UInt32}

/-- The allocator hands out the frames between the reserved area and the end of memory and no
others, fails only when all of them are in use, and keeps to its bitmap. -/
structure ManagesExactly (memSizeBytes kernelEnd : UInt32) : Prop where
  returned_iff : ∀ stale f,
    (∃ s held, PmmReachable (pmmInit stale memSizeBytes kernelEnd) s held ∧
      (pmmAllocFrame s).1 = f * 4096 ∧ f * 4096 ≠ 0) ↔
    reservedFrames memSizeBytes kernelEnd ≤ f ∧ f < memSizeBytes.toNat / 4096
  null_only : ∀ stale s held, PmmReachable (pmmInit stale memSizeBytes kernelEnd) s held →
    (pmmAllocFrame s).1 = 0 →
    ∀ f, reservedFrames memSizeBytes kernelEnd ≤ f → f < memSizeBytes.toNat / 4096 →
      f * 4096 ∈ held
  inside : ∀ stale d, bitmapBytes memSizeBytes / 4 ≤ d →
    (pmmInit stale memSizeBytes kernelEnd).pmmBitmap d = stale d

/-! ## Sizes -/

/-- The number of frames the bitmap has a bit for: up to 7 too few, or up to 24 too many. -/
theorem capacity_pmmInit (stale : ℕ → BitVec 32) (memSizeBytes kernelEnd : UInt32) :
    (pmmInit stale memSizeBytes kernelEnd).capacity =
      if memSizeBytes.toNat / 4096 % 32 < 8 then memSizeBytes.toNat / 4096 / 32 * 32
      else (memSizeBytes.toNat / 4096 / 32 + 1) * 32 := by
  change bitmapBytes memSizeBytes / 4 * 32 = _
  unfold bitmapBytes pmmFrameSize
  simp only
  split
  · rw [if_neg (by omega)]
    omega
  · rw [if_pos (by omega)]
    omega

/-- The frames of the reserved area; the rounding wraps when it ends in the last page of 4 GiB. -/
theorem reservedFrames_eq (hfit : kernelEnd.toNat + bitmapBytes memSizeBytes ≤ memSizeBytes.toNat) :
    reservedFrames memSizeBytes kernelEnd =
      if kernelEnd.toNat + bitmapBytes memSizeBytes ≤ 2 ^ 32 - 4096 then
        (kernelEnd.toNat + bitmapBytes memSizeBytes + 4095) / 4096
      else 0 := by
  have hmem := memSizeBytes.toNat_lt
  unfold reservedFrames pmmFrameSize
  simp only
  rw [Nat.mod_eq_of_lt (a := kernelEnd.toNat + bitmapBytes memSizeBytes) (by omega)]
  split
  · rw [Nat.mod_eq_of_lt (by omega)]
    rfl
  · omega

theorem frameUsed_pmmInit {f : ℕ} (hf : f < (pmmInit stale memSizeBytes kernelEnd).capacity) :
    (pmmInit stale memSizeBytes kernelEnd).frameUsed f =
      decide (f < reservedFrames memSizeBytes kernelEnd) := by
  have hf : f < bitmapBytes memSizeBytes / 4 * 32 := hf
  have hzero : bit (fun dword => if dword < bitmapBytes memSizeBytes / 4 then 0#32 else stale dword)
      f = false := by
    have hdword : f / 32 < bitmapBytes memSizeBytes / 4 := by omega
    simp [bit, hdword]
  simp only [Pmm.frameUsed, pmmInit]
  rw [bit_foldl_pmmSetBit, hzero, Bool.or_false]

/-! ## Runs -/

theorem PmmReachable.capacity_eq {init s : Pmm} {held : List ℕ} (h : PmmReachable init s held) :
    s.capacity = init.capacity := by
  induction h with
  | init => rfl
  | alloc _ ih => rw [pmmAllocFrame_capacity, ih]
  | free _ _ ih => rw [pmmFreeFrame_capacity, ih]

/-- Allocations one after the other fill the bitmap from the reserved area on. -/
theorem exists_reachable_filled {init : Pmm} {reserved : ℕ}
    (hinit : ∀ f < init.capacity, init.frameUsed f = decide (f < reserved)) {k : ℕ}
    (hk : reserved + k ≤ init.capacity) :
    ∃ s held, PmmReachable init s held ∧
      ∀ f < init.capacity, s.frameUsed f = decide (f < reserved + k) := by
  induction k with
  | zero => exact ⟨init, [], .init, hinit⟩
  | succ k ih =>
      obtain ⟨s, held, hreach, hused⟩ := ih (by omega)
      refine ⟨_, _, hreach.alloc, ?_⟩
      have hnext : s.frameUsed (reserved + k) = false := by
        rw [hused _ (by omega)]
        simp
      obtain ⟨f, hf, hfree, hlow, hs⟩ | ⟨hfull, -⟩ := pmmAllocFrame_cases s
      · rw [hreach.capacity_eq] at hf
        have hfirst : f = reserved + k := by
          rw [hused f hf] at hfree
          have hle : reserved + k ≤ f := by simpa using hfree
          by_contra hne
          rw [hlow (reserved + k) (by omega)] at hnext
          cases hnext
        intro g hg
        rw [hs]
        simp only [Pmm.frameUsed, bit_pmmSetBit]
        have hg' := hused g hg
        unfold Pmm.frameUsed at hg'
        rw [hg', hfirst, ← Bool.decide_or, decide_eq_decide]
        omega
      · rw [hfull _ (by rw [hreach.capacity_eq]; omega)] at hnext
        cases hnext

theorem exists_reachable_returns {init : Pmm} {reserved f : ℕ}
    (hinit : ∀ f < init.capacity, init.frameUsed f = decide (f < reserved))
    (hreserved : reserved ≤ f) (hf : f < init.capacity) :
    ∃ s held, PmmReachable init s held ∧ (pmmAllocFrame s).1 = f * 4096 := by
  obtain ⟨s, held, hreach, hused⟩ := exists_reachable_filled hinit (k := f - reserved) (by omega)
  rw [Nat.add_sub_cancel' hreserved] at hused
  refine ⟨s, held, hreach, ?_⟩
  obtain ⟨g, hg, hfree, hlow, hs⟩ | ⟨hfull, -⟩ := pmmAllocFrame_cases s
  · rw [hreach.capacity_eq] at hg
    have hle : f ≤ g := by
      rw [hused g hg] at hfree
      simpa using hfree
    have hge : g ≤ f := by
      by_contra hlt
      have hset := hlow f (by omega)
      rw [hused f hf] at hset
      simp at hset
    rw [hs, Nat.le_antisymm hge hle]
  · have hset := hfull f (by rw [hreach.capacity_eq]; exact hf)
    rw [hused f hf] at hset
    simp at hset

theorem PmmReachable.returned_lt {init s : Pmm} {held : List ℕ} (h : PmmReachable init s held)
    {f : ℕ} (hf : (pmmAllocFrame s).1 = f * 4096) (hne : f * 4096 ≠ 0) : f < init.capacity := by
  obtain ⟨g, hg, -, -, hs⟩ | ⟨-, hs⟩ := pmmAllocFrame_cases s
  · rw [hs] at hf
    simp only at hf
    rw [← h.capacity_eq]
    omega
  · rw [hs] at hf
    exact absurd hf.symm hne

theorem PmmReachable.of_full {init s : Pmm} {held : List ℕ} (h : PmmReachable init s held)
    (hfull : ∀ f < init.capacity, init.frameUsed f = true) : s = init ∧ held = [] := by
  induction h with
  | init => exact ⟨rfl, rfl⟩
  | alloc _ ih =>
      obtain ⟨rfl, rfl⟩ := ih
      obtain ⟨f, hf, hfree, -⟩ | ⟨-, hs⟩ := pmmAllocFrame_cases _
      · rw [hfull f hf] at hfree
        cases hfree
      · rw [hs]
        exact ⟨rfl, rfl⟩
  | free _ haddr ih =>
      obtain ⟨-, rfl⟩ := ih
      cases haddr

/-! ## What `pmm_init` writes -/

theorem foldl_pmmSetBit_of_le (bitmap : ℕ → BitVec 32) {n d : ℕ} (h : n ≤ d * 32) :
    (List.range n).foldl pmmSetBit bitmap d = bitmap d := by
  induction n with
  | zero => rfl
  | succ n ih =>
      rw [List.range_succ, List.foldl_append, List.foldl_cons, List.foldl_nil, pmmSetBit,
        Function.update_of_ne (by omega)]
      exact ih (by omega)

theorem pmmInit_inside (h : reservedFrames memSizeBytes kernelEnd ≤
    (pmmInit stale memSizeBytes kernelEnd).capacity) {d : ℕ}
    (hd : bitmapBytes memSizeBytes / 4 ≤ d) :
    (pmmInit stale memSizeBytes kernelEnd).pmmBitmap d = stale d := by
  have hcapacity : (pmmInit stale memSizeBytes kernelEnd).capacity =
    bitmapBytes memSizeBytes / 4 * 32 := rfl
  have hset := foldl_pmmSetBit_of_le
    (fun dword => if dword < bitmapBytes memSizeBytes / 4 then 0#32 else stale dword)
    (show reservedFrames memSizeBytes kernelEnd ≤ d * 32 by omega)
  rw [pmmInit]
  simp only
  rw [hset, if_neg (by omega)]

theorem ManagesExactly.reserved_le (h : ManagesExactly memSizeBytes kernelEnd) :
    reservedFrames memSizeBytes kernelEnd ≤
      (pmmInit (fun _ => 0#32) memSizeBytes kernelEnd).capacity := by
  by_contra hlt
  have hcapacity : (pmmInit (fun _ => 0#32) memSizeBytes kernelEnd).capacity =
    bitmapBytes memSizeBytes / 4 * 32 := rfl
  have hclear := h.inside (fun _ => 0#32) (bitmapBytes memSizeBytes / 4) le_rfl
  have hset : (pmmInit (fun _ => 0#32) memSizeBytes kernelEnd).frameUsed
      (bitmapBytes memSizeBytes / 4 * 32) = true := by
    simp only [Pmm.frameUsed, pmmInit]
    rw [bit_foldl_pmmSetBit, decide_eq_true (by omega), Bool.true_or]
  rw [Pmm.frameUsed, bit, Nat.mul_div_cancel _ (by omega), hclear] at hset
  simp at hset

/-- With a frame count that is no multiple of 32 the allocator manages the memory exactly in one
case only: the reserved area ends behind the last whole frame, and the bitmap has one bit too
many, which it takes. No frame is left to hand out then. -/
theorem pmm_manages_exactly_iff (memSizeBytes kernelEnd : UInt32)
    (hframes : memSizeBytes.toNat / 4096 % 32 ≠ 0)
    (hfit : kernelEnd.toNat + bitmapBytes memSizeBytes ≤ memSizeBytes.toNat) :
    ManagesExactly memSizeBytes kernelEnd ↔
      memSizeBytes.toNat / 4096 % 32 = 31 ∧ memSizeBytes.toNat / 4096 < 2 ^ 20 - 1 ∧
        memSizeBytes.toNat / 4096 * 4096 < kernelEnd.toNat + bitmapBytes memSizeBytes := by
  have hmem := memSizeBytes.toNat_lt
  have hcapacity := fun stale => capacity_pmmInit stale memSizeBytes kernelEnd
  have hreserved := reservedFrames_eq hfit
  constructor
  · intro h
    have hle := h.reserved_le
    rw [hcapacity] at hle
    -- a frame behind the last one would be handed out
    have hnone : ∀ f, reservedFrames memSizeBytes kernelEnd ≤ f →
        memSizeBytes.toNat / 4096 ≤ f →
        (pmmInit (fun _ => 0#32) memSizeBytes kernelEnd).capacity ≤ f := by
      intro f hres hf
      by_contra hlt
      have hinit : ∀ g < (pmmInit (fun _ => 0#32) memSizeBytes kernelEnd).capacity,
          (pmmInit (fun _ => 0#32) memSizeBytes kernelEnd).frameUsed g =
            decide (g < reservedFrames memSizeBytes kernelEnd) := fun g hg => frameUsed_pmmInit hg
      obtain ⟨s, held, hreach, hreturns⟩ := exists_reachable_returns hinit hres (by omega)
      have hreturned := (h.returned_iff (fun _ => 0#32) f).mp
        ⟨s, held, hreach, hreturns, by omega⟩
      omega
    -- the last frame can be handed out if it is not reserved
    have hlast : reservedFrames memSizeBytes kernelEnd ≤ memSizeBytes.toNat / 4096 - 1 →
        memSizeBytes.toNat / 4096 - 1 <
          (pmmInit (fun _ => 0#32) memSizeBytes kernelEnd).capacity := by
      intro hres
      obtain ⟨s, held, hreach, hreturns, hne⟩ :=
        (h.returned_iff (fun _ => 0#32) (memSizeBytes.toNat / 4096 - 1)).mpr ⟨hres, by omega⟩
      exact hreach.returned_lt hreturns hne
    have htotal := hnone (memSizeBytes.toNat / 4096)
    have hbehind := hnone (memSizeBytes.toNat / 4096 + 1)
    rw [hcapacity] at htotal hbehind hlast
    by_cases hdown : memSizeBytes.toNat / 4096 % 32 < 8
    · rw [if_pos hdown] at hle hlast
      omega
    · rw [if_neg hdown] at htotal hbehind
      split at hreserved
      · omega
      · omega
  · rintro ⟨hresidue, hbelow, hpartial⟩
    have hfull : ∀ stale, (pmmInit stale memSizeBytes kernelEnd).capacity =
        reservedFrames memSizeBytes kernelEnd := by
      intro stale
      rw [hcapacity, hreserved, if_neg (by omega), if_pos (by omega)]
      omega
    have hrun : ∀ stale s held, PmmReachable (pmmInit stale memSizeBytes kernelEnd) s held →
        (pmmAllocFrame s).1 = 0 := by
      intro stale s held hreach
      have hused : ∀ f < (pmmInit stale memSizeBytes kernelEnd).capacity,
          (pmmInit stale memSizeBytes kernelEnd).frameUsed f = true := by
        intro f hf
        rw [frameUsed_pmmInit hf, decide_eq_true_eq, ← hfull stale]
        exact hf
      obtain ⟨rfl, -⟩ := hreach.of_full hused
      obtain ⟨f, hf, hfree, -⟩ | ⟨-, hs⟩ := pmmAllocFrame_cases (pmmInit stale memSizeBytes kernelEnd)
      · rw [hused f hf] at hfree
        cases hfree
      · rw [hs]
    have hcount : memSizeBytes.toNat / 4096 < reservedFrames memSizeBytes kernelEnd := by
      rw [hreserved, if_pos (by omega)]
      omega
    refine ⟨?_, ?_, ?_⟩
    · intro stale f
      constructor
      · rintro ⟨s, held, hreach, hreturns, hne⟩
        rw [hrun stale s held hreach] at hreturns
        exact absurd hreturns.symm hne
      · rintro ⟨hres, hf⟩
        omega
    · intro stale s held _ _ f hres hf
      omega
    · intro stale d hd
      exact pmmInit_inside (hfull stale).ge hd

theorem pmm_manages_exactly_full : ManagesExactly 129024 127000 :=
  (pmm_manages_exactly_iff 129024 127000 (by decide) (by decide)).mpr (by decide)

/-- With 64 KiB more than 16 MiB, frame 4112, behind the end of memory, is handed out. -/
theorem pmm_returns_frame_behind_memory :
    (∃ s held, PmmReachable (pmmInit (fun _ => 0#32) 16842752 131072) s held ∧
      (pmmAllocFrame s).1 = 4112 * 4096) ∧
    16842752 / 4096 = 4112 ∧ ¬ManagesExactly 16842752 131072 := by
  have hreturns : ∃ s held, PmmReachable (pmmInit (fun _ => 0#32) 16842752 131072) s held ∧
      (pmmAllocFrame s).1 = 4112 * 4096 :=
    exists_reachable_returns (fun g hg => frameUsed_pmmInit hg) (by decide) (by decide)
  refine ⟨hreturns, rfl, ?_⟩
  intro h
  obtain ⟨s, held, hreach, hf⟩ := hreturns
  have hlt := ((h.returned_iff (fun _ => 0#32) 4112).mp ⟨s, held, hreach, hf, by decide⟩).2
  exact absurd hlt (by decide)

end MyOS
